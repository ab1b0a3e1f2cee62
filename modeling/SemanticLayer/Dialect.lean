import SemanticLayer.Text.CharClass
import SemanticLayer.Text.Parts
import SemanticLayer.Text.UpperCase

/-!
# Dialects of SQL

The dialects that queries are compiled to, and what differs between them: quotation, the spelling of
truth values, concatenation, pagination and the names of functions.
-/

namespace SemanticLayer

/-- A dialect of SQL. -/
inductive Dialect where
  | duckDb
  | postgres
  | mySql
  | tSql
  | snowflake
  | bigQuery
  | sqlite
  | trino
  deriving DecidableEq, Repr

namespace Dialect

/-- The dialect of a database that names no other. -/
def standard : Dialect := duckDb

instance : Inhabited Dialect := ⟨standard⟩

/-- Every dialect. -/
def all : List Dialect :=
  [duckDb, postgres, mySql, tSql, snowflake, bigQuery, sqlite, trino]

/-- The name a dialect is shown by. -/
def name : Dialect → String
  | duckDb => "duckdb"
  | postgres => "postgres"
  | mySql => "mysql"
  | tSql => "tsql"
  | snowflake => "snowflake"
  | bigQuery => "bigquery"
  | sqlite => "sqlite"
  | trino => "trino"

/-- The names a dialect is known by, in lower case. -/
def names : Dialect → List String
  | duckDb => ["duckdb"]
  | postgres => ["postgres", "postgresql", "redshift"]
  | mySql => ["mysql", "mariadb"]
  | tSql => ["mssql", "tsql", "sqlserver"]
  | snowflake => ["snowflake"]
  | bigQuery => ["bigquery"]
  | sqlite => ["sqlite"]
  | trino => ["trino", "presto"]

/-- The dialect known by a name, in any case of its ASCII letters. -/
def ofName? (text : String) : Option Dialect :=
  all.find? fun dialect => dialect.names.contains (Text.asciiLower text)

/-- What is said of a name that no dialect is known by. -/
def unknownName (text : String) : String :=
  "unknown dialect: " ++ Text.asciiLower text

/-- The characters in front of the first `://`, or all of them. -/
def schemeOf : List Char → List Char
  | ':' :: '/' :: '/' :: _ => []
  | c :: rest => c :: schemeOf rest
  | [] => []

/-- The dialect of a database by the scheme of its URI, without what follows a plus sign. -/
def ofUri (uri : String) : Dialect :=
  let backend := (schemeOf uri.toList).takeWhile (· != '+')
  (ofName? (String.ofList backend)).getD standard

/-! ## Quotation -/

/-- The characters that open and close a quoted identifier. -/
def identifierQuotes : Dialect → Char × Char
  | mySql | bigQuery => ('\x60', '\x60')
  | tSql => ('[', ']')
  | _ => ('"', '"')

/-- Text between an opening and a closing character, the closing one doubled inside. -/
def enclose (opening closing : Char) (text : String) : String :=
  String.ofList
    (opening :: (Text.replaceChar closing [closing, closing] text.toList ++ [closing]))

/-- An identifier in quotes. -/
def quoteIdentifier (dialect : Dialect) (text : String) : String :=
  enclose dialect.identifierQuotes.1 dialect.identifierQuotes.2 text

/-- A string literal. Text beyond ASCII is marked as national text where the dialect asks for it. -/
def quoteString (dialect : Dialect) (text : String) : String :=
  let literal := enclose '\'' '\'' text
  if dialect = tSql ∧ text.toList.any (fun c => c.toNat ≥ 0x80) then "N" ++ literal else literal

/-! ## Literals and operators -/

/-- A truth value, as a word or as a number. -/
def booleanText (dialect : Dialect) (value : Bool) : String :=
  match dialect with
  | mySql | tSql | sqlite => if value then "1" else "0"
  | _ => if value then "true" else "false"

/-- The literal for a missing value. -/
def nullText (_ : Dialect) : String := "NULL"

/-- The operator that joins texts. -/
def concatOperator : Dialect → String
  | tSql => "+"
  | _ => "||"

/-- Whether texts are joined by an operator and not by a function. -/
def hasConcatOperator (dialect : Dialect) : Bool :=
  dialect != mySql

/-- Whether an ordering may say where missing values go. -/
def ordersNulls (dialect : Dialect) : Bool :=
  dialect != mySql && dialect != tSql

/-- Whether rows are counted off with OFFSET and FETCH, which needs an ordering. -/
def paginatesByFetch (dialect : Dialect) : Bool :=
  dialect == tSql

/-! ## Names of functions -/

/-- Function names in upper case that a dialect spells differently. -/
def functionSpellings : Dialect → List (List String × String)
  | duckDb => [(["TO_CHAR", "DATE_FORMAT"], "STRFTIME"), (["NVL", "ISNULL"], "COALESCE")]
  | postgres =>
    [(["STRFTIME", "DATE_FORMAT"], "TO_CHAR"), (["NVL", "IFNULL", "ISNULL"], "COALESCE")]
  | mySql =>
    [(["STRFTIME", "TO_CHAR"], "DATE_FORMAT"), (["NVL", "ISNULL"], "IFNULL"),
      (["SUBSTR"], "SUBSTRING")]
  | tSql =>
    [(["LENGTH"], "LEN"), (["SUBSTR"], "SUBSTRING"), (["NOW", "CURRENT_TIMESTAMP"], "GETDATE"),
      (["STRFTIME", "TO_CHAR", "DATE_FORMAT"], "FORMAT"), (["NVL", "IFNULL"], "ISNULL")]
  | snowflake => [(["STRFTIME", "DATE_FORMAT"], "TO_CHAR"), (["IFNULL", "ISNULL"], "NVL")]
  | bigQuery =>
    [(["STRFTIME", "TO_CHAR", "DATE_FORMAT"], "FORMAT_TIMESTAMP"), (["NVL", "ISNULL"], "IFNULL"),
      (["LENGTH"], "CHAR_LENGTH")]
  | sqlite =>
    [(["NVL", "ISNULL"], "IFNULL"), (["SUBSTRING"], "SUBSTR"),
      (["TO_CHAR", "DATE_FORMAT"], "STRFTIME")]
  | trino =>
    [(["NVL", "IFNULL", "ISNULL"], "COALESCE"), (["STRFTIME", "TO_CHAR"], "DATE_FORMAT")]

/-- The dialect's own name for a function, if it has one. -/
def functionSpelling? (dialect : Dialect) (name : String) : Option String :=
  (dialect.functionSpellings.find? fun entry => entry.1.contains (Text.upper name)).map (·.2)

/-- A function name as it is written: the dialect's own in upper case. -/
def functionText (dialect : Dialect) (name : String) : String :=
  Text.upper ((dialect.functionSpelling? name).getD name)

end Dialect
end SemanticLayer
