import SemanticLayer.Number.Integer

/-!
# Commands and their options

The words of the command line: the commands, the options that each of them knows, and which texts an
option takes.
-/

namespace SemanticLayer.CommandLine

/-- What the program is asked to do. -/
inductive Verb where
  | node
  | sql
  | verify
  | dimensions
  deriving DecidableEq, Repr

namespace Verb

/-- Every command. -/
def all : List Verb := [node, sql, verify, dimensions]

/-- The word for a command. -/
def word : Verb → String
  | node => "node"
  | sql => "sql"
  | verify => "verify"
  | dimensions => "dimensions"

/-- The command that a word is for. -/
def ofWord? (text : String) : Option Verb :=
  all.find? fun verb => verb.word == text

end Verb

/-- What an option is about. -/
inductive Topic where
  | config
  | format
  | verbose
  | help
  | version
  | dimension
  | filter
  | database
  | permission
  | catalog
  | schema
  deriving DecidableEq, Repr

namespace Topic

/-- The word for a topic, which follows two hyphens. -/
def word : Topic → String
  | config => "config"
  | format => "format"
  | verbose => "verbose"
  | help => "help"
  | version => "version"
  | dimension => "dimension"
  | filter => "filter"
  | database => "database"
  | permission => "permission"
  | catalog => "catalog"
  | schema => "schema"

/-- The letter for a topic, which follows one hyphen. -/
def letter? : Topic → Option Char
  | verbose => some 'v'
  | help => some 'h'
  | version => some 'V'
  | dimension => some 'd'
  | filter => some 'f'
  | permission => some 'p'
  | _ => none

/-- Whether an option takes a text. -/
def takesText : Topic → Bool
  | verbose | help | version => false
  | _ => true

/-- Whether an option may be given more than once. -/
def isRepeatable : Topic → Bool
  | dimension | filter | permission => true
  | _ => false

/-- The options that every command knows. -/
def shared : List Topic := [config, format, verbose, help]

/-- The options known in front of a command or behind one. -/
def known : Option Verb → List Topic
  | none => shared ++ [version]
  | some .node => shared ++ [dimension, filter, database]
  | some .sql => shared ++ [database]
  | some .verify => shared ++ [permission, database, catalog, schema]
  | some .dimensions => shared

/-- The known option of a word. -/
def ofWord? (verb : Option Verb) (text : String) : Option Topic :=
  (known verb).find? fun topic => topic.word == text

/-- The known option of a letter. -/
def ofLetter? (verb : Option Verb) (c : Char) : Option Topic :=
  (known verb).find? fun topic => topic.letter? == some c

/-- Whether an option takes a text: a path is not empty, a format is one of two words, and a
database to verify against has a name where other databases have an id. -/
def accepts (verb : Option Verb) (topic : Topic) (text : String) : Bool :=
  match topic, verb with
  | config, _ => !text.isEmpty
  | format, _ => text == "sql" || text == "json"
  | database, some .verify => true
  | database, _ => (Number.int64? text.toList).isSome
  | _, _ => true

end Topic
end SemanticLayer.CommandLine
