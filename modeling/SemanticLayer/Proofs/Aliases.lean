import SemanticLayer.Catalog.References
import SemanticLayer.Proofs.Demands

/-!
# Names of relations in query blocks

A query block declares names: those of its WITH, and the aliases of the relations in its FROM. A
qualifier means what the innermost block around it says that declares it, and the parent of that
name where no block does. The walk that charges columns keeps one list of names for a whole document.
It charges columns as the blocks say where the document gives each name one meaning, and uses a
declared name only within a block that declares it.
-/

namespace SemanticLayer.Catalog

open Document (Pointer)
open Access (identValue identValues)
open RelationNames (alias?)

variable {document : Document} {parents : List Node} {references : References}

/-! ## Blocks -/

/-- The documents under a key, with their places. -/
def under (document : Document) (key : String) : List (Pointer × Document) :=
  (document.find key none).filterMap fun place => (document.at? place).map (place, ·)

/-- Whether a query stands at a place, or a SELECT that is an operand of a set operation. -/
def isBlock (document : Document) (place : Pointer) : Bool :=
  match document.at? place with
  | some found =>
    (found.field? "body").isSome ||
      ((found.field? "Select").isSome && place.getLast? != some "body")
  | none => false

/-- The blocks around a place, the innermost one in front. -/
def blocksAround (document : Document) (place : Pointer) : List Pointer :=
  (place.inits.filter (isBlock document)).reverse

/-- A name that a block declares, and what it means there: a table, or a query whose columns are not
looked at. -/
structure Declaration where
  block? : Option Pointer
  /-- Where in its block the name is not known. -/
  hidden : List Pointer := []
  name : String
  meaning : Option String
  deriving DecidableEq

/-- Whether a name is declared in a block for a place in it. -/
def Declaration.reaches (declaration : Declaration) (place block : Pointer) : Bool :=
  declaration.block? == some block && declaration.hidden.all fun other => !other.isPrefixOf place

/-- Whether the queries that a WITH names may refer to themselves. -/
def isRecursive (document : Document) (list : Pointer) : Bool :=
  match document.at? (list.dropLast ++ ["recursive"]) with
  | some (.bool value) => value
  | _ => false

/-- The queries that are named by WITH. A name is not known in front of its query or in it, unless
the WITH is recursive. -/
def namedQueries (document : Document) : List Declaration :=
  (under document "cte_tables").flatMap fun (list, queries) =>
    (queries.items?.getD []).zipIdx.filterMap fun (query, i) =>
      (alias? query).map fun name =>
        { block? := (blocksAround document list).head?
          hidden :=
            if isRecursive document list then []
            else (List.range (i + 1)).map fun j => list ++ [String.ofList (Number.natText j)]
          name
          meaning := none }

/-- The derived tables that have an alias. -/
def derivedTables (document : Document) : List Declaration :=
  (under document "Derived").filterMap fun (place, relation) =>
    (alias? relation).map fun name =>
      { block? := (blocksAround document place).head?, name, meaning := none }

/-- Whether a WITH names a query for a place. -/
def isNamedQuery (document : Document) (place : Pointer) (name : String) : Bool :=
  (namedQueries document).any fun declaration =>
    declaration.name == name && (blocksAround document place).any (declaration.reaches place)

/-- The full name of a table. -/
def calledIn (table : Document) : String :=
  Text.dotted (((table.field? "name").map identValues).getD [])

/-- The alias of a table at its place. A table called like a query of a WITH is that query. -/
def tableAlias? (document : Document) (table : Pointer × Document) : Option Declaration :=
  (alias? table.2).map fun name =>
    { block? := (blocksAround document table.1).head?
      name
      meaning :=
        if isNamedQuery document table.1 (calledIn table.2) then none
        else some (calledIn table.2) }

/-- The tables that have an alias. -/
def aliasedTables (document : Document) : List Declaration :=
  (under document "Table").filterMap (tableAlias? document)

/-- All declarations, those of one block that count more behind those that count less. -/
def declarations (document : Document) : List Declaration :=
  namedQueries document ++ derivedTables document ++ aliasedTables document

/-- What a name means at a place: what the innermost block says that declares it. -/
def meaning? (document : Document) (place : Pointer) (name : String) : Option (Option String) :=
  (blocksAround document place).findSome? fun block =>
    ((declarations document).reverse.find? fun declaration =>
      declaration.name == name && declaration.reaches place block).map Declaration.meaning

/-- The relation that a column with a qualifier is charged to, unless the qualifier means a query.
A name that is not declared is that of a parent. -/
def owner? (document : Document) (place : Pointer) (qualifier : String) : Option String :=
  (meaning? document place qualifier).getD (some qualifier)

/-- A column is charged to a parent: by the meaning of its qualifier, or as the only parent that has
it. -/
inductive Charge (document : Document) (parents : List Node) : String → String → Prop
  | qualified {place : Pointer} {idents : Document} {owner column : String}
      (listed : (place, idents) ∈ under document "CompoundIdentifier")
      (named : (identValues idents).getLast? = some column)
      (owned : owner? document place (Text.dotted (identValues idents).dropLast) = some owner) :
      Charge document parents owner column
  | bare {place : Pointer} {ident : Document} {parent : Node}
      (listed : (place, ident) ∈ under document "Identifier")
      (only : (parents.filter fun node => node.hasColumn (identValue ident)) = [parent]) :
      Charge document parents parent.name (identValue ident)

/-- A document in which names are not shared: each one has one meaning, a column takes a declared
name for its qualifier only where it is declared, and a table with an alias is called like a query
only where a WITH names that query. -/
structure Unshared (document : Document) : Prop where
  one : ∀ declaration ∈ declarations document, ∀ other ∈ declarations document,
    declaration.name = other.name → declaration.meaning = other.meaning
  inside : ∀ column ∈ under document "CompoundIdentifier",
    Text.dotted (identValues column.2).dropLast ∈
        (declarations document).map Declaration.name →
      (meaning? document column.1 (Text.dotted (identValues column.2).dropLast)).isSome
  called : ∀ table ∈ under document "Table", (alias? table.2).isSome →
    ∀ declaration ∈ declarations document, declaration.name = calledIn table.2 →
      declaration.meaning = none → isNamedQuery document table.1 (calledIn table.2)

instance (document : Document) : Decidable (Unshared document) :=
  decidable_of_iff
    ((∀ declaration ∈ declarations document, ∀ other ∈ declarations document,
        declaration.name = other.name → declaration.meaning = other.meaning) ∧
      (∀ column ∈ under document "CompoundIdentifier",
        Text.dotted (identValues column.2).dropLast ∈
            (declarations document).map Declaration.name →
          (meaning? document column.1 (Text.dotted (identValues column.2).dropLast)).isSome) ∧
      ∀ table ∈ under document "Table", (alias? table.2).isSome →
        ∀ declaration ∈ declarations document, declaration.name = calledIn table.2 →
          declaration.meaning = none → isNamedQuery document table.1 (calledIn table.2))
    ⟨fun ⟨one, inside, called⟩ => ⟨one, inside, called⟩,
      fun unshared => ⟨unshared.one, unshared.inside, unshared.called⟩⟩

/-! ## The list of names of a document -/

/-- What the list of names holds of a declaration. -/
def Declaration.entry (declaration : Declaration) : String × Option String :=
  (declaration.name, declaration.meaning)

theorem filterMap_at?_find (document : Document) (key : String) :
    (document.find key none).filterMap document.at? = (under document key).map Prod.snd := by
  rw [under, List.map_filterMap]
  congr 1
  funext place
  cases document.at? place with
  | none => rfl
  | some found => rfl

theorem addQueries_eq (names : RelationNames) (relations : List Document) :
    names.addQueries relations =
      ((relations.filterMap alias?).map fun name => (name, none)).reverse ++ names := by
  rw [RelationNames.addQueries]
  generalize relations.filterMap alias? = aliases
  induction aliases generalizing names with
  | nil => rfl
  | cons first rest ih =>
      rw [List.foldl_cons, ih, List.map_cons, List.reverse_cons, List.append_assoc]
      rfl

theorem entries_namedQueries (document : Document) :
    (namedQueries document).map Declaration.entry =
      ((((under document "cte_tables").map Prod.snd).flatMap fun list =>
        list.items?.getD []).filterMap alias?).map fun name => (name, none) := by
  rw [namedQueries, List.map_flatMap, List.flatMap_map, List.filterMap_flatMap, List.map_flatMap]
  congr 1
  funext ⟨list, queries⟩
  have told (query : Document) (i : Nat) :
      ((alias? query).map fun name => ({
          block? := (blocksAround document list).head?
          hidden :=
            if isRecursive document list then []
            else (List.range (i + 1)).map fun j => list ++ [String.ofList (Number.natText j)]
          name
          meaning := none } : Declaration)).map Declaration.entry =
        (alias? query).map fun name => (name, none) := by
    rw [Option.map_map]
    rfl
  simp only [List.map_filterMap, told]
  conv_rhs => rw [← List.zipIdx_map_fst 0 (queries.items?.getD []), List.filterMap_map]
  rfl

theorem entries_derivedTables (document : Document) :
    (derivedTables document).map Declaration.entry =
      (((under document "Derived").map Prod.snd).filterMap alias?).map fun name => (name, none) := by
  rw [derivedTables, List.map_filterMap, List.filterMap_map, List.map_filterMap]
  congr 1
  funext ⟨place, relation⟩
  simp only [Function.comp_apply, Option.map_map]
  rfl

theorem meaning_of_mem_namedQueries {declaration : Declaration}
    (member : declaration ∈ namedQueries document) : declaration.meaning = none := by
  obtain ⟨_, _, inside⟩ := List.mem_flatMap.1 member
  obtain ⟨_, _, made⟩ := List.mem_filterMap.1 inside
  obtain ⟨_, _, rfl⟩ := Option.map_eq_some_iff.1 made
  rfl

theorem meaning?_eq_some {names : RelationNames} {name : String} {meaning : Option String}
    (found : names.meaning? name = some meaning) : (name, meaning) ∈ names := by
  obtain ⟨entry, first, rfl⟩ := Option.map_eq_some_iff.1 found
  have same : entry.1 = name := by simpa using List.find?_some first
  exact same ▸ List.mem_of_find?_eq_some first

theorem isSome_meaning? {names : RelationNames} {name : String} {meaning : Option String}
    (member : (name, meaning) ∈ names) : ∃ found, names.meaning? name = some found := by
  rw [← Option.isSome_iff_exists, RelationNames.meaning?, Option.isSome_map, List.find?_isSome]
  exact ⟨_, member, beq_self_eq_true name⟩

theorem addTable_of_alias {table : Document} {name : String} (aliased : alias? table = some name)
    (names : RelationNames) :
    RelationNames.addTable names table =
      (name, if names.meaning? (calledIn table) = some none then none
        else some (calledIn table)) :: names := by
  simp only [RelationNames.addTable, aliased, ← calledIn.eq_1 table]
  rcases names.meaning? (calledIn table) with _ | _ | meant <;> rfl

namespace Unshared

variable (unshared : Unshared document)
include unshared

/-- A list with entries for some declarations, among them the queries of WITH, tells of a table that
has an alias whether it is called like a known query. -/
theorem meaning?_calledIn {names : List Declaration} (known : names ⊆ declarations document)
    (queries : namedQueries document ⊆ names) {place : Pointer} {table : Document}
    (listed : (place, table) ∈ under document "Table") (aliased : (alias? table).isSome) :
    RelationNames.meaning? (names.map Declaration.entry).reverse (calledIn table) = some none ↔
      isNamedQuery document place (calledIn table) = true := by
  constructor
  · intro found
    obtain ⟨declaration, member, same⟩ :=
      List.mem_map.1 (List.mem_reverse.1 (meaning?_eq_some found))
    obtain ⟨called, means⟩ := Prod.mk.inj same
    exact unshared.called _ listed aliased declaration (known member) called means
  · intro named
    obtain ⟨query, isQuery, holds⟩ := List.any_eq_true.1 named
    have called : query.name = calledIn table := by
      rw [Bool.and_eq_true, beq_iff_eq] at holds
      exact holds.1
    have entered : (calledIn table, query.meaning) ∈ (names.map Declaration.entry).reverse := by
      rw [← called]
      exact List.mem_reverse.2 (List.mem_map_of_mem (queries isQuery))
    obtain ⟨meaning, found⟩ := isSome_meaning? entered
    obtain ⟨other, member, same⟩ :=
      List.mem_map.1 (List.mem_reverse.1 (meaning?_eq_some found))
    obtain ⟨calledToo, means⟩ := Prod.mk.inj same
    have alike : other.meaning = query.meaning :=
      unshared.one other (known member) query (known (queries isQuery))
        (calledToo.trans called.symm)
    rw [found, ← means, alike, meaning_of_mem_namedQueries isQuery]

/-- A table enters the list of names as it is declared. -/
theorem addTable_eq {names : List Declaration} (known : names ⊆ declarations document)
    (queries : namedQueries document ⊆ names) {table : Pointer × Document}
    (listed : table ∈ under document "Table") :
    RelationNames.addTable (names.map Declaration.entry).reverse table.2 =
      ((names ++ (tableAlias? document table).toList).map Declaration.entry).reverse := by
  rw [tableAlias?]
  cases aliased : alias? table.2 with
  | none => simp [RelationNames.addTable, aliased]
  | some name =>
      rw [addTable_of_alias aliased]
      simp only [unshared.meaning?_calledIn known queries listed (by simp [aliased]),
        Option.map_some, Option.toList_some, List.map_append, List.map_singleton,
        List.reverse_append, List.reverse_singleton, List.singleton_append, Declaration.entry]

/-- Some tables enter the list of names as they are declared. -/
theorem foldl_addTable {names : List Declaration} {tables : List (Pointer × Document)}
    (listed : tables ⊆ under document "Table")
    (known : names ++ tables.filterMap (tableAlias? document) ⊆ declarations document)
    (queries : namedQueries document ⊆ names) :
    (tables.map Prod.snd).foldl RelationNames.addTable (names.map Declaration.entry).reverse =
      ((names ++ tables.filterMap (tableAlias? document)).map Declaration.entry).reverse := by
  induction tables generalizing names with
  | nil =>
      rw [List.filterMap_nil, List.append_nil]
      rfl
  | cons table rest ih =>
      obtain ⟨here, later⟩ := List.cons_subset.1 listed
      have before : names ⊆ declarations document :=
        List.Subset.trans (List.subset_append_left names _) known
      have split : names ++ (table :: rest).filterMap (tableAlias? document) =
          names ++ (tableAlias? document table).toList ++
            rest.filterMap (tableAlias? document) := by
        rw [List.filterMap_cons, List.append_assoc]
        cases tableAlias? document table with
        | none => rfl
        | some declaration => rfl
      rw [split] at known ⊢
      rw [List.map_cons, List.foldl_cons, unshared.addTable_eq before queries here]
      exact ih later known (List.Subset.trans queries (List.subset_append_left names _))

/-- The list of names of a document tells its declarations, the last one in front. -/
theorem ofDocument_eq :
    RelationNames.ofDocument document =
      ((declarations document).map Declaration.entry).reverse := by
  rw [RelationNames.ofDocument]
  simp only [filterMap_at?_find]
  rw [addQueries_eq, addQueries_eq, ← entries_namedQueries, ← entries_derivedTables,
    List.append_nil, ← List.reverse_append, ← List.map_append]
  exact unshared.foldl_addTable (List.Subset.refl _) (List.Subset.refl _)
    (List.subset_append_left _ _)

/-- At a column the list of names says of the qualifier what it means there. -/
theorem meaning?_ofDocument {place : Pointer} {idents : Document}
    (listed : (place, idents) ∈ under document "CompoundIdentifier") :
    (RelationNames.ofDocument document).meaning? (Text.dotted (identValues idents).dropLast) =
      meaning? document place (Text.dotted (identValues idents).dropLast) := by
  have inside := unshared.inside _ listed
  dsimp only at inside
  generalize Text.dotted (identValues idents).dropLast = qualifier at inside
  have entered (meaning : Option String) :
      (qualifier, meaning) ∈ RelationNames.ofDocument document ↔
        ∃ declaration ∈ declarations document,
          declaration.name = qualifier ∧ declaration.meaning = meaning := by
    rw [unshared.ofDocument_eq, List.mem_reverse, List.mem_map]
    simp only [Declaration.entry, Prod.mk.injEq]
  have declared (meaning : Option String)
      (means : meaning? document place qualifier = some meaning) :
      ∃ declaration ∈ declarations document,
        declaration.name = qualifier ∧ declaration.meaning = meaning := by
    obtain ⟨block, _, found⟩ := List.exists_of_findSome?_eq_some means
    obtain ⟨declaration, first, same⟩ := Option.map_eq_some_iff.1 found
    have holds := List.find?_some first
    rw [Bool.and_eq_true, beq_iff_eq] at holds
    exact ⟨declaration, List.mem_reverse.1 (List.mem_of_find?_eq_some first), holds.1, same⟩
  cases found : (RelationNames.ofDocument document).meaning? qualifier with
  | none =>
      cases means : meaning? document place qualifier with
      | none => rfl
      | some meaning =>
          obtain ⟨other, there⟩ := isSome_meaning? ((entered meaning).2 (declared meaning means))
          rw [found] at there
          cases there
  | some meaning =>
      obtain ⟨declaration, member, named, rfl⟩ := (entered meaning).1 (meaning?_eq_some found)
      obtain ⟨other, means⟩ :=
        Option.isSome_iff_exists.1 (inside (List.mem_map.2 ⟨declaration, member, named⟩))
      obtain ⟨inner, isInner, innerNamed, rfl⟩ := declared other means
      rw [means, unshared.one declaration member inner isInner (named.trans innerNamed.symm)]

end Unshared

/-! ## What is charged -/

/-- A document in which names are not shared is charged as its blocks say. -/
theorem mem_of_documentReferences (unshared : Unshared document)
    (done : documentReferences document parents = .ok references) :
    (∀ owner column, column ∈ references.of owner ↔ Charge document parents owner column) ∧
      ∀ owner column, Charge document parents owner column →
        ∃ parent ∈ parents, parent.name = owner := by
  obtain ⟨qualified, first, later⟩ := Result.bind_eq_ok.1 done
  simp only [filterMap_at?_find] at first later
  obtain ⟨ordered, qualifiedMembers, isParent⟩ := mem_of_addQualified List.Pairwise.nil first
  obtain ⟨-, bareMembers, -⟩ := mem_of_addBare ordered later
  have owned {place : Pointer} {idents : Document}
      (listed : (place, idents) ∈ under document "CompoundIdentifier") :
      (RelationNames.ofDocument document).owner? (identValues idents) =
        owner? document place (Text.dotted (identValues idents).dropLast) := by
    rw [RelationNames.owner?, owner?, unshared.meaning?_ofDocument listed]
  have inColumns {place : Pointer} {idents : Document}
      (listed : (place, idents) ∈ under document "CompoundIdentifier") :
      identValues idents ∈
        ((under document "CompoundIdentifier").map Prod.snd).map identValues :=
    List.mem_map_of_mem (List.mem_map_of_mem listed)
  refine ⟨fun owner column => ?_, fun owner column charge => ?_⟩
  · rw [bareMembers, qualifiedMembers]
    constructor
    · rintro ((none | ⟨parts, member, last, owns⟩) | ⟨member, parent, only, rfl⟩)
      · cases none
      · obtain ⟨idents, there, rfl⟩ := List.mem_map.1 member
        obtain ⟨⟨place, _⟩, listed, rfl⟩ := List.mem_map.1 there
        exact .qualified listed last ((owned listed).symm.trans owns)
      · obtain ⟨ident, there, rfl⟩ := List.mem_map.1 member
        obtain ⟨⟨place, _⟩, listed, rfl⟩ := List.mem_map.1 there
        exact .bare listed only
    · intro charge
      cases charge with
      | qualified listed named owns =>
          exact .inl (.inr ⟨_, inColumns listed, named, (owned listed).trans owns⟩)
      | bare listed only =>
          exact .inr ⟨List.mem_map_of_mem (List.mem_map_of_mem listed), _, only, rfl⟩
  · cases charge with
    | qualified listed named owns =>
        exact isParent _ (inColumns listed) _ _ named ((owned listed).trans owns)
    | @bare place ident parent listed only =>
        have member : parent ∈ parents.filter fun node => node.hasColumn (identValue ident) := by
          rw [only]
          exact List.mem_singleton_self parent
        exact ⟨parent, (List.mem_filter.1 member).1, rfl⟩

/-- Where the names of relations are not shared, the columns that a text takes from its parents are
those that its blocks say: a column with a qualifier is charged to what the innermost block around it
that declares the qualifier says, or to the parent of that name. -/
theorem columns_are_charged_in_scope {text : String} {statements : List Grammar.Statement}
    (read : Sql.statementsOf text none = .ok statements)
    (unshared : Unshared (Grammar.View.statements statements))
    (done : textReferences text parents = .ok references) :
    (∀ owner column, column ∈ references.of owner ↔
        Charge (Grammar.View.statements statements) parents owner column) ∧
      ∀ owner column, Charge (Grammar.View.statements statements) parents owner column →
        ∃ parent ∈ parents, parent.name = owner := by
  rw [textReferences, Result.bind_of_ok read] at done
  exact mem_of_documentReferences unshared done

def visits : Node :=
  { name := "visits", kind := .source, columns := [{ name := "day" }, { name := "guest" }] }

def receipts : Node :=
  { name := "receipts", kind := .source, columns := [{ name := "day" }, { name := "paid" }] }

def textOfDays : String :=
  "WITH days AS (SELECT v.day FROM visits AS v) " ++
    "SELECT r.paid FROM receipts AS r JOIN days AS d ON r.day = d.day " ++
      "WHERE EXISTS (SELECT v.guest FROM visits AS v WHERE v.day = r.day)"

/-- An alias in two blocks that stands for one table in both. What is taken from the named query is
charged where it is taken from a table. -/
theorem columns_are_charged_in_scope_days :
    ∃ statements references, Sql.statementsOf textOfDays none = .ok statements ∧
      Unshared (Grammar.View.statements statements) ∧
      textReferences textOfDays [visits, receipts] = .ok references ∧
      references = [("receipts", ["day", "paid"]), ("visits", ["day", "guest"])] ∧
      Charge (Grammar.View.statements statements) [visits, receipts] "visits" "guest" ∧
      ¬ Charge (Grammar.View.statements statements) [visits, receipts] "receipts" "guest" := by
  -- Both are decided at once, so that the text is read once.
  have checked : ((Sql.statementsOf textOfDays none).toOption.map fun statements =>
      decide (Unshared (Grammar.View.statements statements) ∧
        (documentReferences (Grammar.View.statements statements) [visits, receipts]).toOption =
          some [("receipts", ["day", "paid"]), ("visits", ["day", "guest"])])) = some true := by
    decide +kernel
  obtain ⟨statements, known, held⟩ := Option.map_eq_some_iff.1 checked
  obtain ⟨unshared, charges⟩ := of_decide_eq_true held
  have read := Result.eq_ok_of_toOption known
  have done : textReferences textOfDays [visits, receipts] =
      .ok [("receipts", ["day", "paid"]), ("visits", ["day", "guest"])] := by
    rw [textReferences, Result.bind_of_ok read, Result.eq_ok_of_toOption charges]
  obtain ⟨members, -⟩ := columns_are_charged_in_scope read unshared done
  refine ⟨statements, _, read, unshared, done, rfl, (members _ _).1 (by decide), ?_⟩
  exact fun charge => absurd ((members _ _).2 charge) (by decide)

-- Two derived tables use one alias: guests are charged to receipts, which do not have them.
example : (textReferences ("SELECT t.day, u.paid FROM (SELECT x.day FROM receipts AS x) AS t " ++
    "JOIN (SELECT x.guest FROM visits AS x) AS u ON t.day = u.day") [visits, receipts]).toOption =
      some [("receipts", ["day", "guest"])] := by decide +kernel

end SemanticLayer.Catalog
