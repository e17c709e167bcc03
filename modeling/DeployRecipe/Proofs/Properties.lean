import DeployRecipe.Properties
import DeployRecipe.Proofs.Environment.Tree
import DeployRecipe.Proofs.Value

/-!
Trees that are written as properties files. Groups and dotted names may be mixed, and a group may be opened again:
the file defines the leaves in the order in which they are written, and look-ups rebuild the tree.
-/

namespace DeployRecipe

namespace Expression

mutual

/-- The value of an expression that refers to nothing. -/
def literal? : Expression → Option Value
  | .null => some .null
  | .bool value => some (.bool value)
  | .int value => some (.int value)
  | .float value => some (.float value)
  | .text value => some (.text value)
  | .list items => (literalItems? items).map .sequence
  | .map entries => (literalEntries? [] entries).map .mapping
  | .interpolated _ | .reference _ | .block _ _ _ | .load _ => none

def literalItems? : List Expression → Option (List Value)
  | [] => some []
  | first :: rest =>
    match first.literal?, literalItems? rest with
    | some value, some others => some (value :: others)
    | _, _ => none

/-- Adds entries to a mapping; a later entry replaces an earlier one of the same key. -/
def literalEntries? (mapping : Mapping) : List (String × Expression) → Option Mapping
  | [] => some mapping
  | (key, item) :: rest =>
    match item.literal? with
    | some value => literalEntries? (mapping.insert key value) rest
    | none => none

end

end Expression

namespace Properties

open DottedName (segments ofSegments within)

mutual

theorem evaluate_literal (visible : Table) {expression : Expression} {value : Value}
    (literal : expression.literal? = some value) : evaluate visible expression = .ok value := by
  cases expression with
  | null | bool | int | float | text =>
    cases literal
    rfl
  | list items =>
    rw [Expression.literal?, Option.map_eq_some_iff] at literal
    obtain ⟨values, known, rfl⟩ := literal
    rw [evaluate, evaluateItems_literal visible known]
    rfl
  | map entries =>
    rw [Expression.literal?, Option.map_eq_some_iff] at literal
    obtain ⟨mapping, known, rfl⟩ := literal
    rw [evaluate, evaluateEntries_literal visible known]
    rfl
  | interpolated | reference | block | load => cases literal

theorem evaluateItems_literal (visible : Table) {items : List Expression} {values : List Value}
    (literal : Expression.literalItems? items = some values) : evaluateItems visible items = .ok values := by
  cases items with
  | nil =>
    cases literal
    rfl
  | cons first rest =>
    rw [Expression.literalItems?] at literal
    split at literal
    · rename_i value others one more
      cases literal
      rw [evaluateItems, evaluate_literal visible one, evaluateItems_literal visible more]
      rfl
    · cases literal

theorem evaluateEntries_literal (visible : Table) {mapping more : Mapping} {entries : List (String × Expression)}
    (literal : Expression.literalEntries? mapping entries = some more) :
    evaluateEntries visible mapping entries = .ok more := by
  cases entries with
  | nil =>
    cases literal
    rfl
  | cons entry rest =>
    obtain ⟨key, item⟩ := entry
    rw [Expression.literalEntries?] at literal
    split at literal
    · rename_i value known
      rw [evaluateEntries, evaluate_literal visible known]
      exact evaluateEntries_literal visible literal
    · cases literal

end

mutual

/-- The paths that declarations inside a group give values to, with these values, in the order in which they stand.
Every value has to refer to nothing. -/
def leaves? (group : List String) : List Declaration → Option (List (List String × Value))
  | [] => some []
  | first :: rest =>
    match leavesOne? group first, leaves? group rest with
    | some leaves, some others => some (leaves ++ others)
    | _, _ => none

def leavesOne? (group : List String) : Declaration → Option (List (List String × Value))
  | .mk name _ body => if name = "" then none else leavesBody? (group ++ segments name) body

def leavesBody? (path : List String) : Body → Option (List (List String × Value))
  | .block inner => leaves? path inner
  | .assignment expression | .arguments [expression] => expression.literal?.map fun value => [(path, value)]
  | .arguments _ => none

end

/-- The paths as dotted names. -/
def entriesOf (leaves : List (List String × Value)) : Table :=
  leaves.map fun leaf => (ofSegments leaf.1, leaf.2)

theorem qualified_ofSegments {group : List String} {name : String} (opened : group = [] ∨ ofSegments group ≠ "")
    (named : name ≠ "") :
    qualified (ofSegments group) name = ofSegments (group ++ segments name) ∧
      ofSegments (group ++ segments name) ≠ "" := by
  by_cases outside : group = []
  · subst outside
    have empty : ofSegments [] = "" := rfl
    rw [qualified, if_pos empty, List.nil_append, DottedName.ofSegments_segments]
    exact ⟨rfl, named⟩
  · have inside : ofSegments (group ++ segments name) = within (ofSegments group) name := by
      rw [DottedName.ofSegments_append _ _ outside (DottedName.segments_ne_nil name), DottedName.ofSegments_segments]
    rw [qualified, if_neg (opened.resolve_left outside), inside]
    refine ⟨rfl, fun none => ?_⟩
    have characters := congrArg String.toList none
    simp [DottedName.toList_within] at characters

/-- Defining names one after the other. -/
def Tables.defineAll (tables : Tables) (entries : Table) : Tables :=
  ⟨tables.visible.overwriteAll entries, tables.defined.overwriteAll entries⟩

mutual

/-- Declarations define the paths that they give values to. -/
theorem flatten_leaves {group : List String} {declarations : List Declaration} {leaves : List (List String × Value)}
    (written : leaves? group declarations = some leaves) (opened : group = [] ∨ ofSegments group ≠ "")
    (tables : Tables) :
    flatten (ofSegments group) declarations tables = .ok (tables.defineAll (entriesOf leaves)) := by
  cases declarations with
  | nil =>
    cases written
    rfl
  | cons first rest =>
    rw [leaves?] at written
    split at written
    · rename_i one others firstWritten restWritten
      cases written
      rw [flatten, flattenOne_leaves firstWritten opened]
      refine (flatten_leaves restWritten opened _).trans ?_
      simp [Tables.defineAll, entriesOf, Table.overwriteAll_append]
    · cases written

theorem flattenOne_leaves {group : List String} {declaration : Declaration} {leaves : List (List String × Value)}
    (written : leavesOne? group declaration = some leaves) (opened : group = [] ∨ ofSegments group ≠ "")
    (tables : Tables) :
    flattenOne (ofSegments group) declaration tables = .ok (tables.defineAll (entriesOf leaves)) := by
  cases declaration with
  | mk name line body =>
    rw [leavesOne?] at written
    split at written
    · cases written
    · rename_i named
      obtain ⟨key, further⟩ := qualified_ofSegments opened named
      rw [flattenOne, key, flattenBody_leaves written further]

theorem flattenBody_leaves {path : List String} {line : Nat} {body : Body} {leaves : List (List String × Value)}
    (written : leavesBody? path body = some leaves) (named : ofSegments path ≠ "") (tables : Tables) :
    flattenBody (ofSegments path) line body tables = .ok (tables.defineAll (entriesOf leaves)) := by
  cases body with
  | block inner => exact flatten_leaves written (Or.inr named) tables
  | assignment expression =>
    obtain ⟨value, literal, rfl⟩ := Option.map_eq_some_iff.mp written
    rw [flattenBody, evaluate_literal _ literal]
    rfl
  | arguments values =>
    rcases values with _ | ⟨expression, _ | _⟩
    · cases written
    · obtain ⟨value, literal, rfl⟩ := Option.map_eq_some_iff.mp written
      rw [flattenBody, evaluate_literal _ literal]
      rfl
    · cases written

end

/-- The path can be told from its dotted name. -/
def IsNamed (leaf : List String × Value) : Prop :=
  leaf.1 ≠ [] ∧ ∀ segment ∈ leaf.1, '.' ∉ segment.toList

mutual

theorem leaves_named {group : List String} {declarations : List Declaration} {leaves : List (List String × Value)}
    (written : leaves? group declarations = some leaves) (plain : ∀ segment ∈ group, '.' ∉ segment.toList) :
    ∀ leaf ∈ leaves, IsNamed leaf := by
  cases declarations with
  | nil =>
    cases written
    exact List.forall_mem_nil _
  | cons first rest =>
    rw [leaves?] at written
    split at written
    · rename_i one others firstWritten restWritten
      cases written
      exact List.forall_mem_append.mpr ⟨leavesOne_named firstWritten plain, leaves_named restWritten plain⟩
    · cases written

theorem leavesOne_named {group : List String} {declaration : Declaration} {leaves : List (List String × Value)}
    (written : leavesOne? group declaration = some leaves) (plain : ∀ segment ∈ group, '.' ∉ segment.toList) :
    ∀ leaf ∈ leaves, IsNamed leaf := by
  cases declaration with
  | mk name line body =>
    rw [leavesOne?] at written
    split at written
    · cases written
    · refine leavesBody_named written ⟨by simp [DottedName.segments_ne_nil], fun segment member => ?_⟩
      rcases List.mem_append.mp member with before | after
      · exact plain segment before
      · exact DottedName.not_mem_of_mem_segments after

theorem leavesBody_named {path : List String} {body : Body} {leaves : List (List String × Value)}
    (written : leavesBody? path body = some leaves) (named : path ≠ [] ∧ ∀ segment ∈ path, '.' ∉ segment.toList) :
    ∀ leaf ∈ leaves, IsNamed leaf := by
  cases body with
  | block inner => exact leaves_named written named.2
  | assignment expression =>
    obtain ⟨value, _, rfl⟩ := Option.map_eq_some_iff.mp written
    exact List.forall_mem_singleton.mpr named
  | arguments values =>
    rcases values with _ | ⟨expression, _ | _⟩
    · cases written
    · obtain ⟨value, _, rfl⟩ := Option.map_eq_some_iff.mp written
      exact List.forall_mem_singleton.mpr named
    · cases written

end

theorem paths_entriesOf {leaves : List (List String × Value)}
    (named : ∀ leaf ∈ leaves, IsNamed leaf) : (entriesOf leaves).paths = leaves := by
  rw [Table.paths, entriesOf, List.map_map]
  refine (List.map_congr_left fun leaf member => ?_).trans (List.map_id leaves)
  obtain ⟨some, free⟩ := named leaf member
  simp [DottedName.segments_ofSegments leaf.1 some free]

/-- Names that are apart from each other and from all names of a table come after these. -/
theorem overwriteAll_of_flat {table entries : Table} (flat : Table.Flat (table ++ entries)) :
    table.overwriteAll entries = table ++ entries := by
  induction entries generalizing table with
  | nil => rw [Table.overwriteAll_nil, List.append_nil]
  | cons entry rest inductionHypothesis =>
    have split : table ++ entry :: rest = (table ++ [entry]) ++ rest := by simp
    have aside : ∀ name ∈ table.keys, DottedName.Apart name entry.1 := by
      intro name member
      rw [Table.Flat, Entries.keys, List.map_append, List.pairwise_append] at flat
      exact flat.2.2 name member entry.1 (by simp)
    have kept : table.without entry.1 = table :=
      List.filter_eq_self.mpr fun old member => by simp [(aside old.1 (List.mem_map_of_mem member)).outside]
    have new : entry.1 ∉ table.keys := fun member => (aside _ member).differs rfl
    rw [Table.overwriteAll_cons, Table.overwrite_eq, kept, Entries.insert_of_not_mem new, split]
    exact inductionHypothesis (split ▸ flat)

/-- A text that writes a tree, in any mixture of groups and dotted names and with the leaves in any order, defines the
leaves in the order in which they are written, and the tree is looked up again. In every table in which no name is
within another one, which is the table of a tree, each part of the tree is looked up by the names that lead to it, and
a mapping that is looked up has under each key without a dot what is looked up one segment further. -/
theorem parse_rebuilds :
    (∀ (tree : Tree) (declarations : List Declaration) (leaves : List (List String × Value)) (text : String)
        (path : Path) (lower : Table),
      tree.Proper → Recipe.readDeclarations text = .ok declarations → leaves? [] declarations = some leaves →
        leaves.Perm tree.leaves →
          parse text path lower = .ok (entriesOf leaves) ∧ (entriesOf leaves).Flat ∧ (entriesOf leaves).Answers tree) ∧
    ∀ table : Table, table.Flat →
      (table ≠ [] → ∃ tree : Tree, tree.Proper ∧ table.Holds tree) ∧
      (∀ tree : Tree, tree.Proper → table.Holds tree → table.Answers tree) ∧
      ∀ (key name : String) (mapping : Mapping), table.lookup? key = some (.mapping mapping) →
        DottedName.isDotted name = false → table.lookup? (within key name) = mapping.find? name := by
  refine ⟨fun tree declarations leaves text path lower proper reads written perm => ?_, fun table flat =>
    ⟨flat.exists_tree, fun tree proper holds => holds.answers proper, fun key name mapping found plain =>
      flat.lookup?_segment found plain⟩⟩
  have holds : (entriesOf leaves).Holds tree := by
    rw [Table.Holds, paths_entriesOf (leaves_named written (List.forall_mem_nil _))]
    exact perm
  have flat := holds.flat proper
  have defined : flatten "" declarations ⟨lower, []⟩ = .ok (Tables.defineAll ⟨lower, []⟩ (entriesOf leaves)) :=
    flatten_leaves written (Or.inl rfl) _
  have whole : Table.overwriteAll [] (entriesOf leaves) = entriesOf leaves := overwriteAll_of_flat flat
  refine ⟨?_, flat, holds.answers proper⟩
  simp only [parse, reads, defined, Tables.defineAll, whole]

/-- A group with a leaf and with a group of two more leaves. -/
def samplePart : Tree :=
  .group [("host", .leaf (.text "h")),
    ("pool", .group [("size", .leaf (.sequence [.int 1, .int 2])), ("more", .leaf (.mapping [(.text "a.b", .null)]))])]

def sampleTree : Tree :=
  .group [("db", samplePart), ("port", .leaf (.int 80))]

theorem sampleTree_proper : sampleTree.Proper := by
  have pool : (Tree.group [("size", .leaf (.sequence [.int 1, .int 2])),
      ("more", .leaf (.mapping [(.text "a.b", .null)]))]).Proper :=
    .group (List.cons_ne_nil _ _) (by decide) (by decide)
      (List.forall_mem_cons.mpr ⟨.leaf _, List.forall_mem_singleton.mpr (.leaf _)⟩)
  have part : samplePart.Proper :=
    .group (List.cons_ne_nil _ _) (by decide) (by decide)
      (List.forall_mem_cons.mpr ⟨.leaf _, List.forall_mem_singleton.mpr pool⟩)
  exact .group (List.cons_ne_nil _ _) (by decide) (by decide)
    (List.forall_mem_cons.mpr ⟨part, List.forall_mem_singleton.mpr (.leaf _)⟩)

/-- The tree with its inner group in two parts: under a dotted name, and opened again after another leaf. -/
def sampleText : String :=
  "db \x7b\n  host = \"h\"\n  pool.size [1, 2]\n\x7d\nport 80\ndb.pool \x7b more = [\"a.b\": null] \x7d\n"

def sampleLeaves : List (List String × Value) :=
  [(["db", "host"], .text "h"), (["db", "pool", "size"], .sequence [.int 1, .int 2]), (["port"], .int 80),
    (["db", "pool", "more"], .mapping [(.text "a.b", .null)])]

theorem read_sample : ∃ declarations, Recipe.readDeclarations sampleText = .ok declarations ∧
    leaves? [] declarations = some sampleLeaves := by
  have computed : (match Recipe.readDeclarations sampleText with
      | .ok declarations => leaves? [] declarations
      | .error _ => none) = some sampleLeaves := by decide +kernel
  cases read : Recipe.readDeclarations sampleText with
  | ok declarations => exact ⟨declarations, rfl, by rwa [read] at computed⟩
  | error error =>
    rw [read] at computed
    cases computed

theorem parse_rebuilds_sample :
    parse sampleText ⟨"/r/app.properties"⟩ [("db.host", .null)] = .ok (entriesOf sampleLeaves) ∧
      (∃ value, (entriesOf sampleLeaves).lookup? "db" = some value ∧ samplePart.Shows value) ∧
      (∃ tree : Tree, tree.Proper ∧ (entriesOf sampleLeaves).Holds tree ∧ (entriesOf sampleLeaves).Answers tree) ∧
      (entriesOf sampleLeaves).lookup? (within "db.pool" "size") = some (.sequence [.int 1, .int 2]) := by
  obtain ⟨declarations, reads, written⟩ := read_sample
  have perm : sampleLeaves.Perm sampleTree.leaves := .cons _ (.cons _ (.swap _ _ _))
  obtain ⟨parsed, flat, answers⟩ := parse_rebuilds.1 sampleTree declarations sampleLeaves sampleText
    ⟨"/r/app.properties"⟩ [("db.host", .null)] sampleTree_proper reads written perm
  obtain ⟨exists_tree, tables, mappings⟩ := parse_rebuilds.2 (entriesOf sampleLeaves) flat
  obtain ⟨tree, proper, holds⟩ := exists_tree (List.cons_ne_nil _ _)
  refine ⟨parsed, answers ["db"] samplePart (List.cons_ne_nil _ _) rfl,
    ⟨tree, proper, holds, tables tree proper holds⟩, ?_⟩
  have pool : (entriesOf sampleLeaves).lookup? "db.pool" = some (.mapping
      [(.text "size", .sequence [.int 1, .int 2]), (.text "more", .mapping [(.text "a.b", .null)])]) := by
    decide +kernel
  exact mappings "db.pool" "size" _ pool (by decide)

end Properties

end DeployRecipe
