import DeployRecipe.Proofs.Environment.Flat

/-!
Trees of groups with values at their leaves. The leaves of a tree are a table in which no name is within another
one, and every such table comes from a tree. A look-up rebuilds the tree: it gives the value of a leaf, and for a
group a mapping of all that is below it.
-/

namespace DeployRecipe

/-- Values under names, in groups. -/
inductive Tree where
  | leaf (value : Value)
  | group (members : List (String × Tree))

namespace Tree

open Table (below Parted rebuild? insertParts)

mutual

/-- The values of the leaves and the names that lead to them. -/
def leaves : Tree → List (List String × Value)
  | leaf value => [([], value)]
  | group members => leavesOf members

def leavesOf : List (String × Tree) → List (List String × Value)
  | [] => []
  | (name, tree) :: rest => (tree.leaves.map fun leaf => (name :: leaf.1, leaf.2)) ++ leavesOf rest

end

/-- The part of a tree that some names lead to. -/
def at? : Tree → List String → Option Tree
  | tree, [] => some tree
  | group members, name :: rest =>
    match Entries.find? members name with
    | some member => member.at? rest
    | none => none
  | leaf _, _ :: _ => none

/-- Every group has members, and they have different names without dots. -/
inductive Proper : Tree → Prop
  | leaf (value : Value) : Proper (leaf value)
  | group {members : List (String × Tree)} (some : members ≠ []) (distinct : (members.map Prod.fst).Nodup)
      (plain : ∀ member ∈ members, DottedName.isDotted member.1 = false)
      (inner : ∀ member ∈ members, member.2.Proper) : Proper (group members)

/-- The value is the one of the leaf, or a mapping that has a key for each member of the group, in any order, with a
value that shows the member. -/
inductive Shows : Tree → Value → Prop
  | leaf (value : Value) : Shows (leaf value) value
  | group {members : List (String × Tree)} {mapping : Mapping}
      (keys : (mapping.map Prod.fst).Perm (members.map fun member => .text member.1))
      (inner : ∀ member ∈ members, ∀ value, mapping.find? member.1 = some value → Shows member.2 value) :
      Shows (group members) (.mapping mapping)

/-- Some members of a group. -/
structure Members (members : List (String × Tree)) : Prop where
  distinct : (members.map Prod.fst).Nodup
  plain : ∀ member ∈ members, DottedName.isDotted member.1 = false
  proper : ∀ member ∈ members, member.2.Proper

theorem Proper.of_members {members : List (String × Tree)} (fit : Members members) (some : members ≠ []) :
    (Tree.group members).Proper :=
  .group some fit.distinct fit.plain fit.proper

theorem Proper.members {members : List (String × Tree)} (proper : (Tree.group members).Proper) :
    members ≠ [] ∧ Members members := by
  cases proper with
  | group some distinct plain inner => exact ⟨some, distinct, plain, inner⟩

theorem leavesOf_append (members others : List (String × Tree)) :
    leavesOf (members ++ others) = leavesOf members ++ leavesOf others := by
  induction members with
  | nil => rfl
  | cons member rest inductionHypothesis =>
    obtain ⟨name, tree⟩ := member
    rw [List.cons_append, leavesOf, leavesOf, inductionHypothesis, List.append_assoc]

theorem mem_leavesOf {members : List (String × Tree)} {path : List String} {value : Value} :
    (path, value) ∈ leavesOf members ↔
      ∃ member ∈ members, ∃ rest, path = member.1 :: rest ∧ (rest, value) ∈ member.2.leaves := by
  induction members with
  | nil => simp [leavesOf]
  | cons member rest inductionHypothesis =>
    obtain ⟨name, tree⟩ := member
    simp only [leavesOf, List.mem_append, inductionHypothesis, List.mem_cons, exists_eq_or_imp, List.mem_map,
      Prod.mk.injEq, Prod.exists]
    constructor
    · rintro (⟨path, value, there, rfl, rfl⟩ | further)
      · exact Or.inl ⟨path, rfl, there⟩
      · exact Or.inr further
    · rintro (⟨path, rfl, there⟩ | further)
      · exact Or.inl ⟨path, value, there, rfl, rfl⟩
      · exact Or.inr further

theorem Proper.leaves_ne_nil {tree : Tree} (proper : tree.Proper) : tree.leaves ≠ [] := by
  induction proper with
  | leaf value => simp [leaves]
  | group some distinct plain inner inductionHypothesis =>
    rename_i members
    obtain ⟨⟨name, member⟩, rest, rfl⟩ := List.exists_cons_of_ne_nil some
    have first := inductionHypothesis _ List.mem_cons_self
    simp [leaves, leavesOf, first]

theorem parted_leavesOf {members : List (String × Tree)} (distinct : (members.map Prod.fst).Nodup)
    (inner : ∀ member ∈ members, Parted member.2.leaves) : Parted (leavesOf members) := by
  induction members with
  | nil => exact List.Pairwise.nil
  | cons member rest inductionHypothesis =>
    obtain ⟨name, tree⟩ := member
    obtain ⟨new, others⟩ := List.nodup_cons.mp distinct
    rw [leavesOf]
    refine List.pairwise_append.mpr ⟨?_, inductionHypothesis others fun member there => inner member
      (List.mem_cons_of_mem _ there), ?_⟩
    · refine List.pairwise_map.mpr ((inner _ List.mem_cons_self).imp fun {one other} apart => ?_)
      simpa only [List.cons_prefix_cons, true_and] using apart
    · rintro one member ⟨path, value⟩ later
      obtain ⟨leaf, _, rfl⟩ := List.mem_map.mp member
      obtain ⟨⟨other, _⟩, known, more, rfl, _⟩ := mem_leavesOf.mp later
      have differs : name ≠ other := by
        rintro rfl
        exact new (List.mem_map.mpr ⟨_, known, rfl⟩)
      simp [List.cons_prefix_cons, differs, differs.symm]

/-- No leaf of a tree is inside another one. -/
theorem Proper.parted {tree : Tree} (proper : tree.Proper) : Parted tree.leaves := by
  induction proper with
  | leaf value => exact List.pairwise_singleton _ _
  | group some distinct plain inner inductionHypothesis => exact parted_leavesOf distinct inductionHypothesis

theorem below_leavesOf {members : List (String × Tree)} (distinct : (members.map Prod.fst).Nodup) (name : String) :
    below [name] (leavesOf members) = ((Entries.find? members name).map leaves).getD [] := by
  induction members with
  | nil => rfl
  | cons member rest inductionHypothesis =>
    obtain ⟨first, tree⟩ := member
    obtain ⟨new, others⟩ := List.nodup_cons.mp distinct
    rw [leavesOf, below, List.filterMap_append, ← below, ← below, inductionHypothesis others, below,
      List.filterMap_map, Entries.find?]
    by_cases same : first = name
    · subst same
      have absent : Entries.find? rest first = none := (Entries.find?_eq_none_iff_not_mem_keys rest first).mpr new
      simp [absent, List.isPrefixOf?]
    · simp [same, Ne.symm same, List.isPrefixOf?]

/-- The leaves below a part of a tree are those of the part. -/
theorem Proper.below_at {tree node : Tree} (proper : tree.Proper) {path : List String}
    (found : tree.at? path = some node) :
    Table.below path tree.leaves = node.leaves ∧ node.Proper ∧
      ∀ segment ∈ path, DottedName.isDotted segment = false := by
  induction path generalizing tree with
  | nil =>
    obtain rfl : tree = node := by simpa [at?] using found
    exact ⟨Table.below_nil _, proper, List.forall_mem_nil _⟩
  | cons name rest inductionHypothesis =>
    cases proper with
    | leaf value => cases found
    | group some distinct plain inner =>
      rename_i members
      rw [at?] at found
      split at found
      · rename_i member there
        have known := Entries.mem_of_find? there
        obtain ⟨leaves, proper, free⟩ := inductionHypothesis (inner _ known) found
        refine ⟨?_, proper, List.forall_mem_cons.mpr ⟨plain _ known, free⟩⟩
        rw [Tree.leaves, ← List.singleton_append, ← Table.below_below, below_leavesOf distinct, there]
        exact leaves
      · cases found

/-- What is made up of paths has different texts as keys. -/
theorem insertParts_keys (parts : List (List String × Value)) :
    ∃ table : Table, insertParts [] parts = Mapping.ofValue (.ofTable table) ∧ table.keys.Nodup := by
  have steps (table : Table) (distinct : table.keys.Nodup) :
      ∃ more : Table, insertParts (Mapping.ofValue (.ofTable table)) parts = Mapping.ofValue (.ofTable more) ∧
        more.keys.Nodup := by
    induction parts generalizing table with
    | nil => exact ⟨table, rfl, distinct⟩
    | cons part rest inductionHypothesis =>
      obtain ⟨path, value⟩ := part
      cases path with
      | nil => exact inductionHypothesis table distinct
      | cons name more =>
        rw [insertParts, List.foldl_cons, Mapping.insertPath_cons, Mapping.insert_ofTable]
        refine inductionHypothesis _ ?_
        rw [Entries.keys_insert]
        split
        · exact distinct
        · rename_i new
          exact List.nodup_append.mpr ⟨distinct, List.nodup_singleton _, by
            rintro other member _ last rfl
            exact new (List.mem_singleton.mp last ▸ member)⟩
  exact steps [] List.nodup_nil

/-- What the leaves of a tree make up, in any order, shows the tree. -/
theorem Proper.rebuild? {tree : Tree} (proper : tree.Proper) {parts : List (List String × Value)}
    (perm : parts.Perm tree.leaves) : ∃ value, Table.rebuild? parts = some value ∧ tree.Shows value := by
  induction proper generalizing parts with
  | leaf value =>
    obtain rfl := List.perm_singleton.mp perm
    exact ⟨value, rfl, .leaf value⟩
  | group some distinct plain inner inductionHypothesis =>
    rename_i members
    have proper : (Tree.group members).Proper := .group some distinct plain inner
    have under (name : String) : (Table.below [name] parts).Perm (((Entries.find? members name).map leaves).getD []) :=
      below_leavesOf distinct name ▸ Table.below_perm perm [name]
    have found (member : String × Tree) (there : member ∈ members) :
        ∃ value, (insertParts [] parts).find? member.1 = Option.some value ∧ member.2.Shows value := by
      have here := under member.1
      rw [Entries.find?_of_mem distinct there] at here
      rw [Table.find?_insertParts_nil]
      exact inductionHypothesis member there here
    have whole : Table.rebuild? parts = Option.some (.mapping (insertParts [] parts)) := by
      have nonempty : parts ≠ [] := fun none => proper.leaves_ne_nil (List.nil_perm.mp (none ▸ perm))
      rw [Table.rebuild?_of_paths, if_neg (by simpa using nonempty)]
      rintro ⟨path, value⟩ member
      obtain ⟨_, _, rest, rfl, _⟩ := mem_leavesOf.mp (perm.mem_iff.mp member)
      exact List.cons_ne_nil _ _
    refine ⟨_, whole, .group ?_ fun member there value held => ?_⟩
    · obtain ⟨table, same, nodup⟩ := insertParts_keys parts
      have names : table.keys.Perm (members.map Prod.fst) := by
        refine (List.perm_ext_iff_of_nodup nodup distinct).mpr fun name => ?_
        have known : name ∈ table.keys ↔ (insertParts [] parts).find? name ≠ none := by
          rw [same, Mapping.find?_ofTable, Ne, Entries.find?_eq_none_iff_not_mem_keys, not_not]
        rw [known]
        constructor
        · intro held
          by_contra absent
          have here := under name
          rw [(Entries.find?_eq_none_iff_not_mem_keys members name).mpr absent] at here
          rw [Table.find?_insertParts_nil, List.perm_nil.mp here] at held
          exact held rfl
        · intro member
          obtain ⟨⟨_, tree⟩, there, rfl⟩ := List.mem_map.mp member
          obtain ⟨value, held, _⟩ := found _ there
          rw [held]
          exact Option.some_ne_none _
      have texts := names.map Value.text
      rw [Entries.keys, List.map_map, List.map_map] at texts
      rw [same, Value.ofTable, Mapping.ofValue, List.map_map]
      exact texts
    · obtain ⟨other, there, shows⟩ := found member there
      rw [held, Option.some.injEq] at there
      exact there ▸ shows

/-- A member of a group gives way to another tree. -/
theorem Members.replace {before after : List (String × Tree)} {name : String} {tree other : Tree}
    (fit : Members (before ++ (name, tree) :: after)) (proper : other.Proper) :
    Members (before ++ (name, other) :: after) := by
  obtain ⟨distinct, plain, inner⟩ := fit
  simp only [List.forall_mem_append, List.forall_mem_cons] at plain inner
  refine ⟨by simpa using distinct, ?_, ?_⟩
  · simp only [List.forall_mem_append, List.forall_mem_cons]
    exact plain
  · simp only [List.forall_mem_append, List.forall_mem_cons]
    exact ⟨inner.1, proper, inner.2.2⟩

/-- A leaf can be added where no leaf is on the way to it and it is on the way to none. -/
theorem Members.insert {path : List String} (some : path ≠ [])
    (plain : ∀ segment ∈ path, DottedName.isDotted segment = false) (value : Value) {members : List (String × Tree)}
    (fit : Members members) (aside : ∀ leaf ∈ leavesOf members, ¬ leaf.1 <+: path ∧ ¬ path <+: leaf.1) :
    ∃ more, Members more ∧ ((path, value) :: leavesOf members).Perm (leavesOf more) := by
  induction path generalizing members with
  | nil => exact absurd rfl some
  | cons name rest inductionHypothesis =>
    obtain ⟨free, others⟩ := List.forall_mem_cons.mp plain
    by_cases there : name ∈ members.map Prod.fst
    · obtain ⟨⟨first, tree⟩, member, rfl⟩ := List.mem_map.mp there
      obtain ⟨before, after, rfl⟩ := List.append_of_mem member
      have lead (leaf : List String × Value) (inner : leaf ∈ tree.leaves) : ¬ leaf.1 <+: rest ∧ ¬ rest <+: leaf.1 := by
        have apart := aside (_, leaf.2) (mem_leavesOf.mpr ⟨_, member, leaf.1, rfl, inner⟩)
        simpa only [List.cons_prefix_cons, true_and] using apart
      cases tree with
      | leaf old => exact absurd List.nil_prefix (lead ([], old) (by simp [leaves])).1
      | group inner =>
        have proper := fit.proper _ member
        have longer : rest ≠ [] := by
          rintro rfl
          obtain ⟨leaf, known⟩ := List.exists_mem_of_ne_nil _ proper.leaves_ne_nil
          exact (lead leaf known).2 List.nil_prefix
        obtain ⟨more, fit', perm⟩ := inductionHypothesis longer others proper.members.2 lead
        have some' : more ≠ [] := by
          rintro rfl
          exact absurd perm.length_eq (by simp [leavesOf])
        refine ⟨_, fit.replace (.of_members fit' some'), ?_⟩
        have replaced := perm.map fun leaf => (first :: leaf.1, leaf.2)
        simp only [leavesOf_append, leavesOf, leaves]
        exact (List.perm_middle.symm).trans (((replaced.append_right _)).append_left _)
    · have chain : ∃ tree : Tree, tree.Proper ∧ tree.leaves = [(rest, value)] := by
        by_cases last : rest = []
        · exact ⟨.leaf value, .leaf value, by rw [last, leaves]⟩
        · have none : Members [] := ⟨List.nodup_nil, List.forall_mem_nil _, List.forall_mem_nil _⟩
          obtain ⟨more, fit', perm⟩ := inductionHypothesis last others none (List.forall_mem_nil _)
          have only : leavesOf more = [(rest, value)] := List.perm_singleton.mp perm.symm
          refine ⟨.group more, .of_members fit' ?_, only⟩
          rintro rfl
          cases only
      obtain ⟨tree, proper, leaves⟩ := chain
      refine ⟨(name, tree) :: members, ⟨List.nodup_cons.mpr ⟨there, fit.distinct⟩,
        List.forall_mem_cons.mpr ⟨free, fit.plain⟩, List.forall_mem_cons.mpr ⟨proper, fit.proper⟩⟩, ?_⟩
      rw [leavesOf, leaves]
      exact .refl _

/-- Paths of which none leads to another one are the leaves of a tree. -/
theorem exists_members {parts : List (List String × Value)} (parted : Parted parts)
    (named : ∀ part ∈ parts, part.1 ≠ [] ∧ ∀ segment ∈ part.1, DottedName.isDotted segment = false) :
    ∃ members, Members members ∧ parts.Perm (leavesOf members) := by
  induction parts with
  | nil => exact ⟨[], ⟨List.nodup_nil, List.forall_mem_nil _, List.forall_mem_nil _⟩, .refl _⟩
  | cons part rest inductionHypothesis =>
    obtain ⟨⟨some, plain⟩, others⟩ := List.forall_mem_cons.mp named
    obtain ⟨first, later⟩ := List.pairwise_cons.mp parted
    obtain ⟨members, fit, perm⟩ := inductionHypothesis later others
    obtain ⟨more, fit', perm'⟩ := fit.insert some plain part.2 fun leaf member =>
      (first leaf (perm.mem_iff.mpr member)).symm
    exact ⟨more, fit', (perm.cons part).trans perm'⟩

end Tree

namespace Table

open DottedName (segments ofSegments within isWithin)

/-- The names of a table with its values are the leaves of a tree. -/
def Holds (table : Table) (tree : Tree) : Prop :=
  table.paths.Perm tree.leaves

/-- Every part of the tree is looked up under the names that lead to it: a leaf by its value, a group as a mapping of
all that it holds. -/
def Answers (table : Table) (tree : Tree) : Prop :=
  ∀ path node, path ≠ [] → tree.at? path = some node →
    ∃ value, table.lookup? (ofSegments path) = some value ∧ node.Shows value

variable {table : Table} {tree : Tree}

theorem Holds.flat (holds : table.Holds tree) (proper : tree.Proper) : table.Flat :=
  (flat_iff table).mpr (proper.parted.perm holds.symm)

/-- A table in which no name is within another one is the table of a tree. -/
theorem Flat.exists_tree (flat : table.Flat) (some : table ≠ []) : ∃ tree : Tree, tree.Proper ∧ table.Holds tree := by
  have named : ∀ part ∈ table.paths, part.1 ≠ [] ∧ ∀ segment ∈ part.1, DottedName.isDotted segment = false := by
    intro part member
    obtain ⟨entry, _, rfl⟩ := List.mem_map.mp member
    refine ⟨DottedName.segments_ne_nil _, fun segment inside => ?_⟩
    simpa [DottedName.isDotted] using DottedName.not_mem_of_mem_segments inside
  obtain ⟨members, fit, perm⟩ := Tree.exists_members ((flat_iff table).mp flat) named
  refine ⟨.group members, .of_members fit ?_, perm⟩
  rintro rfl
  exact some (List.map_eq_nil_iff.mp (List.perm_nil.mp perm))

/-- The table of a tree answers with the parts of the tree. -/
theorem Holds.answers (holds : table.Holds tree) (proper : tree.Proper) : table.Answers tree := by
  intro path node some found
  have flat := holds.flat proper
  obtain ⟨leaves, proper', plain⟩ := proper.below_at found
  have names : segments (ofSegments path) = path := DottedName.segments_ofSegments path some fun segment member => by
    simpa [DottedName.isDotted] using plain segment member
  have free : ∀ name ∈ table.keys, isWithin (ofSegments path) name = false := by
    intro name known
    by_contra inside
    obtain ⟨inner, within⟩ := (DottedName.isWithin_iff _ _).mp (by simpa using inside)
    have split : path = segments name ++ segments inner := by
      rw [← DottedName.segments_within, ← within, names]
    obtain ⟨⟨_, value⟩, member, rfl⟩ := List.mem_map.mp known
    obtain ⟨⟨rest, other⟩, leaf⟩ := List.exists_mem_of_ne_nil _ proper'.leaves_ne_nil
    rw [← leaves, mem_below] at leaf
    have upper := holds.mem_iff.mp (mem_paths.mpr member)
    have same := proper.parted.eq upper leaf ⟨segments inner ++ rest, by rw [split, List.append_assoc]⟩
    have lengths := congrArg (fun part => part.1.length) same
    have positive := List.length_pos_iff.mpr (DottedName.segments_ne_nil inner)
    simp only [split, List.length_append] at lengths
    omega
  have perm := below_perm holds path
  rw [leaves] at perm
  obtain ⟨value, whole, shows⟩ := proper'.rebuild? perm
  refine ⟨value, ?_, shows⟩
  rw [flat.lookup?_eq_rebuild? free, names, whole]

end Table

end DeployRecipe
