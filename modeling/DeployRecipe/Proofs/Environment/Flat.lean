import DeployRecipe.Proofs.Environment.Order
import DeployRecipe.Proofs.Environment.Replacement

/-!
Tables in which no name is within another one. The names of such a table are the leaves of a tree. What is looked up
at any other name is inside the value of a leaf, or it is made up of all leaves below the name; and a mapping that
is looked up has under each key what is looked up one segment further.
-/

namespace DeployRecipe

theorem Mapping.descend?_append {mapping inner : Mapping} {path rest : List String}
    (found : mapping.descend? path = some (.mapping inner)) (more : rest ≠ []) :
    mapping.descend? (path ++ rest) = inner.descend? rest := by
  induction path generalizing mapping with
  | nil => cases found
  | cons key others inductionHypothesis =>
    obtain ⟨next, last, same⟩ := List.exists_cons_of_ne_nil (by simp [more] : others ++ rest ≠ [])
    rw [List.cons_append, same, descend?, ← same]
    · cases others with
      | nil =>
        rw [descend?] at found
        rw [found]
        rfl
      | cons second third =>
        rw [descend?] at found
        · split at found
          · exact inductionHypothesis found
          · cases found
        · simp
    · simp

namespace Table

open DottedName (isWithin segments within Apart)

/-- The paths that go on from a path, with what follows it, and their values. -/
def below (path : List String) (parts : List (List String × Value)) : List (List String × Value) :=
  parts.filterMap fun part => (path.isPrefixOf? part.1).map fun rest => (rest, part.2)

theorem mem_below {path rest : List String} {parts : List (List String × Value)} {value : Value} :
    (rest, value) ∈ below path parts ↔ (path ++ rest, value) ∈ parts := by
  simp only [below, List.mem_filterMap, Option.map_eq_some_iff, List.isPrefixOf?_eq_some_iff_append_eq]
  constructor
  · rintro ⟨⟨_, _⟩, member, rest, rfl, same⟩
    cases same
    exact member
  · exact fun member => ⟨_, member, rest, rfl, rfl⟩

theorem below_nil (parts : List (List String × Value)) : below [] parts = parts := by
  simp [below, List.isPrefixOf?]

theorem below_perm {parts others : List (List String × Value)} (perm : parts.Perm others) (path : List String) :
    (below path parts).Perm (below path others) :=
  perm.filterMap _

theorem isPrefixOf?_append (outer path whole : List String) :
    (outer ++ path).isPrefixOf? whole = (outer.isPrefixOf? whole).bind path.isPrefixOf? := by
  induction outer generalizing whole with
  | nil => rfl
  | cons first rest inductionHypothesis =>
    cases whole with
    | nil => rfl
    | cons other more =>
      simp only [List.cons_append, List.isPrefixOf?]
      split
      · exact inductionHypothesis more
      · rfl

theorem below_below (outer path : List String) (parts : List (List String × Value)) :
    below path (below outer parts) = below (outer ++ path) parts := by
  rw [below, below, below, List.filterMap_filterMap]
  refine List.filterMap_congr fun part _ => ?_
  rw [isPrefixOf?_append]
  cases outer.isPrefixOf? part.1 <;> rfl

/-- No path leads to another one, or to itself again. -/
def Parted (parts : List (List String × Value)) : Prop :=
  parts.Pairwise fun one other => ¬ one.1 <+: other.1 ∧ ¬ other.1 <+: one.1

theorem Parted.perm {parts others : List (List String × Value)} (parted : Parted parts) (perm : parts.Perm others) :
    Parted others :=
  perm.pairwise parted fun apart => apart.symm

theorem Parted.below {parts : List (List String × Value)} (parted : Parted parts) (path : List String) :
    Parted (below path parts) := by
  refine List.Pairwise.filterMap _ ?_ parted
  rintro ⟨one, _⟩ ⟨other, _⟩ ⟨short, long⟩ ⟨rest, _⟩ start ⟨more, _⟩ start'
  simp only [Option.map_eq_some_iff, List.isPrefixOf?_eq_some_iff_append_eq, Prod.mk.injEq] at start start'
  obtain ⟨_, rfl, rfl, rfl⟩ := start
  obtain ⟨_, rfl, rfl, rfl⟩ := start'
  exact ⟨fun leads => short ((List.prefix_append_right_inj _).mpr leads),
    fun leads => long ((List.prefix_append_right_inj _).mpr leads)⟩

/-- Two paths of which one leads to the other are the same entry. -/
theorem Parted.eq {parts : List (List String × Value)} (parted : Parted parts) {one other : List String × Value}
    (member : one ∈ parts) (member' : other ∈ parts) (leads : one.1 <+: other.1) : one = other := by
  by_contra differs
  have symmetric : Std.Symm fun one other : List String × Value => ¬ one.1 <+: other.1 ∧ ¬ other.1 <+: one.1 :=
    ⟨fun _ _ apart => apart.symm⟩
  exact (List.Pairwise.forall parted member member' differs).1 leads

/-- What the values of some paths make up: the value of the empty path, else a mapping. -/
def rebuild? (parts : List (List String × Value)) : Option Value :=
  parts.foldl (fun current part => some (Mapping.within current part.1 part.2)) none

theorem find?_insertParts (mapping : Mapping) (parts : List (List String × Value)) (name : String) :
    (insertParts mapping parts).find? name =
      (below [name] parts).foldl (fun current part => some (Mapping.within current part.1 part.2))
        (mapping.find? name) := by
  induction parts generalizing mapping with
  | nil => rfl
  | cons part rest inductionHypothesis =>
    obtain ⟨path, value⟩ := part
    have step := inductionHypothesis (mapping.insertPath path value)
    rw [insertParts, List.foldl_cons]
    refine step.trans ?_
    cases path with
    | nil => rfl
    | cons key more =>
      rw [Mapping.insertPath_cons, Mapping.find?_insert, below, below, List.filterMap_cons]
      by_cases same : key = name
      · simp [List.isPrefixOf?, same]
      · simp [List.isPrefixOf?, same, Ne.symm same]

theorem find?_insertParts_nil (parts : List (List String × Value)) (name : String) :
    (insertParts [] parts).find? name = rebuild? (below [name] parts) :=
  find?_insertParts [] parts name

theorem rebuild?_of_value {parts : List (List String × Value)} (parted : Parted parts) {value : Value}
    (member : ([], value) ∈ parts) : rebuild? parts = some value := by
  have only : ∀ part ∈ parts, part = ([], value) := fun part there =>
    (parted.eq member there List.nil_prefix).symm
  cases parts with
  | nil => cases member
  | cons first rest =>
    obtain rfl := only first List.mem_cons_self
    cases rest with
    | nil => rfl
    | cons second others =>
      obtain rfl := only second (by simp)
      exact absurd List.nil_prefix ((List.pairwise_cons.mp parted).1 _ List.mem_cons_self).1

theorem rebuild?_of_paths {parts : List (List String × Value)} (some : ∀ part ∈ parts, part.1 ≠ []) :
    rebuild? parts = if parts.isEmpty then none else Option.some (.mapping (insertParts [] parts)) := by
  have further (mapping : Mapping) :
      parts.foldl (fun current part => Option.some (Mapping.within current part.1 part.2))
        (Option.some (.mapping mapping)) = Option.some (.mapping (insertParts mapping parts)) := by
    induction parts generalizing mapping with
    | nil => rfl
    | cons part rest inductionHypothesis =>
      obtain ⟨first, others⟩ := List.forall_mem_cons.mp some
      rw [List.foldl_cons, Mapping.within, if_neg first]
      exact inductionHypothesis others _
  cases parts with
  | nil => rfl
  | cons part rest =>
    have first := some part List.mem_cons_self
    rw [List.isEmpty_cons, if_neg Bool.false_ne_true, ← further [], rebuild?, List.foldl_cons, List.foldl_cons,
      Mapping.within, Mapping.within]
    rfl

/-- The names as paths. -/
def paths (table : Table) : List (List String × Value) :=
  table.map fun entry => (segments entry.1, entry.2)

/-- No name comes twice, and none is within another one. -/
def Flat (table : Table) : Prop :=
  table.keys.Pairwise Apart

theorem apart_iff (one other : String) :
    Apart one other ↔ ¬ segments one <+: segments other ∧ ¬ segments other <+: segments one := by
  constructor
  · rintro ⟨differs, outside, around⟩
    refine ⟨fun leads => ?_, fun leads => ?_⟩
    · rcases DottedName.eq_or_isWithin_of_prefix leads with same | inside
      · exact differs same
      · rw [inside] at around
        cases around
    · rcases DottedName.eq_or_isWithin_of_prefix leads with same | inside
      · exact differs same.symm
      · rw [inside] at outside
        cases outside
  · rintro ⟨short, long⟩
    refine ⟨?_, ?_, ?_⟩
    · rintro rfl
      exact short (List.prefix_refl _)
    · by_contra inside
      obtain ⟨rest, rfl⟩ := (DottedName.isWithin_iff _ _).mp (by simpa using inside)
      rw [DottedName.segments_within] at long
      exact long (List.prefix_append _ _)
    · by_contra inside
      obtain ⟨rest, rfl⟩ := (DottedName.isWithin_iff _ _).mp (by simpa using inside)
      rw [DottedName.segments_within] at short
      exact short (List.prefix_append _ _)

theorem flat_iff (table : Table) : table.Flat ↔ Parted table.paths := by
  rw [Flat, Parted, Entries.keys, paths, List.pairwise_map, List.pairwise_map]
  simp only [apart_iff]

theorem mem_paths {table : Table} {key : String} {value : Value} :
    (segments key, value) ∈ table.paths ↔ (key, value) ∈ table := by
  rw [paths, List.mem_map]
  constructor
  · rintro ⟨⟨name, other⟩, member, same⟩
    obtain ⟨path, rfl⟩ := Prod.mk.inj same
    rwa [← DottedName.ofSegments_segments key, ← path, DottedName.ofSegments_segments]
  · exact fun member => ⟨_, member, rfl⟩

/-- The names within a name that is not in the table are the paths below it. -/
theorem parts_eq_below {table : Table} {key : String} (new : key ∉ table.keys) :
    table.parts key = below (segments key) table.paths := by
  rw [parts, below, paths, List.filterMap_map]
  refine List.filterMap_congr fun entry member => ?_
  obtain ⟨name, value⟩ := entry
  have differs : name ≠ key := by
    rintro rfl
    exact new (List.mem_map_of_mem member)
  by_cases inside : isWithin name key = true
  · obtain ⟨inner, rfl⟩ := (DottedName.isWithin_iff _ _).mp inside
    have remainder := (DottedName.remainder?_eq_some_iff key (within key inner) inner).mpr rfl
    have start : (segments key).isPrefixOf? (segments (within key inner)) = some (segments inner) := by
      rw [List.isPrefixOf?_eq_some_iff_append_eq, DottedName.segments_within]
    simp [remainder, start]
  · have remainder : DottedName.remainder? key name = none := by
      rw [DottedName.isWithin] at inside
      simpa using inside
    have start : (segments key).isPrefixOf? (segments name) = none := by
      cases split : (segments key).isPrefixOf? (segments name) with
      | none => rfl
      | some rest =>
        rw [List.isPrefixOf?_eq_some_iff_append_eq] at split
        rcases DottedName.eq_or_isWithin_of_prefix ⟨rest, split⟩ with same | within
        · exact absurd same.symm differs
        · exact absurd within inside
    simp [remainder, start]

variable {table : Table}

theorem Flat.nodup (flat : table.Flat) : table.keys.Nodup :=
  flat.imp fun apart => apart.differs

theorem Flat.find?_of_mem (flat : table.Flat) {key : String} {value : Value} (member : (key, value) ∈ table) :
    table.find? key = some value :=
  Entries.find?_of_mem flat.nodup member

theorem lookup?_of_find? {key : String} {value : Value} (found : table.find? key = some value) :
    table.lookup? key = some value := by
  rw [lookup?_eq, found, Option.some_or]

theorem Flat.apart (flat : table.Flat) {one other : String} (member : one ∈ table.keys) (member' : other ∈ table.keys)
    (differs : one ≠ other) : Apart one other := by
  have symmetric : Std.Symm Apart := ⟨fun _ _ apart => ⟨apart.differs.symm, apart.around, apart.outside⟩⟩
  exact List.Pairwise.forall flat member member' differs

/-- Below a leaf stands what its value holds. -/
theorem Flat.lookup?_within (flat : table.Flat) {key : String} {value : Value} (member : (key, value) ∈ table)
    {path : List String} (some : path ≠ []) (plain : ∀ segment ∈ path, '.' ∉ segment.toList) :
    table.lookup? (within key (DottedName.ofSegments path)) = Mapping.descend? (Mapping.ofValue value) path := by
  have there : key ∈ table.keys := List.mem_map_of_mem member
  have aside : ∀ name ∈ table.keys, isWithin name key = false ∧ isWithin key name = false := by
    intro name known
    by_cases same : name = key
    · simp [same]
    · have apart := flat.apart known there same
      exact ⟨apart.outside, apart.around⟩
  have kept : table.overwrite key value = table := by
    have all : table.without key = table :=
      List.filter_eq_self.mpr fun entry known => by simp [(aside _ (List.mem_map_of_mem known)).1]
    rw [overwrite_eq, all]
    exact Entries.insert_of_find? (flat.find?_of_mem member)
  have free : table.enclosing? key path = none := by
    rw [enclosing?_eq_none_iff]
    rintro outer inner entries rfl found
    have known : outer ∈ table.keys := List.mem_map_of_mem (Entries.mem_of_find? found)
    have around := (aside outer known).2
    rw [DottedName.isWithin_within] at around
    cases around
  rw [← kept, Table.lookup?_overwrite_within table key value path some plain, free, Option.or_none]

/-- A name that is not inside a leaf has what the paths below it make up. -/
theorem Flat.lookup?_eq_rebuild? (flat : table.Flat) {key : String}
    (free : ∀ name ∈ table.keys, isWithin key name = false) :
    table.lookup? key = rebuild? (below (segments key) table.paths) := by
  cases found : table.find? key with
  | some value =>
    have member := mem_paths.mpr (Entries.mem_of_find? found)
    rw [lookup?_of_find? found]
    refine (rebuild?_of_value (((flat_iff table).mp flat).below _) (mem_below.mpr ?_)).symm
    rwa [List.append_nil]
  | none =>
    have new := (Entries.find?_eq_none_iff_not_mem_keys table key).mp found
    have nothing : table.enclosing? key [] = none := by
      rw [enclosing?_eq_none_iff]
      rintro outer inner entries rfl there
      have outside := free outer (List.mem_map_of_mem (Entries.mem_of_find? there))
      rw [DottedName.isWithin_within] at outside
      cases outside
    rw [enclosing?, List.append_nil] at nothing
    rw [lookup?_eq, found, nothing, Option.none_or, Option.none_or, gather?_eq, parts_eq_below new,
      rebuild?_of_paths]
    rintro ⟨path, value⟩ member rfl
    rw [mem_below, List.append_nil, mem_paths] at member
    exact new (List.mem_map_of_mem member)

/-- A mapping that is looked up has under each key without a dot what is looked up one segment further. -/
theorem Flat.lookup?_segment (flat : table.Flat) {key name : String} {mapping : Mapping}
    (found : table.lookup? key = some (.mapping mapping)) (plain : DottedName.isDotted name = false) :
    table.lookup? (within key name) = mapping.find? name := by
  have single : DottedName.ofSegments [name] = name := by simp [DottedName.ofSegments, Text.join]
  have last : segments name = [name] := DottedName.segments_of_not_dotted plain
  have free : ∀ segment ∈ segments name, '.' ∉ segment.toList := fun segment => DottedName.not_mem_of_mem_segments
  by_cases there : key ∈ table.keys
  · obtain ⟨⟨_, value⟩, member, rfl⟩ := List.mem_map.mp there
    rw [lookup?_of_find? (flat.find?_of_mem member), Option.some.injEq] at found
    have deeper := flat.lookup?_within member (List.cons_ne_nil name []) (last ▸ free)
    rwa [single, found] at deeper
  by_cases inside : ∃ outer ∈ table.keys, isWithin key outer = true
  · obtain ⟨outer, known, deeper⟩ := inside
    obtain ⟨inner, rfl⟩ := (DottedName.isWithin_iff _ _).mp deeper
    obtain ⟨⟨_, value⟩, member, rfl⟩ := List.mem_map.mp known
    have named : DottedName.ofSegments (segments inner ++ [name]) = within inner name := by
      rw [DottedName.ofSegments_append _ _ (DottedName.segments_ne_nil inner) (List.cons_ne_nil _ _),
        DottedName.ofSegments_segments, single]
    have here := flat.lookup?_within member (DottedName.segments_ne_nil inner)
      fun segment => DottedName.not_mem_of_mem_segments
    rw [DottedName.ofSegments_segments, found] at here
    have long : segments inner ++ [name] ≠ [] := by simp
    have further := flat.lookup?_within member long (by
      intro segment either
      rcases List.mem_append.mp either with before | after
      · exact DottedName.not_mem_of_mem_segments before
      · exact free segment (last ▸ after))
    rw [named] at further
    rw [DottedName.within_within, further, Mapping.descend?_append here.symm (List.cons_ne_nil _ _)]
    rfl
  · have outside : ∀ outer ∈ table.keys, isWithin key outer = false := fun outer known => by
      simpa using fun within => inside ⟨outer, known, within⟩
    have aside : ∀ outer ∈ table.keys, isWithin (within key name) outer = false := by
      intro outer known
      by_contra around
      rcases DottedName.isWithin_or_of_isWithin (by simpa using around) (DottedName.isWithin_within key name) with
        same | deeper | higher
      · exact there (same ▸ known)
      · obtain ⟨inner, rfl⟩ := (DottedName.isWithin_iff _ _).mp deeper
        rw [Bool.not_eq_false, DottedName.isWithin_within_within, DottedName.isWithin_of_not_dotted plain] at around
        cases around
      · rw [outside outer known] at higher
        cases higher
    rw [flat.lookup?_eq_rebuild? outside, rebuild?_of_paths] at found
    · split at found
      · cases found
      · cases found
        rw [flat.lookup?_eq_rebuild? aside, find?_insertParts_nil, below_below, DottedName.segments_within, last]
    · rintro ⟨path, value⟩ member rfl
      rw [mem_below, List.append_nil, mem_paths] at member
      exact there (List.mem_map_of_mem member)

end Table

end DeployRecipe
