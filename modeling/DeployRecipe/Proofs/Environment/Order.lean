import DeployRecipe.Proofs.Environment.Overwrite
import DeployRecipe.Proofs.Mapping

/-!
Tables that differ only in the order of names that no look-up tells apart. A name within one that is in the
table may change places with a name apart from that one. To overwrite names keeps tables alike, and a table
that is laid above itself is like itself.
-/

namespace DeployRecipe

namespace DottedName

/-- Neither name is the other one or within it. -/
structure Apart (first second : String) : Prop where
  differs : first ≠ second
  outside : isWithin first second = false
  around : isWithin second first = false

/-- What is apart from a name is apart from everything within it. -/
theorem Apart.of_isWithin {other outer inner : String} (apart : Apart other outer)
    (inside : isWithin inner outer = true) : Apart other inner := by
  obtain ⟨differs, outside, around⟩ := apart
  refine ⟨?_, ?_, ?_⟩
  · rintro rfl
    rw [inside] at outside
    cases outside
  · by_contra deeper
    rw [isWithin_trans (by simpa using deeper) inside] at outside
    cases outside
  · by_contra deeper
    rcases isWithin_or_of_isWithin inside (by simpa using deeper) with same | first | second
    · exact differs same.symm
    · rw [first] at around
      cases around
    · rw [second] at outside
      cases outside

end DottedName

namespace Table

open DottedName (isWithin Apart)

/-- No name comes twice, and none comes before one that it is within. -/
def Ordered (table : Table) : Prop :=
  table.keys.Pairwise fun earlier later => earlier ≠ later ∧ isWithin earlier later = false

theorem keys_overwrite (table : Table) (key : String) (value : Value) :
    (table.overwrite key value).keys =
      if key ∈ table.keys then table.keys.filter fun name => !isWithin name key
      else (table.keys.filter fun name => !isWithin name key) ++ [key] := by
  have kept := Entries.keys_filter table fun name => !isWithin name key
  rw [overwrite, Entries.keys_insert, kept]
  simp

theorem ordered_overwrite {table : Table} (ordered : table.Ordered) (key : String) (value : Value) :
    (table.overwrite key value).Ordered := by
  rw [Ordered, keys_overwrite]
  split
  · exact ordered.filter _
  · rename_i new
    refine List.pairwise_append.mpr ⟨ordered.filter _, List.pairwise_singleton _ _, ?_⟩
    intro earlier member later last
    obtain rfl := List.mem_singleton.mp last
    obtain ⟨old, outside⟩ := List.mem_filter.mp member
    refine ⟨?_, by simpa using outside⟩
    rintro rfl
    exact new old

theorem ordered_overwriteAll {table : Table} (ordered : table.Ordered) (entries : Table) :
    (table.overwriteAll entries).Ordered := by
  induction entries generalizing table with
  | nil => exact ordered
  | cons entry rest inductionHypothesis => exact inductionHypothesis (ordered_overwrite ordered _ _)

theorem ordered_nil : Ordered [] := List.Pairwise.nil

/-- Two neighbours change places. The second one is within a name above them that the first one is apart
from. -/
inductive Swap : Table → Table → Prop
  | intro {above below : Table} {first second : String × Value} {outer : String} (there : outer ∈ above.keys)
    (inside : isWithin second.1 outer = true) (apart : Apart first.1 outer)
    (ordered : Ordered (above ++ first :: second :: below)) :
    Swap (above ++ first :: second :: below) (above ++ second :: first :: below)

theorem Swap.ordered {table other : Table} (swap : Swap table other) : table.Ordered ∧ other.Ordered := by
  cases swap with
  | intro there inside apart ordered =>
    rename_i above below first second outer
    have between := apart.of_isWithin inside
    refine ⟨ordered, ?_⟩
    simp only [Ordered, Entries.keys, List.map_append, List.map_cons, List.pairwise_append,
      List.pairwise_cons, List.mem_cons, forall_eq_or_imp] at ordered ⊢
    obtain ⟨before, ⟨⟨_, one⟩, two, rest⟩, across⟩ := ordered
    exact ⟨before, ⟨⟨⟨between.differs.symm, between.around⟩, two⟩, one, rest⟩, fun name member =>
      ⟨(across name member).2.1, (across name member).1, (across name member).2.2⟩⟩

/-- The two tables come from each other by changes of places. -/
def Alike (table other : Table) : Prop :=
  table.Ordered ∧ Relation.EqvGen Swap table other

theorem Alike.refl {table : Table} (ordered : table.Ordered) : Alike table table :=
  ⟨ordered, .refl table⟩

/-- What changes of places keep is the same for tables that are alike. -/
theorem Alike.congr {α : Type} (view : Table → α) (kept : ∀ one two, Swap one two → view one = view two)
    {table other : Table} (alike : Alike table other) : view table = view other := by
  obtain ⟨-, swaps⟩ := alike
  induction swaps with
  | rel first second swap => exact kept _ _ swap
  | refl table => rfl
  | symm _ _ _ inductionHypothesis => exact inductionHypothesis.symm
  | trans _ _ _ _ _ one other => exact one.trans other

theorem Alike.ordered {table other : Table} (alike : Alike table other) : other.Ordered :=
  (alike.congr Ordered fun _ _ swap => propext (iff_of_true swap.ordered.1 swap.ordered.2)).mp alike.1

theorem Alike.symm {table other : Table} (alike : Alike table other) : Alike other table :=
  ⟨alike.ordered, alike.2.symm⟩

theorem Alike.trans {table middle other : Table} (one : Alike table middle) (two : Alike middle other) :
    Alike table other :=
  ⟨one.1, one.2.trans _ _ _ two.2⟩

theorem Swap.alike {table other : Table} (swap : Swap table other) : Alike table other :=
  ⟨swap.ordered.1, .rel _ _ swap⟩

theorem Swap.find? {table other : Table} (swap : Swap table other) (key : String) :
    table.find? key = other.find? key := by
  cases swap with
  | intro there inside apart ordered =>
    rename_i above below first second outer
    have differs := (apart.of_isWithin inside).differs
    obtain ⟨name, value⟩ := first
    obtain ⟨other, more⟩ := second
    rw [Entries.find?_append, Entries.find?_append]
    congr 1
    by_cases one : name = key
    · have two : other ≠ key := one ▸ differs.symm
      simp [Entries.find?, one, two]
    · simp [Entries.find?, one]

/-- The names within a name, with what follows it, and their values. -/
def parts (table : Table) (key : String) : List (List String × Value) :=
  table.filterMap fun entry =>
    (DottedName.remainder? key entry.1).map fun remainder => (DottedName.segments remainder, entry.2)

/-- Sets the values of paths one after the other. -/
def insertParts (mapping : Mapping) (parts : List (List String × Value)) : Mapping :=
  parts.foldl (fun mapping part => Mapping.insertPath mapping part.1 part.2) mapping

theorem gather?_eq (table : Table) (key : String) :
    table.gather? key =
      if (table.parts key).isEmpty then none else some (.mapping (insertParts [] (table.parts key))) := by
  have same : table.parts key =
      (table.filterMap fun entry => (DottedName.remainder? key entry.1).map fun remainder =>
        (remainder, entry.2)).map fun part => (DottedName.segments part.1, part.2) := by
    rw [parts, List.map_filterMap]
    simp [Function.comp_def]
  rw [gather?, same, insertParts, List.foldl_map, List.isEmpty_map]

theorem parts_append (above below : Table) (key : String) :
    parts (above ++ below) key = parts above key ++ parts below key :=
  List.filterMap_append

theorem parts_cons_of_within (key inner : String) (value : Value) (rest : Table) :
    parts ((DottedName.within key inner, value) :: rest) key =
      (DottedName.segments inner, value) :: parts rest key := by
  have remainder := (DottedName.remainder?_eq_some_iff key (DottedName.within key inner) inner).mpr rfl
  rw [parts, List.filterMap_cons, remainder]
  rfl

theorem parts_cons_of_not_isWithin {key : String} {entry : String × Value}
    (outside : isWithin entry.1 key = false) (rest : Table) : parts (entry :: rest) key = parts rest key := by
  have remainder : DottedName.remainder? key entry.1 = none := by
    rw [DottedName.isWithin] at outside
    simpa using outside
  rw [parts, List.filterMap_cons, remainder]
  rfl

/-- Segments inside a name begin like others only if the names do. -/
theorem prefix_within (key : String) {one other : String}
    (leads : DottedName.segments one <+: DottedName.segments other) :
    DottedName.within key one = DottedName.within key other ∨
      isWithin (DottedName.within key other) (DottedName.within key one) = true := by
  apply DottedName.eq_or_isWithin_of_prefix
  rw [DottedName.segments_within, DottedName.segments_within]
  exact (List.prefix_append_right_inj _).mpr leads

/-- A path stays while names are set that it is not within. -/
theorem descend?_insertParts {mapping : Mapping} {key inner : String}
    (there : mapping.descend? (DottedName.segments inner) ≠ none) {below : Table}
    (aside : ∀ name ∈ below.keys, DottedName.within key inner ≠ name ∧
      isWithin (DottedName.within key inner) name = false) :
    (insertParts mapping (below.parts key)).descend? (DottedName.segments inner) ≠ none := by
  induction below generalizing mapping with
  | nil => exact there
  | cons entry rest inductionHypothesis =>
    have others := fun name member => aside name (List.mem_cons_of_mem _ member)
    by_cases within : isWithin entry.1 key = true
    · obtain ⟨name, value⟩ := entry
      obtain ⟨part, rfl⟩ := (DottedName.isWithin_iff _ _).mp within
      rw [parts_cons_of_within]
      refine inductionHypothesis (Mapping.descend?_insertPath_of_not_prefix there ?_ value) others
      intro leads
      obtain ⟨differs, outside⟩ := aside _ List.mem_cons_self
      rcases prefix_within key leads with same | inside
      · exact differs same.symm
      · rw [outside] at inside
        cases inside
    · rw [parts_cons_of_not_isWithin (by simpa using within)]
      exact inductionHypothesis there others

/-- A name of a table leads to something in what is gathered. -/
theorem descend?_insertParts_of_mem (mapping : Mapping) {key inner : String} {above : Table}
    (ordered : above.Ordered) (there : DottedName.within key inner ∈ above.keys) :
    (insertParts mapping (above.parts key)).descend? (DottedName.segments inner) ≠ none := by
  induction above generalizing mapping with
  | nil => exact absurd there List.not_mem_nil
  | cons entry rest inductionHypothesis =>
    obtain ⟨name, value⟩ := entry
    obtain ⟨first, later⟩ := List.pairwise_cons.mp ordered
    rcases List.mem_cons.mp there with same | member
    · obtain rfl : DottedName.within key inner = name := same
      rw [parts_cons_of_within]
      refine descend?_insertParts ?_ first
      exact Mapping.descend?_insertPath_self _ (DottedName.segments_ne_nil inner) value
    · by_cases within : isWithin name key = true
      · obtain ⟨part, rfl⟩ := (DottedName.isWithin_iff _ _).mp within
        rw [parts_cons_of_within]
        exact inductionHypothesis _ later member
      · rw [parts_cons_of_not_isWithin (by simpa using within)]
        exact inductionHypothesis _ later member

/-- What is gathered within a name is the same after the change of places. -/
theorem insertParts_swap {above : Table} {key outer one two : String} (ordered : above.Ordered)
    (there : outer ∈ above.keys) (inside : isWithin (DottedName.within key two) outer = true)
    (apart : Apart (DottedName.within key one) outer) (value more : Value)
    (rest : List (List String × Value)) :
    insertParts [] (above.parts key ++
        (DottedName.segments one, value) :: (DottedName.segments two, more) :: rest) =
      insertParts [] (above.parts key ++
        (DottedName.segments two, more) :: (DottedName.segments one, value) :: rest) := by
  obtain ⟨differs, outside, around⟩ := apart
  have deeper : isWithin outer key = true := by
    rcases DottedName.isWithin_or_of_isWithin inside (DottedName.isWithin_within key two) with
      rfl | deeper | higher
    · simp at outside
    · exact deeper
    · rw [DottedName.isWithin_trans (DottedName.isWithin_within key one) higher] at outside
      cases outside
  obtain ⟨middle, rfl⟩ := (DottedName.isWithin_iff _ _).mp deeper
  obtain ⟨last, same⟩ := (DottedName.isWithin_iff _ _).mp inside
  have path : DottedName.segments two = DottedName.segments middle ++ DottedName.segments last := by
    have segments := congrArg DottedName.segments same
    rw [DottedName.segments_within, DottedName.segments_within, DottedName.segments_within,
      List.append_assoc] at segments
    exact List.append_cancel_left segments
  have short : ¬ DottedName.segments one <+: DottedName.segments middle := by
    intro leads
    rcases prefix_within key leads with same | inner
    · exact differs same
    · rw [inner] at around
      cases around
  have long : ¬ DottedName.segments middle <+: DottedName.segments one := by
    intro leads
    rcases prefix_within key leads with same | inner
    · exact differs same.symm
    · rw [inner] at outside
      cases outside
  have there' := descend?_insertParts_of_mem [] ordered there
  have swapped := Mapping.insertPath_comm there' short long (DottedName.segments last) value more
  rw [← path] at swapped
  rw [insertParts, insertParts, List.foldl_append, List.foldl_append, List.foldl_cons, List.foldl_cons,
    List.foldl_cons, List.foldl_cons]
  exact congrArg (fun mapping => insertParts mapping rest) swapped

theorem Swap.gather? {table other : Table} (swap : Swap table other) (key : String) :
    table.gather? key = other.gather? key := by
  have same : table.parts key = other.parts key ∨
      insertParts [] (table.parts key) = insertParts [] (other.parts key) ∧
        (table.parts key).isEmpty = false ∧ (other.parts key).isEmpty = false := by
    cases swap with
    | intro there inside apart ordered =>
      rename_i above below first second outer
      obtain ⟨name, value⟩ := first
      obtain ⟨other, more⟩ := second
      simp only [parts_append]
      by_cases one : isWithin name key = true
      · obtain ⟨part, rfl⟩ := (DottedName.isWithin_iff _ _).mp one
        by_cases two : isWithin other key = true
        · right
          obtain ⟨further, rfl⟩ := (DottedName.isWithin_iff _ _).mp two
          have higher : above.Ordered := by
            rw [Ordered, Entries.keys, List.map_append, List.pairwise_append] at ordered
            exact ordered.1
          simp only [parts_cons_of_within]
          exact ⟨insertParts_swap higher there inside apart value more _, by simp, by simp⟩
        · left
          have aside (rest : Table) : parts ((other, more) :: rest) key = parts rest key :=
            parts_cons_of_not_isWithin (by simpa using two) rest
          rw [parts_cons_of_within, aside, aside, parts_cons_of_within]
      · left
        have aside (rest : Table) : parts ((name, value) :: rest) key = parts rest key :=
          parts_cons_of_not_isWithin (by simpa using one) rest
        by_cases two : isWithin other key = true
        · obtain ⟨part, rfl⟩ := (DottedName.isWithin_iff _ _).mp two
          rw [parts_cons_of_within, aside, parts_cons_of_within, aside]
        · have outside (rest : Table) : parts ((other, more) :: rest) key = parts rest key :=
            parts_cons_of_not_isWithin (by simpa using two) rest
          rw [aside, outside, outside, aside]
  rcases same with equal | ⟨equal, one, two⟩
  · rw [gather?_eq, gather?_eq, equal]
  · rw [gather?_eq, gather?_eq, one, two, equal]

/-- Tables that are alike answer every look-up in the same way. -/
theorem Alike.lookup? {table other : Table} (alike : Alike table other) : table.lookup? = other.lookup? := by
  have found : table.find? = other.find? := alike.congr Entries.find? fun _ _ swap => funext swap.find?
  have gathered : table.gather? = other.gather? := alike.congr gather? fun _ _ swap => funext swap.gather?
  have descended : table.descendAfter? = other.descendAfter? := by
    funext segments count
    rw [descendAfter?, descendAfter?, found]
  funext key
  rw [lookup?_eq, lookup?_eq, found, gathered, descended]

/-- The table without the names within a name. -/
def without (table : Table) (key : String) : Table :=
  table.filter fun entry => !isWithin entry.1 key

theorem overwrite_eq (table : Table) (key : String) (value : Value) :
    table.overwrite key value = (table.without key).insert key value := rfl

theorem mem_keys_without {table : Table} {key name : String} :
    name ∈ (table.without key).keys ↔ name ∈ table.keys ∧ isWithin name key = false := by
  have keys := Entries.keys_filter table fun name => !isWithin name key
  rw [without, keys]
  simp

theorem ordered_without {table : Table} (ordered : table.Ordered) (key : String) :
    (table.without key).Ordered := by
  have keys := Entries.keys_filter table fun name => !isWithin name key
  rw [Ordered, without, keys]
  exact ordered.filter _

theorem Swap.without {table other : Table} (swap : Swap table other) (key : String) :
    table.without key = other.without key ∨ Swap (table.without key) (other.without key) := by
  have kept := ordered_without swap.ordered.1 key
  cases swap with
  | intro there inside apart ordered =>
    rename_i above below first second outer
    simp only [Table.without, List.filter_append, List.filter_cons] at kept ⊢
    by_cases one : isWithin first.1 key = true
    · simp [one]
    · by_cases two : isWithin second.1 key = true
      · simp [two]
      · simp only [one, two, Bool.not_false, if_true] at kept ⊢
        refine Or.inr (.intro (mem_keys_without.mpr ⟨there, ?_⟩) inside apart kept)
        by_contra deeper
        exact two (DottedName.isWithin_trans inside (by simpa using deeper))

theorem Swap.insert {table other : Table} (swap : Swap table other) {key : String} {value : Value}
    (kept : Ordered (table.insert key value)) : Swap (table.insert key value) (other.insert key value) := by
  cases swap with
  | intro there inside apart ordered =>
    rename_i above below first second outer
    have differs := (apart.of_isWithin inside).differs
    obtain ⟨name, old⟩ := first
    obtain ⟨other, past⟩ := second
    rw [Entries.insert_append] at kept ⊢
    rw [Entries.insert_append]
    by_cases higher : key ∈ above.keys
    · rw [if_pos higher] at kept ⊢
      rw [if_pos higher]
      exact .intro ((Entries.mem_keys_insert _ _ _ _).mpr (Or.inr there)) inside apart kept
    · rw [if_neg higher] at kept ⊢
      rw [if_neg higher]
      by_cases one : name = key
      · have two : other ≠ key := one ▸ differs.symm
        simp only [Entries.insert, one, two, if_true, if_false] at kept ⊢
        exact .intro there inside (one ▸ apart) kept
      · by_cases two : other = key
        · simp only [Entries.insert, one, two, if_true, if_false] at kept ⊢
          exact .intro there (two ▸ inside) apart kept
        · simp only [Entries.insert, one, two, if_false] at kept ⊢
          exact .intro there inside apart kept

theorem Swap.overwrite {table other : Table} (swap : Swap table other) (key : String) (value : Value) :
    Alike (table.overwrite key value) (other.overwrite key value) := by
  have kept := ordered_overwrite swap.ordered.1 key value
  rw [overwrite_eq] at kept ⊢
  rw [overwrite_eq]
  rcases swap.without key with same | swapped
  · rw [same] at kept ⊢
    exact .refl kept
  · exact (swapped.insert kept).alike

/-- To overwrite names keeps tables alike. -/
theorem Alike.overwriteAll {table other : Table} (alike : Alike table other) (entries : Table) :
    Alike (table.overwriteAll entries) (other.overwriteAll entries) := by
  have one {first second : Table} (alike : Alike first second) (key : String) (value : Value) :
      Alike (first.overwrite key value) (second.overwrite key value) := by
    obtain ⟨ordered, swaps⟩ := alike
    refine ⟨ordered_overwrite ordered key value, ?_⟩
    clear ordered
    induction swaps with
    | rel first second swap => exact (swap.overwrite key value).2
    | refl table => exact .refl _
    | symm _ _ _ inductionHypothesis => exact inductionHypothesis.symm
    | trans _ _ _ _ _ one other => exact one.trans _ _ _ other
  induction entries generalizing table other with
  | nil => exact alike
  | cons entry rest inductionHypothesis => exact inductionHypothesis (one alike entry.1 entry.2)

theorem overwrite_overwrite {table : Table} {key other : String} (apart : isWithin key other = false)
    (value more : Value) :
    (table.overwrite key value).overwrite other more =
      (((table.without key).without other).insert key value).insert other more := by
  have kept := Entries.filter_insert (table.without key) (fun name => !isWithin name other)
    (show (!isWithin key other) = true by simp [apart]) value
  rw [overwrite_eq, overwrite_eq, without, kept]
  rfl

theorem without_comm (table : Table) (key other : String) :
    (table.without key).without other = (table.without other).without key := by
  simp only [without, List.filter_filter, Bool.and_comm]

/-- Two names are overwritten in either order up to a change of places. -/
theorem overwrite_comm {table : Table} (ordered : table.Ordered) {first second outer : String}
    (there : outer ∈ table.keys) (inside : isWithin second outer = true) (apart : Apart first outer)
    (value more : Value) :
    Alike ((table.overwrite first value).overwrite second more)
      ((table.overwrite second more).overwrite first value) := by
  have kept := ordered_overwrite (ordered_overwrite ordered first value) second more
  obtain ⟨differs, one, two⟩ := apart.of_isWithin inside
  rw [overwrite_overwrite one] at kept ⊢
  rw [overwrite_overwrite two, without_comm table second first]
  generalize rest : (table.without first).without second = left at kept ⊢
  by_cases old : first ∈ left.keys
  · rw [Entries.insert_comm differs old] at kept ⊢
    exact .refl kept
  · by_cases past : second ∈ left.keys
    · rw [← Entries.insert_comm differs.symm past] at kept ⊢
      exact .refl kept
    · have new : second ∉ (left.insert first value).keys := by
        rw [Entries.mem_keys_insert]
        exact not_or.mpr ⟨differs.symm, past⟩
      have fresh : first ∉ (left.insert second more).keys := by
        rw [Entries.mem_keys_insert]
        exact not_or.mpr ⟨differs, old⟩
      rw [Entries.insert_of_not_mem new, Entries.insert_of_not_mem old, List.append_assoc] at kept ⊢
      rw [Entries.insert_of_not_mem fresh, Entries.insert_of_not_mem past, List.append_assoc]
      have stays : outer ∈ Entries.keys left := by
        rw [← rest, mem_keys_without, mem_keys_without]
        exact ⟨⟨there, apart.around⟩, DottedName.isWithin_asymm inside⟩
      exact (Swap.intro stays inside apart kept).alike

/-- An entry stays while others are overwritten that it is not within. -/
theorem mem_keys_overwriteAll {table entries : Table} {name : String} (ordered : entries.Ordered)
    (there : name ∈ entries.keys) : name ∈ (table.overwriteAll entries).keys := by
  have stays {rest : Table} (aside : ∀ later ∈ rest.keys, name ≠ later ∧ isWithin name later = false)
      {table : Table} (there : name ∈ table.keys) : name ∈ (table.overwriteAll rest).keys := by
    induction rest generalizing table with
    | nil => exact there
    | cons entry rest inductionHypothesis =>
      rw [overwriteAll_cons]
      refine inductionHypothesis (fun later member => aside later (List.mem_cons_of_mem _ member)) ?_
      rw [overwrite_eq, Entries.mem_keys_insert, mem_keys_without]
      exact Or.inr ⟨there, (aside entry.1 List.mem_cons_self).2⟩
  induction entries generalizing table with
  | nil => exact absurd there List.not_mem_nil
  | cons entry rest inductionHypothesis =>
    obtain ⟨first, later⟩ := List.pairwise_cons.mp ordered
    rw [overwriteAll_cons]
    rcases List.mem_cons.mp there with rfl | member
    · refine stays first ?_
      rw [overwrite_eq, Entries.mem_keys_insert]
      exact Or.inl rfl
    · exact inductionHypothesis later member

/-- Tables that are alike, laid above a table, give tables that are alike. -/
theorem overwriteAll_alike {table : Table} (ordered : table.Ordered) {entries other : Table}
    (alike : Alike entries other) : Alike (table.overwriteAll entries) (table.overwriteAll other) := by
  obtain ⟨-, swaps⟩ := alike
  induction swaps with
  | rel first second swap =>
    cases swap with
    | intro there inside apart entries =>
      rename_i above below first second outer
      have higher : above.Ordered := by
        rw [Ordered, Entries.keys, List.map_append, List.pairwise_append] at entries
        exact entries.1
      simp only [overwriteAll_append, overwriteAll_cons]
      exact (overwrite_comm (ordered_overwriteAll ordered above) (mem_keys_overwriteAll higher there) inside
        apart first.2 second.2).overwriteAll below
  | refl entries => exact .refl (ordered_overwriteAll ordered entries)
  | symm _ _ _ inductionHypothesis => exact inductionHypothesis.symm
  | trans _ _ _ _ _ one other => exact one.trans other

theorem Ordered.sublist {table part : Table} (ordered : table.Ordered) (inside : part.Sublist table) :
    part.Ordered :=
  List.Pairwise.sublist (inside.map Prod.fst) ordered

/-- An entry within a name moves to the front of entries that are apart from that name. -/
theorem alike_move {above between below : Table} {entry : String × Value} {outer : String}
    (there : outer ∈ above.keys) (inside : isWithin entry.1 outer = true)
    (apart : ∀ name ∈ between.keys, Apart name outer)
    (ordered : Ordered (above ++ between ++ entry :: below)) :
    Alike (above ++ between ++ entry :: below) (above ++ entry :: between ++ below) := by
  induction between generalizing above with
  | nil =>
    rw [List.append_nil] at ordered ⊢
    rw [List.append_assoc]
    exact .refl ordered
  | cons first rest inductionHypothesis =>
    have there' : outer ∈ Entries.keys (above ++ [first]) := by
      rw [Entries.keys, List.map_append]
      exact List.mem_append_left _ there
    have split : above ++ first :: rest ++ entry :: below = above ++ [first] ++ rest ++ entry :: below := by
      simp
    rw [split] at ordered ⊢
    have moved := inductionHypothesis there' (fun name member => apart name (List.mem_cons_of_mem _ member))
      ordered
    have last := moved.ordered
    refine moved.trans ?_
    rw [List.append_assoc, List.append_assoc, List.singleton_append, List.cons_append] at last ⊢
    rw [List.append_assoc, List.cons_append, List.cons_append]
    exact (Swap.intro there inside (apart first.1 List.mem_cons_self) last).alike

/-- The entries that are within no name of a table. -/
def clear (table entries : Table) : Table :=
  entries.filter fun entry => !table.keys.any (isWithin entry.1)

theorem without_clear (done rest : Table) (entry : String × Value) :
    (clear done rest).without entry.1 = clear (done ++ [entry]) rest := by
  rw [without, clear, clear, List.filter_filter]
  apply List.filter_congr
  intro later _
  simp [Entries.keys, Bool.and_comm]

theorem without_of_ordered {done rest : Table} {entry : String × Value}
    (ordered : Ordered (done ++ entry :: rest)) : done.without entry.1 = done := by
  rw [Ordered, Entries.keys, List.map_append, List.map_cons, List.pairwise_append] at ordered
  obtain ⟨_, _, across⟩ := ordered
  rw [without, List.filter_eq_self]
  intro earlier member
  rw [(across earlier.1 (List.mem_map_of_mem member) entry.1 List.mem_cons_self).2]
  rfl

/-- To overwrite the next entry of a table with itself keeps it, or puts it back if it was dropped. -/
theorem overwrite_rest {done rest : Table} {entry : String × Value}
    (ordered : Ordered (done ++ entry :: rest)) :
    Alike (Table.overwrite (done ++ clear done (entry :: rest)) entry.1 entry.2)
      (done ++ [entry] ++ clear (done ++ [entry]) rest) := by
  have before : Ordered (done ++ clear done (entry :: rest)) :=
    ordered.sublist ((List.Sublist.refl done).append List.filter_sublist)
  have kept := ordered_overwrite before entry.1 entry.2
  have dropped : without (done ++ clear done rest) entry.1 = done ++ clear (done ++ [entry]) rest := by
    rw [← without_clear, without, List.filter_append, ← without, ← without, without_of_ordered ordered]
  have whole := ordered
  rw [Ordered, Entries.keys, List.map_append, List.map_cons, List.pairwise_append, List.pairwise_cons]
    at ordered
  obtain ⟨_, ⟨after, _⟩, across⟩ := ordered
  have new : entry.1 ∉ Entries.keys done := fun member => (across _ member _ List.mem_cons_self).1 rfl
  by_cases inside : ∃ outer ∈ Entries.keys done, isWithin entry.1 outer = true
  · have skipped : clear done (entry :: rest) = clear done rest := by
      rw [clear, List.filter_cons_of_neg (by simpa using inside), ← clear]
    obtain ⟨outer, there, within⟩ := inside
    have absent : entry.1 ∉ Entries.keys (done ++ clear (done ++ [entry]) rest) := by
      rw [Entries.keys, List.map_append, List.mem_append, not_or]
      refine ⟨new, fun member => ?_⟩
      obtain ⟨later, cleared, same⟩ := List.mem_map.mp member
      exact (after _ (List.mem_map_of_mem (List.mem_filter.mp cleared).1)).1 same.symm
    rw [skipped, overwrite_eq, dropped, Entries.insert_of_not_mem absent] at kept ⊢
    have moved := alike_move there within ?_ kept
    · simpa using moved
    · intro name member
      obtain ⟨later, cleared, rfl⟩ := List.mem_map.mp member
      obtain ⟨old, free⟩ := List.mem_filter.mp cleared
      obtain ⟨differs, around⟩ := across outer there later.1 (List.mem_cons_of_mem _ (List.mem_map_of_mem old))
      refine ⟨differs.symm, ?_, around⟩
      have outside : ∀ name ∈ Entries.keys (done ++ [entry]), isWithin later.1 name = false := by
        simpa using free
      apply outside
      rw [Entries.keys, List.map_append]
      exact List.mem_append_left _ there
  · have stays : clear done (entry :: rest) = entry :: clear done rest := by
      rw [clear, List.filter_cons_of_pos (by simpa using inside), ← clear]
    have same : Table.overwrite (done ++ clear done (entry :: rest)) entry.1 entry.2 =
        done ++ [entry] ++ clear (done ++ [entry]) rest := by
      rw [stays, overwrite_eq, without, List.filter_append, List.filter_cons_of_pos (by simp), ← without,
        ← without, without_of_ordered whole, without_clear, Entries.insert_append, if_neg new,
        List.append_assoc]
      simp [Entries.insert]
    rw [same] at kept ⊢
    exact .refl kept

/-- To overwrite the rest of a table with itself puts the entries back that were dropped. -/
theorem overwriteAll_rest (done rest : Table) (ordered : Ordered (done ++ rest)) :
    Alike (Table.overwriteAll (done ++ clear done rest) rest) (done ++ rest) := by
  induction rest generalizing done with
  | nil =>
    rw [clear, List.filter_nil, overwriteAll_nil]
    exact .refl ordered
  | cons entry rest inductionHypothesis =>
    have whole : done ++ entry :: rest = done ++ [entry] ++ rest := by simp
    have put : Alike (Table.overwrite (done ++ clear done (entry :: rest)) entry.1 entry.2)
        (done ++ [entry] ++ clear (done ++ [entry]) rest) :=
      overwrite_rest ordered
    rw [overwriteAll_cons, whole]
    exact (put.overwriteAll rest).trans (inductionHypothesis (done ++ [entry]) (whole ▸ ordered))

/-- A table laid above itself is like itself. -/
theorem overwriteAll_self {table : Table} (ordered : table.Ordered) :
    Alike (table.overwriteAll table) table := by
  have start : clear [] table = table := by simp [clear, Entries.keys]
  have alike := overwriteAll_rest [] table ordered
  rwa [start] at alike

end Table

end DeployRecipe
