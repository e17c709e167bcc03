import DeployRecipe.Proofs.Environment.Overwrite

/-!
What a name that is written again hides. Nothing of the names within it is found below the new value any
more. A mapping that stands at a proper beginning of the name is still descended where the new value does
not have the path, and that is the only way in which a lower layer shows.
-/

namespace DeployRecipe

namespace DottedName

/-- A proper beginning of a name names something around it, with the other segments inside. -/
theorem exists_within_beginning (name : String) {count : Nat} (positive : 0 < count)
    (proper : count < (segments name).length) :
    ∃ inner, name = within (ofSegments ((segments name).take count)) inner ∧
      segments inner = (segments name).drop count := by
  have first : (segments name).take count ≠ [] := by
    rw [← List.length_pos_iff, List.length_take]
    omega
  have rest : (segments name).drop count ≠ [] := by
    rw [← List.length_pos_iff, List.length_drop]
    omega
  have plain : ∀ segment ∈ (segments name).drop count, '.' ∉ segment.toList := fun segment member =>
    not_mem_of_mem_segments (List.mem_of_mem_drop member)
  refine ⟨ofSegments ((segments name).drop count), ?_, segments_ofSegments _ rest plain⟩
  rw [← ofSegments_append _ _ first rest, List.take_append_drop, ofSegments_segments]

theorem isWithin_beginning (name : String) {count : Nat} (positive : 0 < count)
    (proper : count < (segments name).length) :
    isWithin name (ofSegments ((segments name).take count)) = true := by
  obtain ⟨inner, split, _⟩ := exists_within_beginning name positive proper
  exact (isWithin_iff _ _).mpr ⟨inner, split⟩

end DottedName

theorem Mapping.descend?_nil (path : List String) : descend? [] path = none := by
  rcases path with _ | ⟨first, _ | ⟨second, rest⟩⟩ <;> rfl

namespace Table

/-- What a mapping that stands at a proper beginning of a name holds under the rest of the name and a
path, the longest beginning first. -/
def enclosing? (table : Table) (key : String) (path : List String) : Option Value :=
  let segments := DottedName.segments key
  let counts := (List.range (segments.length - 1)).reverse.map (· + 1)
  counts.findSome? (table.descendAfter? (segments ++ path))

/-- Nothing within an overwritten name is gathered. -/
theorem gather?_overwrite_within (table : Table) (key inner : String) (value : Value) :
    (table.overwrite key value).gather? (DottedName.within key inner) = none := by
  have nothing : ((table.overwrite key value).filterMap fun entry =>
      (DottedName.remainder? (DottedName.within key inner) entry.1).map
        fun remainder => (remainder, entry.2)) = [] := by
    rw [List.filterMap_eq_nil_iff]
    intro entry member
    rw [Option.map_eq_none_iff]
    by_contra found
    have inside : DottedName.isWithin entry.1 (DottedName.within key inner) = true := by
      rw [DottedName.isWithin, Option.isSome_iff_ne_none]
      exact found
    have deeper := DottedName.isWithin_trans inside (DottedName.isWithin_within key inner)
    rcases mem_overwrite member with rfl | ⟨_, outside⟩
    · simp at deeper
    · simp [deeper] at outside
  simp [gather?, nothing]

/-- The beginnings of a name and a path: those that end in the path, the name itself, and those that end
in the name, each part with the longest first. -/
theorem beginnings_append (named further : Nat) :
    (List.range (named + 1 + further)).reverse.map (· + 1) =
      ((List.range further).reverse.map fun count => named + 1 + (count + 1)) ++ (named + 1) ::
        (List.range named).reverse.map (· + 1) := by
  rw [List.range_add, List.range_succ]
  simp only [List.reverse_append, List.reverse_cons, List.nil_append, List.map_append,
    List.map_reverse, List.map_map, List.map_cons, List.append_assoc, List.cons_append]
  rfl

variable (table : Table) (key : String) (value : Value) (path : List String)

/-- Below an overwritten name, no beginning of the path stands in the table. -/
theorem descendAfter?_overwrite_inside {count : Nat} (positive : 0 < count) (proper : count < path.length) :
    (table.overwrite key value).descendAfter? (DottedName.segments key ++ path)
      ((DottedName.segments key).length + count) = none := by
  have first : DottedName.segments key ≠ [] := DottedName.segments_ne_nil key
  have rest : path.take count ≠ [] := by
    rw [← List.length_pos_iff, List.length_take]
    omega
  have name : DottedName.ofSegments
      ((DottedName.segments key ++ path).take ((DottedName.segments key).length + count)) =
      DottedName.within key (DottedName.ofSegments (path.take count)) := by
    rw [List.take_length_add_append, DottedName.ofSegments_append _ _ first rest,
      DottedName.ofSegments_segments]
  have differs : key ≠ DottedName.within key (DottedName.ofSegments (path.take count)) := by
    intro same
    have inside := DottedName.isWithin_within key (DottedName.ofSegments (path.take count))
    rw [← same] at inside
    simp at inside
  rw [descendAfter?, name, find?_overwrite, if_neg differs, DottedName.isWithin_within]
  simp

/-- At the overwritten name itself, the new value is descended. -/
theorem descendAfter?_overwrite_self :
    (table.overwrite key value).descendAfter? (DottedName.segments key ++ path)
      (DottedName.segments key).length = Mapping.descend? (Mapping.ofValue value) path := by
  rw [descendAfter?, List.take_left, List.drop_left, DottedName.ofSegments_segments, find?_overwrite,
    if_pos rfl]
  cases value <;> simp [Mapping.ofValue, Mapping.descend?_nil]

/-- Beginnings of the overwritten name lead where they led before. -/
theorem descendAfter?_overwrite_outside {count : Nat} (positive : 0 < count)
    (proper : count < (DottedName.segments key).length) :
    (table.overwrite key value).descendAfter? (DottedName.segments key ++ path) count =
      table.descendAfter? (DottedName.segments key ++ path) count := by
  have around := DottedName.isWithin_beginning key positive proper
  rw [descendAfter?, descendAfter?, List.take_append_of_le_length (Nat.le_of_lt proper),
    find?_overwrite_of_around table around]

/-- Below an overwritten name stands what the new value holds, else what a mapping around the name
holds. -/
theorem lookup?_overwrite_within (some : path ≠ []) (plain : ∀ segment ∈ path, '.' ∉ segment.toList) :
    (table.overwrite key value).lookup? (DottedName.within key (DottedName.ofSegments path)) =
      (Mapping.descend? (Mapping.ofValue value) path).or (table.enclosing? key path) := by
  obtain ⟨named, named_eq⟩ := Nat.exists_eq_succ_of_ne_zero
    (List.length_pos_iff.mpr (DottedName.segments_ne_nil key)).ne'
  obtain ⟨further, further_eq⟩ := Nat.exists_eq_succ_of_ne_zero (List.length_pos_iff.mpr some).ne'
  have exact : (table.overwrite key value).find?
      (DottedName.within key (DottedName.ofSegments path)) = none := by
    have inside := DottedName.isWithin_within key (DottedName.ofSegments path)
    have differs : key ≠ DottedName.within key (DottedName.ofSegments path) := by
      intro same
      rw [← same] at inside
      simp at inside
    rw [find?_overwrite, if_neg differs, inside]
    rfl
  have counts : (DottedName.segments key ++ path).length - 1 = named + 1 + further := by
    rw [List.length_append]
    omega
  have inner : ((List.range further).reverse.map fun count => named + 1 + (count + 1)).findSome?
      ((table.overwrite key value).descendAfter? (DottedName.segments key ++ path)) = none := by
    rw [List.findSome?_eq_none_iff]
    intro count member
    obtain ⟨extra, small, rfl⟩ := List.mem_map.mp member
    have proper : extra + 1 < path.length := by
      have := List.mem_range.mp (List.mem_reverse.mp small)
      omega
    have nothing := descendAfter?_overwrite_inside table key value path (Nat.succ_pos extra) proper
    rwa [named_eq] at nothing
  have outer : ((List.range named).reverse.map (· + 1)).findSome?
      ((table.overwrite key value).descendAfter? (DottedName.segments key ++ path)) =
      table.enclosing? key path := by
    rw [enclosing?, named_eq, ← List.head?_filterMap, ← List.head?_filterMap]
    apply congrArg List.head?
    apply List.filterMap_congr
    intro count member
    obtain ⟨smaller, small, rfl⟩ := List.mem_map.mp member
    have proper : smaller + 1 < (DottedName.segments key).length := by
      have := List.mem_range.mp (List.mem_reverse.mp small)
      omega
    exact descendAfter?_overwrite_outside table key value path (Nat.succ_pos smaller) proper
  have self := descendAfter?_overwrite_self table key value path
  rw [named_eq] at self
  rw [lookup?_eq, exact, DottedName.segments_within, DottedName.segments_ofSegments path some plain,
    counts, beginnings_append, List.findSome?_append, inner, List.findSome?_cons, self, outer,
    gather?_overwrite_within]
  cases Mapping.descend? (Mapping.ofValue value) path <;> cases table.enclosing? key path <;> rfl

theorem lookup?_overwrite_self : (table.overwrite key value).lookup? key = some value := by
  rw [lookup?_eq, find?_overwrite, if_pos rfl, Option.some_or]

/-- Nothing encloses a name exactly when no mapping around it leads on to the rest of the name and the
path. -/
theorem enclosing?_eq_none_iff :
    table.enclosing? key path = none ↔
      ∀ outer inner entries, key = DottedName.within outer inner →
        table.find? outer = some (.mapping entries) →
          Mapping.descend? entries (DottedName.segments inner ++ path) = none := by
  rw [enclosing?, List.findSome?_eq_none_iff]
  constructor
  · rintro nothing outer inner entries rfl found
    have outerSome := List.length_pos_iff.mpr (DottedName.segments_ne_nil outer)
    have innerSome := List.length_pos_iff.mpr (DottedName.segments_ne_nil inner)
    have member : (DottedName.segments outer).length ∈
        (List.range ((DottedName.segments (DottedName.within outer inner)).length - 1)).reverse.map
          (· + 1) := by
      rw [DottedName.segments_within, List.length_append]
      refine List.mem_map.mpr ⟨(DottedName.segments outer).length - 1, ?_, by omega⟩
      rw [List.mem_reverse, List.mem_range]
      omega
    have missing := nothing _ member
    rw [descendAfter?, DottedName.segments_within, List.append_assoc, List.take_left,
      List.drop_left, DottedName.ofSegments_segments, found] at missing
    exact missing
  · intro nothing count member
    obtain ⟨smaller, small, rfl⟩ := List.mem_map.mp member
    have proper : smaller + 1 < (DottedName.segments key).length := by
      have := List.mem_range.mp (List.mem_reverse.mp small)
      omega
    obtain ⟨inner, split, rest⟩ := DottedName.exists_within_beginning key (Nat.succ_pos smaller) proper
    rw [descendAfter?, List.take_append_of_le_length (Nat.le_of_lt proper),
      List.drop_append_of_le_length (Nat.le_of_lt proper)]
    split
    · rename_i entries found
      rw [← rest]
      exact nothing _ inner entries split found
    · rfl

end Table

namespace Environment

/-- A name that one more layer writes has the value of that layer. Below it stands what the value holds,
else what a mapping around the name holds in the layers below; the layers below do not show exactly when
the value has the path or no mapping around the name leads there. -/
theorem lookup?_push_one (environment : Environment) (source : LayerSource) (key : String)
    (value : Value) (path : List String) (some : path ≠ [])
    (plain : ∀ segment ∈ path, '.' ∉ segment.toList) :
    let above := environment.push ⟨source, [(key, value)]⟩
    let name := DottedName.within key (DottedName.ofSegments path)
    let held := Mapping.descend? (Mapping.ofValue value) path
    above.lookup? key = Option.some value ∧
      above.lookup? name = held.or (environment.merged.enclosing? key path) ∧
      (above.lookup? name = held ↔
        held.isSome = true ∨
          ∀ outer inner entries, key = DottedName.within outer inner →
            environment.merged.find? outer = Option.some (.mapping entries) →
              Mapping.descend? entries (DottedName.segments inner ++ path) = none) := by
  intro above name held
  have own : above.lookup? key = Option.some value :=
    Table.lookup?_overwrite_self environment.merged key value
  have below : above.lookup? name = held.or (environment.merged.enclosing? key path) :=
    Table.lookup?_overwrite_within environment.merged key value path some plain
  refine ⟨own, below, ?_⟩
  rw [below, ← Table.enclosing?_eq_none_iff]
  cases held <;> cases environment.merged.enclosing? key path <;> simp

/-- A replaced mapping shows nothing of the names that stood below it. -/
theorem lookup?_push_one_mapping :
    let below := empty.push ⟨.defaults, [("db.port", .int 1), ("db.host", .text "old")]⟩
    let above := below.push ⟨.overrides, [("db", .mapping [(.text "host", .text "new")])]⟩
    above.lookup? (DottedName.within "db" (DottedName.ofSegments ["port"])) = none ∧
      above.lookup? (DottedName.within "db" (DottedName.ofSegments ["host"])) = some (.text "new") := by
  intro below above
  have port := lookup?_push_one below .overrides "db" (.mapping [(.text "host", .text "new")]) ["port"]
    (by simp) (by decide)
  have host := lookup?_push_one below .overrides "db" (.mapping [(.text "host", .text "new")]) ["host"]
    (by simp) (by decide)
  exact ⟨port.2.1, host.2.1⟩

/-- A path that the new value does not have is found in a mapping that a lower layer holds around the
name. -/
theorem lookup?_push_one_enclosed :
    let inner : Mapping := [(.text "c", .int 1)]
    let below := empty.push ⟨.defaults, [("a", .mapping [(.text "b", .mapping inner)])]⟩
    let above := below.push ⟨.overrides, [("a.b", .int 5)]⟩
    above.lookup? (DottedName.within "a.b" (DottedName.ofSegments ["c"])) = some (.int 1) ∧
      Mapping.descend? (Mapping.ofValue (.int 5)) ["c"] = none :=
  ⟨rfl, rfl⟩

end Environment

end DeployRecipe
