import DeployRecipe.DottedName
import Mathlib.Data.List.TakeWhile
import Mathlib.Tactic

/-!
Dotted names as lists of segments. A name within another one has the segments of the outer name and then
at least one more, so being within is a strict order, and the beginnings of a name are known.
-/

namespace DeployRecipe

/-- A separator in a text splits what stands before it from what stands after it. -/
theorem Text.split_append (separator : Char) (first rest : List Char) :
    Text.split separator (first ++ separator :: rest) =
      Text.split separator first ++ Text.split separator rest := by
  induction first with
  | nil => simp [Text.split]
  | cons character others inductionHypothesis =>
    by_cases same : character = separator
    · simp [Text.split, same, inductionHypothesis]
    · cases parts : Text.split separator others with
      | nil => exact absurd parts (Text.split_ne_nil separator others)
      | cons part more =>
        rw [parts] at inductionHypothesis
        simp [Text.split, same, inductionHypothesis, parts]

/-- What holds no separator goes on with the last part. -/
theorem Text.split_append_of_not_mem {separator : Char} (text : List Char) {more : List Char} (plain : separator ∉ more) :
    ∃ before last, Text.split separator text = before ++ [last] ∧
      Text.split separator (text ++ more) = before ++ [last ++ more] := by
  induction text with
  | nil => exact ⟨[], [], rfl, Text.split_of_not_mem separator more plain⟩
  | cons character rest inductionHypothesis =>
    obtain ⟨before, last, short, long⟩ := inductionHypothesis
    by_cases same : character = separator
    · exact ⟨[] :: before, last, by simp [Text.split, same, short], by simp [Text.split, same, long]⟩
    · cases before with
      | nil => exact ⟨[], character :: last, by simp_all [Text.split], by simp_all [Text.split]⟩
      | cons first before =>
        exact ⟨(character :: first) :: before, last, by simp_all [Text.split], by simp_all [Text.split]⟩

theorem Text.not_mem_of_mem_split {separator : Char} {text part : List Char}
    (member : part ∈ Text.split separator text) : separator ∉ part := by
  induction text generalizing part with
  | nil =>
    simp only [Text.split, List.mem_singleton] at member
    simp [member]
  | cons character rest inductionHypothesis =>
    by_cases same : character = separator
    · simp only [Text.split, same, if_true, List.mem_cons] at member
      rcases member with rfl | later
      · simp
      · exact inductionHypothesis later
    · cases parts : Text.split separator rest with
      | nil => exact absurd parts (Text.split_ne_nil separator rest)
      | cons first others =>
        rw [parts] at inductionHypothesis
        simp only [Text.split, same, if_false, parts, List.mem_cons] at member
        rcases member with rfl | later
        · have plain := inductionHypothesis (List.mem_cons_self)
          simp [plain, Ne.symm same]
        · exact inductionHypothesis (List.mem_cons_of_mem _ later)

theorem Text.join_append (separator : Char) (first rest : List (List Char)) (some : first ≠ [])
    (more : rest ≠ []) :
    Text.join separator (first ++ rest) =
      Text.join separator first ++ separator :: Text.join separator rest := by
  induction first with
  | nil => exact absurd rfl some
  | cons part others inductionHypothesis =>
    cases others with
    | nil =>
      obtain ⟨next, further, rfl⟩ := List.exists_cons_of_ne_nil more
      rfl
    | cons second others =>
      have tail := inductionHypothesis (by simp)
      simp only [List.cons_append] at tail
      simp only [List.cons_append, Text.join, tail, List.append_assoc]

namespace DottedName

theorem segments_ne_nil (name : String) : segments name ≠ [] := by
  simp [segments, Text.split_ne_nil]

theorem not_mem_of_mem_segments {name segment : String} (member : segment ∈ segments name) :
    '.' ∉ segment.toList := by
  obtain ⟨part, inside, rfl⟩ := List.mem_map.mp member
  simpa using Text.not_mem_of_mem_split inside

/-- Segments without dots are found again in their name. -/
theorem segments_ofSegments (path : List String) (some : path ≠ [])
    (plain : ∀ segment ∈ path, '.' ∉ segment.toList) : segments (ofSegments path) = path := by
  have characters : Text.split '.' (Text.join '.' (path.map String.toList)) =
      path.map String.toList := by
    apply Text.split_join
    · simpa using some
    · simpa using plain
  simp [segments, ofSegments, characters, Function.comp_def]

/-- The first segment of a name is its head. -/
theorem head?_segments (name : String) : (segments name).head? = some (head name) := by
  have first (text : List Char) :
      (Text.split '.' text).head? = some (text.takeWhile (· ≠ '.')) := by
    induction text with
    | nil => rfl
    | cons character rest inductionHypothesis =>
      by_cases dot : character = '.'
      · simp [Text.split, dot]
      · cases parts : Text.split '.' rest with
        | nil => exact absurd parts (Text.split_ne_nil '.' rest)
        | cons part others =>
          rw [parts] at inductionHypothesis
          simp_all [Text.split]
  rw [segments, List.head?_map, first, head]
  rfl

theorem head_of_not_dotted {name : String} (plain : isDotted name = false) : head name = name := by
  have free : ∀ character ∈ name.toList, character ≠ '.' := by
    rintro character member rfl
    rw [isDotted, List.contains_iff_mem.mpr member] at plain
    cases plain
  rw [head, List.takeWhile_eq_self_iff.mpr (by simpa using free), String.ofList_toList]

/-- A name is its own only segment, or it has more than its head. -/
theorem segments_cases (name : String) :
    segments name = [name] ∧ head name = name ∨ ∃ next rest, segments name = head name :: next :: rest := by
  have first := head?_segments name
  obtain ⟨start, others, parts⟩ := List.exists_cons_of_ne_nil (segments_ne_nil name)
  rw [parts, List.head?_cons, Option.some.injEq] at first
  subst first
  cases others with
  | nil =>
    have whole : ofSegments (segments name) = head name := by
      rw [parts]
      simp [ofSegments, Text.join]
    rw [ofSegments_segments] at whole
    exact Or.inl ⟨by rw [parts, ← whole], whole.symm⟩
  | cons next rest => exact Or.inr ⟨next, rest, parts⟩

/-- A name inside another one has the segments of both. -/
theorem segments_within (outer inner : String) :
    segments (within outer inner) = segments outer ++ segments inner := by
  simp [segments, within, Text.split_append]

theorem ofSegments_append (first rest : List String) (some : first ≠ []) (more : rest ≠ []) :
    ofSegments (first ++ rest) = within (ofSegments first) (ofSegments rest) := by
  simp [ofSegments, within, Text.join_append, some, more]

theorem toList_within (outer inner : String) :
    (within outer inner).toList = outer.toList ++ '.' :: inner.toList := by
  simp [within]

theorem remainder?_eq_some_iff (outer longer inner : String) :
    remainder? outer longer = some inner ↔ longer = within outer inner := by
  simp only [remainder?, Option.map_eq_some_iff, List.isPrefixOf?_eq_some_iff_append_eq]
  constructor
  · rintro ⟨rest, start, rfl⟩
    apply String.toList_inj.mp
    simpa [toList_within] using start.symm
  · rintro rfl
    exact ⟨inner.toList, by simp [toList_within], by simp⟩

theorem isWithin_iff (longer outer : String) :
    isWithin longer outer = true ↔ ∃ inner, longer = within outer inner := by
  simp [isWithin, Option.isSome_iff_exists, remainder?_eq_some_iff]

@[simp] theorem isWithin_within (outer inner : String) : isWithin (within outer inner) outer = true :=
  (isWithin_iff _ _).mpr ⟨inner, rfl⟩

theorem isWithin_trans {inner middle outer : String} (first : isWithin inner middle = true)
    (second : isWithin middle outer = true) : isWithin inner outer = true := by
  obtain ⟨rest, rfl⟩ := (isWithin_iff _ _).mp first
  obtain ⟨more, rfl⟩ := (isWithin_iff _ _).mp second
  rw [isWithin_iff]
  refine ⟨within more rest, ?_⟩
  apply String.toList_inj.mp
  simp [toList_within]

/-- The characters of a name are fewer than those of a name within it. -/
theorem length_of_isWithin {inner outer : String} (inside : isWithin inner outer = true) :
    outer.toList.length < inner.toList.length := by
  obtain ⟨rest, rfl⟩ := (isWithin_iff _ _).mp inside
  rw [toList_within]
  simp only [List.length_append, List.length_cons]
  omega

@[simp] theorem isWithin_self (name : String) : isWithin name name = false := by
  by_contra inside
  have shorter := length_of_isWithin (by simpa using inside)
  omega

theorem isWithin_asymm {first second : String} (inside : isWithin first second = true) :
    isWithin second first = false := by
  by_contra back
  have one := length_of_isWithin inside
  have other := length_of_isWithin (by simpa using back)
  omega

/-- A name whose segments begin with those of another one is that name or within it. -/
theorem eq_or_isWithin_of_prefix {outer longer : String} (leads : segments outer <+: segments longer) :
    outer = longer ∨ isWithin longer outer = true := by
  obtain ⟨rest, same⟩ := leads
  cases rest with
  | nil =>
    left
    rw [← ofSegments_segments outer, ← ofSegments_segments longer, ← same, List.append_nil]
  | cons next more =>
    right
    rw [← ofSegments_segments longer, ← same,
      ofSegments_append _ _ (segments_ne_nil outer) (List.cons_ne_nil next more), ofSegments_segments outer]
    exact isWithin_within _ _

/-- Two names around the same name are equal, or one is within the other. -/
theorem isWithin_or_of_isWithin {inner first second : String} (one : isWithin inner first = true)
    (other : isWithin inner second = true) :
    first = second ∨ isWithin first second = true ∨ isWithin second first = true := by
  obtain ⟨rest, rfl⟩ := (isWithin_iff _ _).mp one
  obtain ⟨more, same⟩ := (isWithin_iff _ _).mp other
  have characters := congrArg String.toList same
  rw [toList_within, toList_within] at characters
  rcases List.append_eq_append_iff.mp characters with ⟨part, long, short⟩ | ⟨part, long, short⟩
  · cases part with
    | nil =>
      left
      apply String.toList_inj.mp
      simpa using long.symm
    | cons character further =>
      right; right
      rw [isWithin_iff]
      simp only [List.cons_append, List.cons.injEq] at short
      refine ⟨String.ofList further, ?_⟩
      apply String.toList_inj.mp
      simp [toList_within, long, ← short.1]
  · cases part with
    | nil =>
      left
      apply String.toList_inj.mp
      simpa using long
    | cons character further =>
      right; left
      rw [isWithin_iff]
      simp only [List.cons_append, List.cons.injEq] at short
      refine ⟨String.ofList further, ?_⟩
      apply String.toList_inj.mp
      simp [toList_within, long, ← short.1]

/-- A name without a dot is its own only segment. -/
theorem segments_of_not_dotted {name : String} (plain : isDotted name = false) : segments name = [name] := by
  have free : ∀ segment ∈ [name], '.' ∉ segment.toList := by
    intro segment member
    obtain rfl := List.mem_singleton.mp member
    simpa [isDotted] using plain
  have whole : ofSegments [name] = name := by simp [ofSegments, Text.join]
  have parts := segments_ofSegments [name] (List.cons_ne_nil _ _) free
  rwa [whole] at parts

theorem isDotted_within (outer inner : String) : isDotted (within outer inner) = true := by
  simp [isDotted, toList_within]

/-- Only dotted names are within others. -/
theorem isWithin_of_not_dotted {longer : String} (plain : isDotted longer = false) (outer : String) :
    isWithin longer outer = false := by
  by_contra inside
  obtain ⟨inner, rfl⟩ := (isWithin_iff _ _).mp (by simpa using inside)
  rw [isDotted_within] at plain
  cases plain

theorem within_inj {outer first second : String} : within outer first = within outer second ↔ first = second := by
  rw [← String.toList_inj, toList_within, toList_within]
  simp [String.toList_inj]

theorem within_within (outer middle inner : String) :
    within (within outer middle) inner = within outer (within middle inner) := by
  apply String.toList_inj.mp
  simp [toList_within]

/-- Two names inside the same name are within each other as they are without it. -/
theorem isWithin_within_within (outer longer inner : String) :
    isWithin (within outer longer) (within outer inner) = isWithin longer inner := by
  rw [Bool.eq_iff_iff, isWithin_iff, isWithin_iff]
  simp only [within_within, within_inj]

/-- A name within another one begins as that one does. -/
theorem head_of_isWithin {longer outer : String} (inside : isWithin longer outer = true) :
    head longer = head outer := by
  obtain ⟨inner, rfl⟩ := (isWithin_iff _ _).mp inside
  have first := head?_segments (within outer inner)
  rw [segments_within, List.head?_append, head?_segments, Option.some_or] at first
  exact (Option.some.inj first).symm

end DottedName

end DeployRecipe
