import DeployRecipe.Proofs.Environment.Recording
import Mathlib.Data.List.Lex
import Mathlib.Data.List.Sort
import Mathlib.Data.Prod.Lex
import Mathlib.Data.String.Basic

/-!
The digest of a record. The files stand in it in the order of their paths, so the order in which they were
recorded does not count. Its text can be taken apart again: the path of a line ends at the first NUL, and the hash
at the first line feed after that, which no hash holds. So records of different files give different texts.
-/

namespace DeployRecipe

theorem Text.append_separator_inj {separator : Char} {first other rest more : List Char} (plain : separator ∉ first)
    (plain' : separator ∉ other) (same : first ++ separator :: rest = other ++ separator :: more) :
    first = other ∧ rest = more := by
  have parts := congrArg (split separator) same
  rw [split_append_separator separator first rest plain, split_append_separator separator other more plain'] at parts
  obtain ⟨heads, tails⟩ := List.cons.inj parts
  have joined := congrArg (join separator) tails
  rw [join_split, join_split] at joined
  exact ⟨heads, joined⟩

namespace Path

/-- The place of a component in the order of components. -/
def Component.position : Component → Nat ×ₗ String
  | .name text => toLex (3, text)
  | component => toLex (component.rank, "")

theorem Component.le_iff (left right : Component) : left.le right = true ↔ left.position ≤ right.position := by
  cases left <;> cases right <;> simp [le, rank, position, Prod.Lex.toLex_le_toLex]

theorem Component.position_injective : Function.Injective position := by
  intro left right same
  cases left <;> cases right <;> simp_all [position, rank]

theorem positions_cons_le_iff {first other : Nat ×ₗ String} {rest more : List (Nat ×ₗ String)} :
    first :: rest ≤ other :: more ↔ first < other ∨ first = other ∧ rest ≤ more := by
  rw [le_iff_lt_or_eq, List.cons_lt_cons_iff, le_iff_lt_or_eq (a := rest)]
  simp [and_or_left, or_assoc]

/-- The place of a path in the order of paths. -/
def position (path : Path) : List (Nat ×ₗ String) :=
  path.components.map Component.position

theorem componentsLe_iff (lefts rights : List Component) :
    componentsLe lefts rights = true ↔ lefts.map Component.position ≤ rights.map Component.position := by
  fun_induction componentsLe lefts rights with
  | case1 rights => exact iff_of_true rfl (not_lt.mp (List.not_lt_nil _))
  | case2 left lefts => simp
  | case3 lefts left rights inductionHypothesis =>
    rw [inductionHypothesis, List.map_cons, List.map_cons, positions_cons_le_iff]
    simp
  | case4 left lefts right rights differs =>
    have apart : left.position ≠ right.position := fun same => differs (Component.position_injective same)
    rw [Component.le_iff, List.map_cons, List.map_cons, positions_cons_le_iff, le_iff_lt_or_eq]
    simp [apart]

theorem le_iff (left right : Path) : left.le right = true ↔ left.position ≤ right.position :=
  componentsLe_iff _ _

theorem same_iff_position (left right : Path) : left.same right = true ↔ left.position = right.position := by
  rw [same_iff, position, position, (List.map_injective_iff.mpr Component.position_injective).eq_iff]

end Path

/-! A text is hashed by its bytes, and its hash is written without losing any of them. -/

theorem toList_eq_data (bytes : ByteArray) : bytes.toList = bytes.data.toList := by
  have steps (index : Nat) (before : List UInt8) :
      ByteArray.toList.loop bytes index before = before.reverse ++ bytes.data.toList.drop index := by
    fun_induction ByteArray.toList.loop bytes index before with
    | case1 index before inside inductionHypothesis =>
      have member : index < bytes.data.toList.length := by simpa using inside
      rw [inductionHypothesis, List.drop_eq_getElem_cons member]
      simp [ByteArray.get!, inside]
    | case2 index before outside =>
      rw [List.drop_eq_nil_of_le (by simpa using outside), List.append_nil]
  rw [ByteArray.toList, steps]
  simp

theorem toUTF8_toList_inj {text other : String} : text.toUTF8.toList = other.toUTF8.toList ↔ text = other := by
  rw [toList_eq_data, toList_eq_data, Array.toList_inj, ← ByteArray.ext_iff]
  exact String.toByteArray_inj

theorem digitChar_inj : ∀ left < 16, ∀ right < 16, Nat.digitChar left = Nat.digitChar right → left = right := by
  decide

theorem hexadecimal_injective : Function.Injective hexadecimal := by
  intro bytes others same
  rw [hexadecimal, hexadecimal, String.ofList_inj] at same
  induction bytes generalizing others with
  | nil => cases others <;> simp_all
  | cons byte rest inductionHypothesis =>
    cases others with
    | nil => simp at same
    | cons other more =>
      simp only [List.flatMap_cons, List.cons_append, List.nil_append, List.cons.injEq] at same
      obtain ⟨high, low, rests⟩ := same
      have bound := byte.toNat_lt
      have bound' := other.toNat_lt
      have highs := digitChar_inj _ (by omega) _ (by omega) high
      have lows := digitChar_inj _ (by omega) _ (by omega) low
      have bytesSame : byte = other := UInt8.toNat_inj.mp (by omega)
      rw [bytesSame, inductionHypothesis rests]

theorem hashText_eq_iff (text other : String) :
    hashText text = hashText other ↔ Blake3.hash text.toUTF8.toList = Blake3.hash other.toUTF8.toList := by
  rw [hashText, hashText, String.append_right_inj, hexadecimal_injective.eq_iff]

theorem lineFeed_not_mem_hashText (text : String) : '\n' ∉ (hashText text).toList := by
  have plain : ∀ digit < 16, Nat.digitChar digit ≠ '\n' := by decide
  rw [hashText, String.toList_append, List.mem_append, not_or]
  refine ⟨by decide, fun member => ?_⟩
  simp only [hexadecimal, String.toList_ofList, List.mem_flatMap, List.mem_cons, List.not_mem_nil, or_false] at member
  obtain ⟨byte, -, high | low⟩ := member
  · exact plain _ (by have := byte.toNat_lt; omega) high.symm
  · exact plain _ (by omega) low.symm

namespace Sources

/-- The record of files that are read one after the other. -/
def ofRecords (records : List (Path × String)) : Sources :=
  records.foldl (fun sources file => sources.record file.1 file.2) []

/-- The bytes that the digest is the hash of. -/
def bytes (sources : Sources) : List UInt8 :=
  sources.manifest.toUTF8.toList

/-- No path holds a NUL. -/
def WithoutNul (sources : Sources) : Prop :=
  ∀ source ∈ sources, '\x00' ∉ source.path.text.toList

instance (sources : Sources) : Decidable sources.WithoutNul :=
  inferInstanceAs (Decidable (∀ source ∈ sources, '\x00' ∉ source.path.text.toList))

/-- The two records hold the same pairs of a path, as it is written, and a hash. -/
def SamePairs (sources others : Sources) : Prop :=
  ∀ source, source ∈ sources ↔ source ∈ others

/-- Each hash is the one of some text. -/
def Hashed (sources : Sources) : Prop :=
  ∀ source ∈ sources, ∃ text, source.hash = hashText text

theorem Hashed.nil : Hashed [] := nofun

theorem Hashed.record {sources : Sources} (hashed : sources.Hashed) (path : Path) (text : String) :
    (sources.record path text).Hashed := by
  rw [Sources.record]
  split
  · exact hashed
  · intro source member
    rcases List.mem_append.mp member with old | new
    · exact hashed source old
    · obtain rfl := List.mem_singleton.mp new
      exact ⟨text, rfl⟩

/-- Recording keeps what holds of the empty record and is kept by each file. -/
theorem ofRecords_keeps (Holds : Sources → Prop) (start : Holds [])
    (step : ∀ sources path text, Holds sources → Holds (sources.record path text)) (records : List (Path × String)) :
    Holds (ofRecords records) := by
  have steps (sources : Sources) (there : Holds sources) :
      Holds (records.foldl (fun sources file => sources.record file.1 file.2) sources) := by
    induction records generalizing sources with
    | nil => exact there
    | cons file rest inductionHypothesis => exact inductionHypothesis _ (step _ _ _ there)
  exact steps [] start

theorem ofRecords_distinct (records : List (Path × String)) : (ofRecords records).Distinct :=
  ofRecords_keeps Distinct List.Pairwise.nil (fun _ path text there => there.record path text) records

theorem ofRecords_hashed (records : List (Path × String)) : (ofRecords records).Hashed :=
  ofRecords_keeps Hashed Hashed.nil (fun _ path text there => there.record path text) records

/-- Of files with different paths, all are recorded. -/
theorem ofRecords_of_distinct {records : List (Path × String)}
    (distinct : records.Pairwise fun file other => file.1.same other.1 = false) :
    ofRecords records = records.map fun file => ⟨file.1, hashText file.2⟩ := by
  have steps (sources : Sources) (new : ∀ file ∈ records, sources.has file.1 = false) :
      records.foldl (fun sources file => sources.record file.1 file.2) sources =
        sources ++ records.map fun file => ⟨file.1, hashText file.2⟩ := by
    induction records generalizing sources with
    | nil => exact (List.append_nil sources).symm
    | cons file rest inductionHypothesis =>
      obtain ⟨first, later⟩ := List.pairwise_cons.mp distinct
      have free := new file List.mem_cons_self
      have further : ∀ other ∈ rest, (sources.record file.1 file.2).has other.1 = false := by
        intro other member
        rw [← Bool.not_eq_true, has_record, not_or, Bool.not_eq_true, Bool.not_eq_true]
        exact ⟨new other (List.mem_cons_of_mem _ member), first other member⟩
      rw [List.foldl_cons, inductionHypothesis later _ further, Sources.record, if_neg (by simp [free])]
      simp
  exact steps [] fun _ _ => rfl

/-- The files in the order of their paths. -/
def sorted (sources : Sources) : Sources :=
  sources.mergeSort fun left right => left.path.le right.path

theorem sorted_perm (sources : Sources) : sources.sorted.Perm sources :=
  List.mergeSort_perm _ _

theorem sorted_pairwise (sources : Sources) :
    sources.sorted.Pairwise fun left right => left.path.position ≤ right.path.position := by
  refine (List.pairwise_mergeSort ?_ ?_ sources).imp fun le => (Path.le_iff _ _).mp le
  · intro first second third one two
    rw [Path.le_iff] at one two ⊢
    exact one.trans two
  · intro left right
    rw [Bool.or_eq_true, Path.le_iff, Path.le_iff]
    exact le_total _ _

theorem sorted_eq_of_perm {sources others : Sources} (distinct : sources.Distinct) (perm : sources.Perm others) :
    sources.sorted = others.sorted := by
  have sortedPerm : sources.sorted.Perm others.sorted :=
    (sorted_perm sources).trans (perm.trans (sorted_perm others).symm)
  refine List.Perm.eq_of_pairwise ?_ (sorted_pairwise sources) (sorted_pairwise others) sortedPerm
  intro source other member member' below above
  have there : source ∈ sources := (sorted_perm sources).mem_iff.mp member
  have there' : other ∈ sources := perm.mem_iff.mpr ((sorted_perm others).mem_iff.mp member')
  exact distinct.eq there there' ((Path.same_iff_position _ _).mpr (le_antisymm below above))

theorem Distinct.nodup {sources : Sources} (distinct : sources.Distinct) : sources.Nodup := by
  refine distinct.imp fun {source other} apart => ?_
  rintro rfl
  rw [Path.same_self] at apart
  cases apart

theorem SamePairs.perm {sources others : Sources} (same : SamePairs sources others) (distinct : sources.Distinct)
    (distinct' : others.Distinct) : sources.Perm others :=
  (List.perm_ext_iff_of_nodup distinct.nodup distinct'.nodup).mpr same

theorem toList_manifest (sources : Sources) :
    sources.manifest.toList = sources.sorted.flatMap fun source =>
      source.path.text.toList ++ '\x00' :: (source.hash.toList ++ '\n' :: []) := by
  rw [manifest, String.toList_join, List.flatMap_map]
  refine List.flatMap_congr fun source _ => ?_
  simp [line]

/-- The lines of files are the same only if the files are. -/
theorem eq_of_lines {sources others : Sources} (plain : sources.WithoutNul) (plain' : others.WithoutNul)
    (hashed : sources.Hashed) (hashed' : others.Hashed)
    (same : (sources.flatMap fun source => source.path.text.toList ++ '\x00' :: (source.hash.toList ++ '\n' :: [])) =
      others.flatMap fun source => source.path.text.toList ++ '\x00' :: (source.hash.toList ++ '\n' :: [])) :
    sources = others := by
  induction sources generalizing others with
  | nil => cases others <;> simp_all
  | cons source rest inductionHypothesis =>
    cases others with
    | nil => simp at same
    | cons other more =>
      simp only [List.flatMap_cons, List.append_assoc, List.cons_append, List.nil_append] at same
      obtain ⟨path, after⟩ := Text.append_separator_inj (plain source List.mem_cons_self)
        (plain' other List.mem_cons_self) same
      obtain ⟨text, hash⟩ := hashed source List.mem_cons_self
      obtain ⟨text', hash'⟩ := hashed' other List.mem_cons_self
      obtain ⟨hashes, lines⟩ := Text.append_separator_inj (hash ▸ lineFeed_not_mem_hashText text)
        (hash' ▸ lineFeed_not_mem_hashText text') after
      have first : source = other := by
        obtain ⟨⟨name⟩, value⟩ := source
        obtain ⟨⟨name'⟩, value'⟩ := other
        obtain rfl : name = name' := String.toList_inj.mp path
        obtain rfl : value = value' := String.toList_inj.mp hashes
        rfl
      rw [first, inductionHypothesis (fun source member => plain source (List.mem_cons_of_mem _ member))
        (fun source member => plain' source (List.mem_cons_of_mem _ member))
        (fun source member => hashed source (List.mem_cons_of_mem _ member))
        (fun source member => hashed' source (List.mem_cons_of_mem _ member)) lines]

theorem bytes_eq_of_perm {sources others : Sources} (distinct : sources.Distinct) (perm : sources.Perm others) :
    sources.bytes = others.bytes := by
  have same : sources.manifest = others.manifest :=
    congrArg (fun files : Sources => String.join (files.map line)) (sorted_eq_of_perm distinct perm)
  rw [bytes, bytes, same]

theorem bytes_eq_iff {sources others : Sources} (distinct : sources.Distinct) (distinct' : others.Distinct)
    (plain : sources.WithoutNul) (plain' : others.WithoutNul) (hashed : sources.Hashed) (hashed' : others.Hashed) :
    sources.bytes = others.bytes ↔ SamePairs sources others := by
  refine ⟨fun same => ?_, fun same => bytes_eq_of_perm distinct (same.perm distinct distinct')⟩
  have lines := congrArg String.toList (toUTF8_toList_inj.mp same)
  rw [toList_manifest, toList_manifest] at lines
  have sortedSame := eq_of_lines (fun source member => plain source ((sorted_perm _).mem_iff.mp member))
    (fun source member => plain' source ((sorted_perm _).mem_iff.mp member))
    (fun source member => hashed source ((sorted_perm _).mem_iff.mp member))
    (fun source member => hashed' source ((sorted_perm _).mem_iff.mp member)) lines
  intro source
  rw [← (sorted_perm sources).mem_iff, sortedSame, (sorted_perm others).mem_iff]

theorem digest_eq_iff (sources others : Sources) :
    sources.digest = others.digest ↔ Blake3.hash sources.bytes = Blake3.hash others.bytes :=
  hashText_eq_iff _ _

end Sources

end DeployRecipe
