import DeployRecipe.Proofs.PlainPath

/-!
Paths that end in a name. The pieces before the name stay when the extension of the name is exchanged, and say
whether the path is absolute.
-/

namespace DeployRecipe

theorem Text.subset_join {separator : Char} {parts : List (List Char)} {part : List Char} (member : part ∈ parts) :
    part ⊆ Text.join separator parts := by
  induction parts with
  | nil => exact absurd member List.not_mem_nil
  | cons first rest inductionHypothesis =>
    intro character inside
    cases rest with
    | nil => rwa [List.mem_singleton.mp member] at inside
    | cons second others =>
      change character ∈ first ++ separator :: Text.join separator (second :: others)
      rw [List.mem_append, List.mem_cons]
      rcases List.mem_cons.mp member with rfl | later
      · exact .inl inside
      · exact .inr (.inr (inductionHypothesis later inside))

namespace Path

theorem subset_of_mem_pieces {path : Path} {piece : String} (member : piece ∈ path.pieces) :
    piece.toList ⊆ path.text.toList := by
  obtain ⟨part, inside, rfl⟩ := List.mem_map.mp member
  rw [String.toList_ofList, ← Text.join_split '/' path.text.toList]
  exact Text.subset_join inside

/-- The last piece of the path is a name. -/
structure EndsIn (path : Path) (before : List String) (last : String) : Prop where
  pieces : path.pieces = before ++ [last]
  named : IsName last

theorem isName_append {start : String} (slashless : '/' ∉ start.toList) (ending : String)
    (slashless' : '/' ∉ ending.toList) (long : 2 < ending.toList.length) : IsName (start ++ ending) := by
  have size (short : String) (same : start ++ ending = short) : 2 < short.toList.length := by
    rw [← same, String.toList_append, List.length_append]
    omega
  refine ⟨?_, fun same => absurd (size _ same) (by decide), by simp [slashless, slashless']⟩
  rw [isReal, decide_eq_true_eq]
  exact ⟨fun same => absurd (size _ same) (by decide), fun same => absurd (size _ same) (by decide)⟩

/-- What stands before the last dot, if the rest has none. -/
theorem stem_append {start : String} (some : start ≠ "") {extension : String} (plain : '.' ∉ extension.toList) :
    stem (start ++ "." ++ extension) = start := by
  have backwards : (start ++ "." ++ extension).toList.reverse =
      extension.toList.reverse ++ '.' :: start.toList.reverse := by simp
  have dotless : ∀ character ∈ extension.toList.reverse, decide (character ≠ '.') = true := by
    intro character member
    rw [decide_eq_true_eq]
    rintro rfl
    exact plain (List.mem_reverse.mp member)
  rw [stem, backwards, List.dropWhile_append_of_pos dotless, List.dropWhile_cons_of_neg (by simp)]
  simp [some]

namespace EndsIn

variable {path other : Path} {before : List String} {last last' : String}

theorem of_pathOf {location : Location} (names : ∀ name ∈ location ++ [last], IsName name) :
    (FileTree.pathOf (location ++ [last])).EndsIn ("" :: location) last :=
  ⟨FileTree.pieces_pathOf (by simp) names, names last (by simp)⟩

/-- A name below a directory is where the path ends. -/
theorem join (directory : Path) (named : IsName last) : ∃ before, (directory.join ⟨last⟩).EndsIn before last := by
  have piece := pieces_of_not_mem named.2.2
  rw [Path.join, if_neg (by simp [isAbsolute_of_slashless named.2.2])]
  split
  · rename_i open'
    rcases open' with empty | slash
    · refine ⟨[], ?_, named⟩
      rw [empty, String.empty_append]
      exact piece
    · obtain ⟨front, characters⟩ := List.getLast?_eq_some_iff.mp slash
      refine ⟨(Path.mk (String.ofList front)).pieces, ?_, named⟩
      have written : (directory.text ++ last).toList = front ++ '/' :: last.toList := by simp [characters]
      rw [pieces_append written, String.ofList_toList, piece]
  · refine ⟨directory.pieces, ?_, named⟩
    have written : (directory.text ++ "/" ++ last).toList = directory.text.toList ++ '/' :: last.toList := by simp
    rw [pieces_append written, String.ofList_toList, String.ofList_toList, piece]

/-- The text before the last name. -/
def front (before : List String) : String :=
  if before = [] then "" else String.ofList (Text.join '/' (before.map String.toList) ++ ['/'])

theorem text_eq (ends : path.EndsIn before last) : path.text = front before ++ last := by
  have split : Text.split '/' path.text.toList = before.map String.toList ++ [last.toList] := by
    simpa [Path.pieces, Function.comp_def] using congrArg (List.map String.toList) ends.pieces
  have joined := Text.join_split '/' path.text.toList
  rw [split] at joined
  rw [front]
  split
  · rename_i nothing
    subst nothing
    rw [String.empty_append]
    exact String.toList_inj.mp joined.symm
  · rename_i some
    rw [Text.join_append '/' _ _ (by simpa using some) (by simp)] at joined
    rw [← String.toList_inj, ← joined]
    simp [Text.join]

theorem last_ne_empty (ends : path.EndsIn before last) : last ≠ "" := by
  rintro rfl
  exact absurd ends.named.1 (by decide)

/-- A path is absolute if nothing stands before its first slash. -/
theorem isAbsolute_eq (ends : path.EndsIn before last) : path.isAbsolute = decide (before.head? = some "") := by
  cases before with
  | nil =>
    have text := ends.text_eq
    rw [front, if_pos rfl, String.empty_append] at text
    have slashless := text ▸ ends.named.2.2
    exact isAbsolute_of_slashless slashless
  | cons first rest =>
    rw [List.head?_cons, Bool.eq_iff_iff, decide_eq_true_eq, Option.some.injEq]
    constructor
    · intro absolute
      obtain ⟨_, same⟩ := pieces_of_isAbsolute absolute
      exact (List.cons.inj (ends.pieces.symm.trans same)).1
    · rintro rfl
      rw [isAbsolute, ends.text_eq, front, if_neg (List.cons_ne_nil _ _)]
      cases rest <;> simp [Text.join]

theorem origin_eq (ends : path.EndsIn before last) (ends' : other.EndsIn before last') (tree : FileTree) :
    tree.origin other = tree.origin path := by
  rw [FileTree.origin, FileTree.origin, ends.isAbsolute_eq, ends'.isAbsolute_eq]

theorem splitLast?_eq (ends : path.EndsIn before last) : path.splitLast? = some (before, last) := by
  rw [splitLast?, ends.pieces]
  cases before with
  | nil =>
    simp [ends.last_ne_empty]
  | cons first rest => simp [ends.named.1]

theorem withExtension_eq (ends : path.EndsIn before last) (extension : String) :
    path.withExtension extension = ofPieces (before ++ [stem last ++ "." ++ extension]) := by
  have dot : last ≠ "." := by
    rintro rfl
    exact absurd ends.named.1 (by decide)
  have named : path.fileName? = some last := by
    simp [fileName?, ends.splitLast?_eq, ends.named.2.1, dot]
  rw [Path.withExtension, ends.splitLast?_eq, named]

/-- With another extension the path still ends in a name, after the same pieces. -/
theorem withExtension (ends : path.EndsIn before last) (extension : String) (slashless : '/' ∉ extension.toList)
    (long : 1 < extension.toList.length) :
    (path.withExtension extension).EndsIn before (stem last ++ "." ++ extension) := by
  have named : IsName (stem last ++ "." ++ extension) := by
    rw [String.append_assoc]
    exact isName_append (stem_slashless ends.named.2.2) _ (by simpa using slashless)
      (by simpa using Nat.succ_le_of_lt long)
  refine ⟨?_, named⟩
  rw [ends.withExtension_eq]
  refine pieces_ofPieces (by simp) fun part member => ?_
  rcases List.mem_append.mp member with early | late
  · exact not_mem_pieces (ends.pieces.symm ▸ List.mem_append_left _ early)
  · rw [List.mem_singleton.mp late]
    exact named.2.2

/-- A path can be used if one can that only ends in a longer extension. -/
theorem checkPath_eq_ok {start extension extension' : String} (ends : path.EndsIn before (start ++ extension))
    (ends' : other.EndsIn before (start ++ extension')) (usable : FileTree.checkPath path = .ok ())
    (clean : '\x00' ∉ extension'.toList) (shorter : extension'.utf8ByteSize ≤ extension.utf8ByteSize) :
    FileTree.checkPath other = .ok () := by
  obtain ⟨_, clean', short⟩ := FileTree.checkPath_eq_ok.mp usable
  rw [ends.text_eq] at clean' short
  refine FileTree.checkPath_eq_ok.mpr ⟨fun empty => ?_, ?_, ?_⟩
  · have nothing := (ends'.text_eq.symm.trans empty)
    rw [String.append_eq_empty_iff] at nothing
    exact ends'.last_ne_empty nothing.2
  · rw [ends'.text_eq]
    simp only [String.toList_append, List.mem_append, not_or] at clean' ⊢
    exact ⟨clean'.1, clean'.2.1, clean⟩
  · rw [ends'.text_eq]
    simp only [String.utf8ByteSize_append] at short ⊢
    omega

end EndsIn

end Path

end DeployRecipe
