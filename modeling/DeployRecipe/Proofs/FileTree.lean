import DeployRecipe.Environment.Files
import DeployRecipe.Proofs.DottedName
import DeployRecipe.Proofs.Running
import Mathlib.Data.List.Flatten

/-!
Paths with the same components lead to the same place if they lead anywhere. An absolute path that was made
from a place leads there whenever some path with its components does.
-/

namespace DeployRecipe

namespace Path

/-- The pieces of a path that lead on. -/
def moves (path : Path) : List String :=
  path.pieces.filter isReal

/-- The piece that a component stands for. -/
def Component.piece? : Component → Option String
  | .root | .current => none
  | .parent => some ".."
  | .name text => some text

theorem Component.piece?_ofPiece (piece : String) : (ofPiece piece).piece? = some piece := by
  rw [ofPiece]
  split
  · rename_i parent
    rw [parent]
    rfl
  · rfl

theorem exists_pieces (path : Path) : ∃ first rest, path.pieces = first :: rest := by
  refine List.exists_cons_of_ne_nil ?_
  simp [pieces, Text.split_ne_nil]

theorem pieces_of_isAbsolute {path : Path} (absolute : path.isAbsolute = true) :
    ∃ rest, path.pieces = "" :: rest := by
  rw [isAbsolute, decide_eq_true_eq] at absolute
  cases characters : path.text.toList with
  | nil =>
    rw [characters] at absolute
    cases absolute
  | cons first rest =>
    rw [characters, List.head?_cons, Option.some.injEq] at absolute
    refine ⟨(Text.split '/' rest).map String.ofList, ?_⟩
    rw [pieces, characters, absolute, Text.split, if_pos rfl]
    rfl

/-- The components tell the pieces that lead on. -/
theorem filterMap_components (path : Path) : path.components.filterMap Component.piece? = path.moves := by
  have named (names : List String) :
      (names.map Component.ofPiece).filterMap Component.piece? = names := by
    induction names with
    | nil => rfl
    | cons name rest inductionHypothesis =>
      rw [List.map_cons, List.filterMap_cons, Component.piece?_ofPiece, inductionHypothesis]
  obtain ⟨first, rest, parts⟩ := path.exists_pieces
  rw [components, moves, parts]
  dsimp only
  rw [List.filterMap_append, named, List.filter_cons]
  by_cases absolute : path.isAbsolute = true
  · obtain ⟨others, same⟩ := pieces_of_isAbsolute absolute
    obtain ⟨rfl, rfl⟩ := List.cons.inj (parts.symm.trans same)
    rw [if_pos absolute]
    rfl
  · rw [if_neg absolute]
    by_cases current : first = "."
    · simp [current, Component.piece?, isReal]
    · by_cases empty : first = ""
      · simp [empty, isReal]
      · simp [current, empty, Component.piece?_ofPiece, isReal]

theorem root_mem_components_iff (path : Path) : .root ∈ path.components ↔ path.isAbsolute = true := by
  have named (names : List String) : Component.root ∉ names.map Component.ofPiece := by
    intro member
    obtain ⟨name, _, same⟩ := List.mem_map.mp member
    have piece := Component.piece?_ofPiece name
    rw [same] at piece
    cases piece
  obtain ⟨first, rest, parts⟩ := path.exists_pieces
  rw [components, parts]
  dsimp only
  rw [List.mem_append, or_iff_left (named _)]
  by_cases absolute : path.isAbsolute = true
  · simp [absolute]
  · rw [if_neg absolute]
    refine iff_of_false ?_ absolute
    split
    · simp
    · split
      · simp
      · exact named [first]

theorem same_iff (left right : Path) : left.same right = true ↔ left.components = right.components := by
  simp [same]

theorem same_symm {left right : Path} (same : left.same right = true) : right.same left = true :=
  (same_iff _ _).mpr ((same_iff _ _).mp same).symm

theorem same_trans {left middle right : Path} (one : left.same middle = true)
    (other : middle.same right = true) : left.same right = true :=
  (same_iff _ _).mpr (((same_iff _ _).mp one).trans ((same_iff _ _).mp other))

@[simp] theorem same_self (path : Path) : path.same path = true :=
  (same_iff _ _).mpr rfl

theorem moves_of_same {left right : Path} (same : left.same right = true) :
    left.moves = right.moves ∧ left.isAbsolute = right.isAbsolute := by
  have components := (same_iff _ _).mp same
  refine ⟨?_, ?_⟩
  · rw [← filterMap_components, components, filterMap_components]
  · rw [Bool.eq_iff_iff, ← root_mem_components_iff, components, root_mem_components_iff]

/-- A name that can stand in a directory. -/
def IsName (name : String) : Prop :=
  isReal name = true ∧ name ≠ ".." ∧ '/' ∉ name.toList

theorem toList_of_isAbsolute {path : Path} (absolute : path.isAbsolute = true) :
    path.text.toList = path.pieces.tail.flatMap fun piece => '/' :: piece.toList := by
  have joined (parts : List (List Char)) :
      Text.join '/' ([] :: parts) = parts.flatMap fun part => '/' :: part := by
    induction parts with
    | nil => rfl
    | cons part rest inductionHypothesis =>
      rw [List.flatMap_cons, ← inductionHypothesis]
      cases rest <;> simp [Text.join]
  obtain ⟨rest, parts⟩ := pieces_of_isAbsolute absolute
  have split : Text.split '/' path.text.toList = [] :: rest.map String.toList := by
    have lists := congrArg (List.map String.toList) parts
    simpa [pieces, Function.comp_def] using lists
  rw [← Text.join_split '/' path.text.toList, split, joined, parts, List.tail_cons, List.flatMap_map]

end Path

namespace FileTree

/-- The directory from which relative paths start has names that can stand in a directory, as every directory
of a file system has. -/
def Proper (tree : FileTree) : Prop :=
  ∀ name ∈ tree.workingDirectory, Path.IsName name

variable {tree : FileTree}

/-- Where a piece leads from a location, if it leads anywhere. -/
def onward (location : Location) (piece : String) : Location :=
  if Path.isReal piece = true then if piece = ".." then location.dropLast else location ++ [piece] else location

section Walk

variable {location place : Location} {piece : String} {pieces : List String}

theorem onward_of_idle (idle : Path.isReal piece ≠ true) : onward location piece = location := if_neg idle

theorem onward_of_real (real : Path.isReal piece = true) (down : piece ≠ "..") :
    onward location piece = location ++ [piece] := by
  rw [onward, if_pos real, if_neg down]

/-- A walk takes its first piece from a directory, and goes on where the piece leads. -/
theorem walk_cons_eq_ok {rest : List String} :
    tree.walk location (piece :: rest) = .ok place ↔
      tree.node? location = some .directory ∧
        (Path.isReal piece = true → piece ≠ ".." →
          piece.utf8ByteSize ≤ nameLimit ∧ (tree.node? (location ++ [piece])).isSome = true) ∧
        tree.walk (onward location piece) rest = .ok place := by
  rw [walk]
  cases stands : tree.node? location with
  | none => simp
  | some node =>
    cases node with
    | file content => simp
    | directory =>
      dsimp only
      by_cases real : Path.isReal piece = true
      · have idle : ¬ (piece = "" ∨ piece = ".") := by simpa [Path.isReal] using real
        rw [if_neg idle]
        by_cases up : piece = ".."
        · rw [if_pos up, onward, if_pos real, if_pos up]
          simp [up]
        · rw [if_neg up, onward_of_real real up]
          by_cases long : nameLimit < piece.utf8ByteSize
          · simp [real, up, long]
          · rw [if_neg long]
            have short : piece.utf8ByteSize ≤ nameLimit := Nat.le_of_not_lt long
            cases (tree.node? (location ++ [piece])).isSome <;> simp [real, up, short]
      · have idle : piece = "" ∨ piece = "." := by simpa [Path.isReal, imp_iff_not_or] using real
        simp [idle, onward_of_idle, real]

/-- Where a walk leads does not depend on the tree. -/
theorem walk_eq_foldl (success : tree.walk location pieces = .ok place) : place = pieces.foldl onward location := by
  induction pieces generalizing location with
  | nil => exact (Except.ok.inj success).symm
  | cons piece rest inductionHypothesis =>
    rw [walk_cons_eq_ok] at success
    exact inductionHypothesis success.2.2

/-- Pieces that do not lead on can be left out of a walk. -/
theorem walk_filter (success : tree.walk location pieces = .ok place) :
    tree.walk location (pieces.filter Path.isReal) = .ok place := by
  induction pieces generalizing location with
  | nil => exact success
  | cons piece rest inductionHypothesis =>
    rw [walk_cons_eq_ok] at success
    obtain ⟨directory, leads, further⟩ := success
    by_cases real : Path.isReal piece = true
    · rw [List.filter_cons_of_pos real, walk_cons_eq_ok]
      exact ⟨directory, leads, inductionHypothesis further⟩
    · rw [List.filter_cons_of_neg real]
      rw [onward_of_idle real] at further
      exact inductionHypothesis further

/-- A walk leads to names that can stand in a directory. -/
theorem walk_names (success : tree.walk location pieces = .ok place) (names : ∀ name ∈ location, Path.IsName name)
    (plain : ∀ piece ∈ pieces, '/' ∉ piece.toList) : ∀ name ∈ place, Path.IsName name := by
  induction pieces generalizing location with
  | nil =>
    obtain rfl := Except.ok.inj success
    exact names
  | cons piece rest inductionHypothesis =>
    obtain ⟨slashless, others⟩ := List.forall_mem_cons.mp plain
    rw [walk_cons_eq_ok] at success
    refine inductionHypothesis success.2.2 (fun name member => ?_) others
    rw [onward] at member
    split at member
    · rename_i real
      split at member
      · exact names name (List.mem_of_mem_dropLast member)
      · rename_i down
        rcases List.mem_append.mp member with old | new
        · exact names name old
        · obtain rfl := List.mem_singleton.mp new
          exact ⟨real, down, slashless⟩
    · exact names name member

/-- A walk along names goes straight down. -/
theorem walk_of_names (success : tree.walk location pieces = .ok place)
    (names : ∀ piece ∈ pieces, Path.IsName piece) : place = location ++ pieces := by
  induction pieces generalizing location with
  | nil =>
    obtain rfl := Except.ok.inj success
    exact (List.append_nil _).symm
  | cons piece rest inductionHypothesis =>
    obtain ⟨⟨real, down, _⟩, others⟩ := List.forall_mem_cons.mp names
    rw [walk_cons_eq_ok, onward_of_real real down] at success
    have further := success.2.2
    rw [inductionHypothesis further others, List.append_assoc, List.singleton_append]

end Walk

theorem locate_eq_ok {path : Path} {place : Location} :
    tree.locate path = .ok place ↔
      checkPath path = .ok () ∧ tree.walk (tree.origin path) path.pieces = .ok place := by
  rw [locate, Running.attempt_eq_ok]
  constructor
  · rintro ⟨_, checked, walked⟩
    exact ⟨checked, walked⟩
  · rintro ⟨checked, walked⟩
    exact ⟨(), checked, walked⟩

theorem locate_moves {path : Path} {place : Location} (success : tree.locate path = .ok place) :
    tree.walk (tree.origin path) path.moves = .ok place :=
  walk_filter (locate_eq_ok.mp success).2

/-- Two paths with the same components lead to the same place. -/
theorem locate_of_same {path other : Path} {place there : Location} (same : path.same other = true)
    (success : tree.locate path = .ok place) (again : tree.locate other = .ok there) : there = place := by
  obtain ⟨moves, absolute⟩ := Path.moves_of_same same
  have one := locate_moves success
  have two := locate_moves again
  rw [origin, ← absolute, ← moves, ← origin] at two
  exact Except.ok.inj (two.symm.trans one)

theorem readText_eq_ok {path : Path} {text : String} :
    tree.readText path = .ok text ↔
      ∃ place, tree.locate path = .ok place ∧ tree.node? place = some (.file (.text text)) := by
  rw [readText, has, at?, read]
  cases located : tree.locate path with
  | error error => simp
  | ok place =>
    cases node : tree.node? place with
    | none => simp [node]
    | some found =>
      cases found with
      | directory => simp [node]
      | file content => cases content <;> simp [node]

/-- Paths with the same components have the same text. -/
theorem readText_of_same {path other : Path} {text more : String} (same : path.same other = true)
    (read : tree.readText path = .ok text) (again : tree.readText other = .ok more) : more = text := by
  obtain ⟨place, located, node⟩ := readText_eq_ok.mp read
  obtain ⟨there, found, standing⟩ := readText_eq_ok.mp again
  rw [locate_of_same same located found, node] at standing
  cases standing
  rfl

/-- The path can be read if any path with its components can. -/
def Reads (tree : FileTree) (path : Path) : Prop :=
  ∀ known text, known.same path = true → tree.readText known = .ok text → tree.readText path = .ok text

theorem reads_of_isFile {path : Path} (file : tree.isFile path = true) : tree.Reads path := by
  intro known text same read
  obtain ⟨place, located, node⟩ := readText_eq_ok.mp read
  rw [isFile, at?] at file
  cases found : tree.locate path with
  | error error =>
    rw [found] at file
    cases file
  | ok there =>
    refine readText_eq_ok.mpr ⟨there, found, ?_⟩
    rw [locate_of_same same located found, node]

section PathOf

variable {location : Location}

@[simp] theorem pathOf_isAbsolute (location : Location) : (pathOf location).isAbsolute = true := by
  cases location with
  | nil => rfl
  | cons name rest => simp [pathOf, Path.ofPieces, Path.isAbsolute, Text.join]

theorem pieces_pathOf (some : location ≠ []) (names : ∀ name ∈ location, Path.IsName name) :
    (pathOf location).pieces = "" :: location := by
  have parts : Text.split '/' (Text.join '/' (("" :: location).map String.toList)) =
      ("" :: location).map String.toList := by
    refine Text.split_join '/' _ (by simp) ?_
    intro part member
    obtain ⟨name, inside, rfl⟩ := List.mem_map.mp member
    rcases List.mem_cons.mp inside with rfl | inside
    · simp
    · exact (names name inside).2.2
  cases location with
  | nil => exact absurd rfl some
  | cons name rest =>
    change (Path.ofPieces ("" :: name :: rest)).pieces = _
    rw [Path.ofPieces, Path.pieces, String.toList_ofList, parts, List.map_map]
    simp [Function.comp_def]

theorem moves_pathOf (names : ∀ name ∈ location, Path.IsName name) : (pathOf location).moves = location := by
  cases location with
  | nil => rfl
  | cons name rest =>
    rw [Path.moves, pieces_pathOf (List.cons_ne_nil _ _) names, List.filter_cons_of_neg (by simp [Path.isReal]),
      List.filter_eq_self]
    exact fun piece member => (names piece member).1

/-- The absolute path of a place is a part of every absolute path with its components. -/
theorem sublist_of_same {path : Path} (names : ∀ name ∈ location, Path.IsName name)
    (same : path.same (pathOf location) = true) :
    (pathOf location).text.toList.Sublist path.text.toList := by
  obtain ⟨moves, absolute⟩ := Path.moves_of_same same
  rw [pathOf_isAbsolute] at absolute
  rw [moves_pathOf names] at moves
  obtain ⟨rest, parts⟩ := Path.pieces_of_isAbsolute absolute
  rw [Path.moves, parts, List.filter_cons_of_neg (by simp [Path.isReal])] at moves
  cases location with
  | nil =>
    rw [Path.isAbsolute, decide_eq_true_eq] at absolute
    cases characters : path.text.toList with
    | nil =>
      rw [characters] at absolute
      cases absolute
    | cons first others =>
      rw [characters, List.head?_cons, Option.some.injEq] at absolute
      rw [absolute]
      exact (List.nil_sublist others).cons_cons '/'
  | cons name others =>
    rw [Path.toList_of_isAbsolute (pathOf_isAbsolute _), Path.toList_of_isAbsolute absolute,
      pieces_pathOf (List.cons_ne_nil _ _) names, parts, List.tail_cons, List.tail_cons, ← moves]
    exact List.Sublist.flatMap List.filter_sublist _

end PathOf

theorem utf8ByteSize_le_of_sublist {short long : String} (inside : short.toList.Sublist long.toList) :
    short.utf8ByteSize ≤ long.utf8ByteSize := by
  have size (text : List Char) : (String.ofList text).utf8ByteSize = (text.map Char.utf8Size).sum := by
    induction text with
    | nil => rfl
    | cons character rest inductionHypothesis =>
      rw [List.map_cons, List.sum_cons, ← inductionHypothesis, ← String.utf8ByteSize_singleton,
        ← String.utf8ByteSize_append]
      congr 1
      simp
  rw [← String.ofList_toList (s := short), ← String.ofList_toList (s := long), size, size]
  exact (inside.map _).sum_le_sum (fun _ _ => Nat.zero_le _)

theorem names_of_locate (proper : tree.Proper) {path : Path} {place : Location}
    (located : tree.locate path = .ok place) : ∀ name ∈ place, Path.IsName name := by
  refine walk_names (locate_eq_ok.mp located).2 ?_ ?_
  · rw [origin]
    split
    · exact fun name member => absurd member List.not_mem_nil
    · exact proper
  · intro piece member
    obtain ⟨part, inside, rfl⟩ := List.mem_map.mp member
    simpa using Text.not_mem_of_mem_split inside

theorem canonical_eq_ok {path absolute : Path} :
    tree.canonical path = .ok absolute ↔ ∃ place, tree.locate path = .ok place ∧ pathOf place = absolute :=
  Running.map_eq_ok _ _ _

theorem checkPath_eq_ok {path : Path} :
    checkPath path = .ok () ↔
      path.text ≠ "" ∧ '\x00' ∉ path.text.toList ∧ path.text.utf8ByteSize < pathLimit := by
  rw [checkPath]
  split
  · simp_all
  · split
    · simp_all
    · split
      · simp_all
      · simp_all

/-- The absolute path of a file can be read. -/
theorem reads_of_canonical (proper : tree.Proper) {path absolute : Path}
    (found : tree.canonical path = .ok absolute) : tree.Reads absolute := by
  intro known text same read
  obtain ⟨location, located, rfl⟩ := canonical_eq_ok.mp found
  have names := names_of_locate proper located
  obtain ⟨place, known', node⟩ := readText_eq_ok.mp read
  refine readText_eq_ok.mpr ⟨place, locate_eq_ok.mpr ⟨?_, ?_⟩, node⟩
  · have inside := sublist_of_same names same
    obtain ⟨_, plain, short⟩ := checkPath_eq_ok.mp (locate_eq_ok.mp known').1
    have absolute := pathOf_isAbsolute location
    refine checkPath_eq_ok.mpr ⟨?_, fun null => plain (inside.subset null),
      (utf8ByteSize_le_of_sublist inside).trans_lt short⟩
    intro empty
    rw [Path.isAbsolute, empty] at absolute
    cases absolute
  · obtain ⟨moves, absolute⟩ := Path.moves_of_same same
    have walked := locate_moves known'
    rw [origin, absolute, pathOf_isAbsolute, if_pos rfl, moves, moves_pathOf names] at walked
    rw [origin, pathOf_isAbsolute, if_pos rfl]
    cases location with
    | nil => simpa [pathOf, Path.pieces, Text.split, walk, node?] using walked
    | cons name rest =>
      rw [pieces_pathOf (List.cons_ne_nil _ _) names, walk]
      simpa [node?] using walked

/-- A path stands for the same file as the absolute path that it leads to. -/
theorem canonical_of_readText (proper : tree.Proper) {path absolute : Path} {text : String}
    (found : tree.canonical path = .ok absolute) (read : tree.readText absolute = .ok text) :
    tree.has path = true ∧ tree.canonical absolute = .ok absolute := by
  obtain ⟨location, located, rfl⟩ := canonical_eq_ok.mp found
  have names := names_of_locate proper located
  obtain ⟨place, again, node⟩ := readText_eq_ok.mp read
  have walked := locate_moves again
  rw [moves_pathOf names, origin, pathOf_isAbsolute, if_pos rfl] at walked
  obtain rfl : place = location := walk_of_names walked names
  refine ⟨?_, canonical_eq_ok.mpr ⟨place, again, rfl⟩⟩
  rw [has, at?, located]
  simp [node]

end FileTree

end DeployRecipe
