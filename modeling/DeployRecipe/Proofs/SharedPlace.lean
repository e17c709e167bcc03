import DeployRecipe.Proofs.Search

/-!
Two trees that share a place: both lead there along directories, and the same stands there in both. A path that
does not lead up and leads to the place in one of the trees leads there in the other one too, and a search that
ends there in one of them finds it in the other one.
-/

namespace DeployRecipe

namespace FileTree

open DeployRecipe.Path

variable {tree left right : FileTree}

theorem prefix_onward (location : Location) {piece : String} (down : piece ≠ "..") :
    location <+: onward location piece := by
  rw [onward, if_neg down]
  split
  · exact List.prefix_append location [piece]
  · exact List.prefix_rfl

/-- A walk that does not lead up passes directories until it is there. -/
theorem walk_leads {location place : Location} {pieces : List String} (success : tree.walk location pieces = .ok place)
    (straight : ".." ∉ pieces) :
    location <+: place ∧
      ∀ outer, location <+: outer → outer <+: place → outer ≠ place → tree.node? outer = some .directory := by
  induction pieces generalizing location with
  | nil =>
    obtain rfl := Except.ok.inj success
    exact ⟨List.prefix_rfl, fun outer one other differs =>
      absurd (other.eq_of_length_le one.length_le) differs⟩
  | cons piece rest inductionHypothesis =>
    rw [List.mem_cons, not_or] at straight
    obtain ⟨directory, _, further⟩ := walk_cons_eq_ok.mp success
    obtain ⟨inside, passes⟩ := inductionHypothesis further straight.2
    refine ⟨(prefix_onward location (Ne.symm straight.1)).trans inside, fun outer one other differs => ?_⟩
    rcases one.length_le.eq_or_lt with equal | longer
    · rwa [← one.eq_of_length equal]
    · have reached : (onward location piece).length ≤ outer.length := by
        rw [onward, if_neg (Ne.symm straight.1)]
        split
        · simpa using longer
        · exact longer.le
      exact passes outer (List.prefix_of_prefix_length_le inside other reached) other differs

theorem has_of_isDirectory {path : Path} (directory : tree.isDirectory path = true) : tree.has path = true := by
  rw [isDirectory] at directory
  split at directory
  · simp [has, *]
  · cases directory

section Located

variable {path : Path} {place : Location}

/-- A path that does not lead up leads along its moves. -/
theorem locate_straight (straight : ".." ∉ path.pieces) (located : tree.locate path = .ok place) :
    place = tree.origin path ++ path.moves := by
  refine walk_of_names (locate_moves located) fun piece member => ?_
  obtain ⟨inside, real⟩ := List.mem_filter.mp member
  exact ⟨real, fun up => straight (up ▸ inside), not_mem_pieces inside⟩

variable (here : left.workingDirectory = right.workingDirectory)
include here

theorem origin_eq (path : Path) : right.origin path = left.origin path := by
  rw [origin, origin, here]

/-- A path leads to the same place in both trees, if it leads anywhere. -/
theorem canonical_unique {absolute other : Path} (found : left.canonical path = .ok absolute)
    (again : right.canonical path = .ok other) : other = absolute := by
  obtain ⟨place, located, rfl⟩ := canonical_eq_ok.mp found
  obtain ⟨there, located', rfl⟩ := canonical_eq_ok.mp again
  have walked := (locate_eq_ok.mp located').2
  rw [origin_eq here] at walked
  rw [walk_eq_foldl walked, walk_eq_foldl (locate_eq_ok.mp located).2]

end Located

/-- Both trees lead to a place along directories, and the same stands there. -/
structure Shares (left right : FileTree) (place : Location) : Prop where
  leads : ∀ outer, outer <+: place → outer ≠ place → left.node? outer = some .directory
  leads' : ∀ outer, outer <+: place → outer ≠ place → right.node? outer = some .directory
  node : right.node? place = left.node? place

namespace Shares

variable {place : Location} (shares : Shares left right place)
include shares

/-- The directories on the way to a shared place are shared. -/
theorem outer {outer : Location} (inside : outer <+: place) : Shares left right outer := by
  by_cases same : outer = place
  · rwa [same]
  · have further {around : Location} (inner : around <+: outer) : around ≠ place := by
      rintro rfl
      exact same (inside.eq_of_length_le inner.length_le)
    exact ⟨fun around inner _ => shares.leads around (inner.trans inside) (further inner),
      fun around inner _ => shares.leads' around (inner.trans inside) (further inner),
      (shares.leads' outer inside same).trans (shares.leads outer inside same).symm⟩

theorem walk {location : Location} {pieces : List String} (success : left.walk location pieces = .ok place)
    (straight : ".." ∉ pieces) : right.walk location pieces = .ok place := by
  induction pieces generalizing location with
  | nil => exact success
  | cons piece rest inductionHypothesis =>
    rw [List.mem_cons, not_or] at straight
    obtain ⟨directory, leads, further⟩ := walk_cons_eq_ok.mp success
    have inside := (walk_leads further straight.2).1
    have here := shares.outer ((prefix_onward location (Ne.symm straight.1)).trans inside)
    refine walk_cons_eq_ok.mpr
      ⟨here.node.trans directory, fun real down => ?_, inductionHypothesis further straight.2⟩
    rw [onward_of_real real down] at inside
    rw [(shares.outer inside).node]
    exact leads real down

variable (here : left.workingDirectory = right.workingDirectory)
include here

/-- A path that does not lead up and leads to the place leads there in both trees. -/
theorem locate {path : Path} (straight : ".." ∉ path.pieces) (located : left.locate path = .ok place) :
    right.locate path = .ok place := by
  obtain ⟨checked, walked⟩ := locate_eq_ok.mp located
  refine locate_eq_ok.mpr ⟨checked, ?_⟩
  rw [origin_eq here]
  exact shares.walk walked straight

theorem isFile {path : Path} (straight : ".." ∉ path.pieces) (located : left.locate path = .ok place)
    (file : left.isFile path = true) : right.isFile path = true := by
  rw [FileTree.isFile, FileTree.at?, located] at file
  rw [FileTree.isFile, FileTree.at?, shares.locate here straight located]
  dsimp only
  rw [shares.node]
  exact file

/-- A path that does not lead up and leads to the place or to a directory on the way leads to the same in both
trees. -/
theorem at?_eq {path : Path} (straight : ".." ∉ path.pieces) (inside : left.origin path ++ path.moves <+: place)
    (leads : left.has path = true) : right.at? path = left.at? path := by
  rw [has, FileTree.at?] at leads
  cases located : left.locate path with
  | error error =>
    rw [located] at leads
    cases leads
  | ok outer =>
    have around : Shares left right outer := shares.outer (locate_straight straight located ▸ inside)
    rw [FileTree.at?, FileTree.at?, located, around.locate here straight located]
    exact around.node

/-- Pieces that lead to a directory on the way lead there in both trees. -/
theorem follow? {path found : Path} {pieces : List String} (followed : left.follow? path pieces = some found)
    (inside : left.origin found ++ found.moves <+: place) (straight : ".." ∉ path.pieces)
    (plain : ∀ piece ∈ pieces, piece ≠ ".." ∧ '/' ∉ piece.toList) : right.follow? path pieces = some found := by
  induction pieces generalizing path with
  | nil => exact followed
  | cons piece rest inductionHypothesis =>
    obtain ⟨moves, absolute⟩ := follow?_moves (fun piece member => (plain piece member).2) followed
    obtain ⟨⟨down, slashless⟩, others⟩ := List.forall_mem_cons.mp plain
    obtain ⟨onward, absolute'⟩ := below_moves path slashless
    have straight' : ".." ∉ (below path piece).pieces := by
      rw [← mem_moves_iff, onward, List.mem_append, mem_moves_iff]
      simp [straight, Ne.symm down]
    simp only [FileTree.follow?, Option.ite_none_right_eq_some] at followed ⊢
    obtain ⟨leads, followed⟩ := followed
    obtain ⟨moves', _⟩ := follow?_moves (fun piece member => (others piece member).2) followed
    refine ⟨?_, inductionHypothesis followed straight' others⟩
    split at leads
    · have way : left.origin path ++ path.moves <+: place := by
        refine List.IsPrefix.trans ?_ inside
        rw [FileTree.origin, FileTree.origin, absolute, moves, ← List.append_assoc]
        exact List.prefix_append _ _
      rw [if_pos ‹_›, isDirectory, shares.at?_eq here straight way (has_of_isDirectory leads)]
      exact leads
    · have way : left.origin (below path piece) ++ (below path piece).moves <+: place := by
        refine List.IsPrefix.trans ?_ inside
        rw [FileTree.origin, FileTree.origin, absolute, absolute', moves', ← List.append_assoc]
        exact List.prefix_append _ _
      rw [if_neg ‹_›, has, shares.at?_eq here straight' way leads]
      exact leads

/-- A file that is found in a directory and stands at the place is found there in both trees. -/
theorem finds {directory path : Path} {suffix name : String} (finds : left.Finds directory suffix path name)
    (straight : ".." ∉ directory.pieces) (named : left.Named) (isDirectory : left.isDirectory directory = true)
    (located : left.locate (below path name) = .ok place) :
    right.isDirectory directory = true ∧ right.Finds directory suffix path name := by
  have written : directory.text ≠ "" := by
    rintro empty
    obtain rfl : directory = ⟨""⟩ := by rw [← empty]
    cases isDirectory
  obtain ⟨outer, located', stands, _⟩ := mem_namesAt.mp finds.present
  obtain ⟨way, absolute⟩ := finds.moves written
  obtain ⟨last, absolute'⟩ := finds.below_moves written named
  have straight' : ".." ∉ path.pieces := by rwa [← mem_moves_iff, way, mem_moves_iff]
  have upright := finds.straight written named straight
  have inside : outer = left.origin directory ++ directory.moves := by
    rw [locate_straight straight' located', origin, origin, absolute, way]
  have whole : place = outer ++ [name] := by
    rw [locate_straight upright located, inside, origin, origin, absolute', last, List.append_assoc]
  have around : outer <+: place := whole ▸ List.prefix_append outer [name]
  refine ⟨?_, ?_, ?_, finds.suffixed, ?_⟩
  · rw [FileTree.isDirectory, shares.at?_eq here straight (inside ▸ around) (has_of_isDirectory isDirectory)]
    exact isDirectory
  · obtain ⟨nothing, _, _, inner⟩ := start_moves written
    have on : left.origin path ++ path.moves <+: place := locate_straight straight' located' ▸ around
    refine shares.follow? here finds.followed on ?_ fun piece there =>
      ⟨fun up => straight (up ▸ inner there), not_mem_pieces (inner there)⟩
    rw [← mem_moves_iff, nothing]
    exact List.not_mem_nil
  · have shared := shares.outer around
    obtain ⟨there, content, located'', standing⟩ := isFile_eq_true finds.isFile
    obtain rfl := Except.ok.inj (located''.symm.trans located)
    rw [← shares.node, whole] at standing
    exact mem_namesAt.mpr ⟨outer, shared.locate here straight' located', shared.node.trans stands,
      mem_names_of_node standing⟩
  · exact shares.isFile here upright located finds.isFile

end Shares

end FileTree

end DeployRecipe
