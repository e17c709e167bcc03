import DeployRecipe.Proofs.PlainPath
import DeployRecipe.RecipeFile.Search

/-!
Where a search in a directory ends: at a name that stands in it. What is found lies one move below the directory,
so below a plain path it is at a plain path.
-/

namespace DeployRecipe.FileTree

open DeployRecipe.Path

theorem below_moves (path : Path) {piece : String} (slashless : '/' ∉ piece.toList) :
    (below path piece).moves = path.moves ++ [piece].filter isReal ∧
      (below path piece).isAbsolute = path.isAbsolute := by
  have relative := isAbsolute_of_slashless slashless
  rw [← moves_of_slashless slashless, below]
  split
  · rename_i current
    obtain rfl : path = ⟨"."⟩ := by rw [← current]
    exact ⟨rfl, relative⟩
  · exact path.join_moves relative

variable {tree : FileTree}

/-- Pieces that are followed are the moves that are made. -/
theorem follow?_moves {path found : Path} {pieces : List String} (slashless : ∀ piece ∈ pieces, '/' ∉ piece.toList)
    (followed : tree.follow? path pieces = some found) :
    found.moves = path.moves ++ pieces.filter isReal ∧ found.isAbsolute = path.isAbsolute := by
  induction pieces generalizing path with
  | nil =>
    obtain rfl := Option.some.inj followed
    simp
  | cons piece rest inductionHypothesis =>
    obtain ⟨here, others⟩ := List.forall_mem_cons.mp slashless
    simp only [follow?, Option.ite_none_right_eq_some] at followed
    obtain ⟨moves, absolute⟩ := inductionHypothesis others followed.2
    obtain ⟨moves', absolute'⟩ := below_moves path here
    refine ⟨?_, absolute.trans absolute'⟩
    rw [moves, moves', List.append_assoc, ← List.filter_append]
    rfl

section Names

variable {path : Path} {name : String}

theorem mem_namesAt :
    name ∈ tree.namesAt path ↔
      ∃ place, tree.locate path = .ok place ∧ tree.node? place = some .directory ∧ name ∈ tree.names place := by
  rw [namesAt]
  cases tree.locate path with
  | error error => simp
  | ok place => by_cases directory : tree.node? place = some .directory <;> simp [directory]

theorem mem_names_of_node {place : Location} {node : FileNode}
    (stands : tree.node? (place ++ [name]) = some node) : name ∈ tree.names place := by
  rw [node?, if_neg (by simp)] at stands
  exact List.mem_filterMap.mpr ⟨_, Entries.mem_of_find? stands, by simp⟩

theorem Named.of_mem_namesAt (named : tree.Named) (member : name ∈ tree.namesAt path) : IsName name := by
  obtain ⟨_, _, _, inside⟩ := mem_namesAt.mp member
  exact named.of_mem_names inside

end Names

variable {directory path file : Path} {suffix name : String}

/-- A search starts where the path of the directory starts, and makes its moves. -/
theorem start_moves (some : directory.text ≠ "") :
    (start directory).1.moves = [] ∧ (start directory).1.isAbsolute = directory.isAbsolute ∧
      (start directory).2.filter isReal = directory.moves ∧ (start directory).2 ⊆ directory.pieces := by
  rw [start, if_neg some]
  by_cases absolute : directory.isAbsolute = true
  · obtain ⟨rest, parts⟩ := pieces_of_isAbsolute absolute
    have onward : directory.moves = rest.filter isReal := by
      rw [moves, parts]
      rfl
    have root : (Path.mk "/").moves = [] ∧ (Path.mk "/").isAbsolute = true := by decide
    rw [if_pos absolute, onward, parts, absolute]
    exact ⟨root.1, root.2, rfl, List.subset_cons_self "" rest⟩
  · have here : (Path.mk ".").moves = [] ∧ (Path.mk ".").isAbsolute = false := by decide
    rw [if_neg absolute, Bool.eq_false_iff.mpr absolute]
    exact ⟨here.1, here.2, rfl, fun _ => id⟩

/-- A search in a directory finds a file under a name at the path of the directory. -/
structure Finds (tree : FileTree) (directory : Path) (suffix : String) (path : Path) (name : String) : Prop where
  followed : tree.follow? (start directory).1 (start directory).2 = some path
  present : name ∈ tree.namesAt path
  suffixed : suffix.toList.isSuffixOf name.toList = true
  isFile : tree.isFile (below path name) = true

theorem mem_filesEndingIn (slashless : '/' ∉ suffix.toList) :
    file ∈ tree.filesEndingIn directory suffix ↔
      ∃ path name, tree.Finds directory suffix path name ∧ file = below path name := by
  rw [filesEndingIn, List.mem_mergeSort, List.mem_filter, endingIn, pieces_of_not_mem slashless]
  dsimp only
  constructor
  · rintro ⟨inside, isFile⟩
    cases followed : tree.follow? (start directory).1 (start directory).2 with
    | none =>
      rw [followed] at inside
      exact absurd inside List.not_mem_nil
    | some path =>
      rw [followed] at inside
      obtain ⟨name, present, found⟩ := List.mem_filterMap.mp inside
      obtain ⟨suffixed, same⟩ := Option.ite_none_right_eq_some.mp found
      obtain rfl := Option.some.inj same
      exact ⟨path, name, ⟨followed, present, suffixed, isFile⟩, rfl⟩
  · rintro ⟨path, name, finds, rfl⟩
    rw [finds.followed]
    refine ⟨List.mem_filterMap.mpr ⟨name, finds.present, ?_⟩, finds.isFile⟩
    rw [if_pos finds.suffixed]
    rfl

theorem theFileEndingIn_eq_ok :
    tree.theFileEndingIn directory suffix = .ok file ↔ tree.filesEndingIn directory suffix = [file] := by
  rw [theFileEndingIn]
  split
  · simp [*]
  · simp [*]
  · rename_i several
    exact iff_of_false (by simp) (several file)

namespace Finds

variable (finds : tree.Finds directory suffix path name) (written : directory.text ≠ "")
include finds written

/-- A search goes along the moves of the directory's path. -/
theorem moves : path.moves = directory.moves ∧ path.isAbsolute = directory.isAbsolute := by
  obtain ⟨nothing, begins, moves, inside⟩ := start_moves written
  obtain ⟨way, absolute⟩ := follow?_moves (fun piece there => not_mem_pieces (inside there)) finds.followed
  rw [nothing, moves, List.nil_append] at way
  exact ⟨way, absolute.trans begins⟩

/-- What is found lies one move below the directory. -/
theorem below_moves (named : tree.Named) :
    (below path name).moves = directory.moves ++ [name] ∧ (below path name).isAbsolute = directory.isAbsolute := by
  obtain ⟨real, _, slashless⟩ := named.of_mem_namesAt finds.present
  obtain ⟨way, absolute⟩ := finds.moves written
  obtain ⟨last, absolute'⟩ := FileTree.below_moves path slashless
  rw [List.filter_cons_of_pos real, List.filter_nil, way] at last
  exact ⟨last, absolute'.trans absolute⟩

theorem straight (named : tree.Named) (straight : ".." ∉ directory.pieces) : ".." ∉ (below path name).pieces := by
  rw [← mem_moves_iff, (finds.below_moves written named).1, List.mem_append, List.mem_singleton, mem_moves_iff, not_or]
  exact ⟨straight, Ne.symm (named.of_mem_namesAt finds.present).2.1⟩

end Finds

/-- What is found in a directory at a plain path stands at a plain path. -/
theorem theFileEndingIn_plain (named : tree.Named) {found : Path} (plain : directory.IsPlain)
    (slashless : '/' ∉ suffix.toList) (success : tree.theFileEndingIn directory suffix = .ok found) :
    found.IsPlain := by
  have member : found ∈ tree.filesEndingIn directory suffix :=
    theFileEndingIn_eq_ok.mp success ▸ List.mem_singleton_self found
  obtain ⟨path, name, finds, rfl⟩ := (mem_filesEndingIn slashless).mp member
  have written : directory.text ≠ "" := by
    rintro empty
    obtain rfl : directory = ⟨""⟩ := by rw [← empty]
    cases plain.absolute
  exact ⟨(finds.below_moves written named).2.trans plain.absolute, finds.straight written named plain.straight⟩

end DeployRecipe.FileTree
