import DeployRecipe.Proofs.Entries
import DeployRecipe.Proofs.FileTree

/-!
The moves of paths that are put together, and absolute paths without `..`. Two of these are the same if they lead
to the same place, they stay so below directories and at their parents, and there are no more of them that lead to
different files than there are files.
-/

namespace DeployRecipe

namespace Path

/-- The path is absolute and does not lead up. -/
structure IsPlain (path : Path) : Prop where
  absolute : path.isAbsolute = true
  straight : ".." ∉ path.pieces

instance (path : Path) : Decidable path.IsPlain :=
  decidable_of_iff (path.isAbsolute = true ∧ ".." ∉ path.pieces)
    ⟨fun both => ⟨both.1, both.2⟩, fun plain => ⟨plain.1, plain.2⟩⟩

theorem components_of_isAbsolute {path : Path} (absolute : path.isAbsolute = true) :
    path.components = .root :: path.moves.map Component.ofPiece := by
  obtain ⟨rest, parts⟩ := pieces_of_isAbsolute absolute
  rw [components, moves, parts, List.filter_cons_of_neg (by simp [isReal])]
  simp [absolute]

theorem same_of_moves {path other : Path} (absolute : path.isAbsolute = true)
    (absolute' : other.isAbsolute = true) (moves : path.moves = other.moves) : path.same other = true := by
  rw [same_iff, components_of_isAbsolute absolute, components_of_isAbsolute absolute', moves]

theorem not_mem_pieces {path : Path} {piece : String} (member : piece ∈ path.pieces) :
    '/' ∉ piece.toList := by
  obtain ⟨part, inside, rfl⟩ := List.mem_map.mp member
  simpa using Text.not_mem_of_mem_split inside

theorem pieces_ofPieces {parts : List String} (some : parts ≠ []) (plain : ∀ part ∈ parts, '/' ∉ part.toList) :
    (ofPieces parts).pieces = parts := by
  have split : Text.split '/' (Text.join '/' (parts.map String.toList)) = parts.map String.toList := by
    refine Text.split_join '/' _ (by simpa using some) fun part member => ?_
    obtain ⟨piece, inside, rfl⟩ := List.mem_map.mp member
    exact plain piece inside
  rw [ofPieces, pieces, String.toList_ofList, split, List.map_map]
  simp [Function.comp_def]

theorem pieces_of_not_mem {piece : String} (plain : '/' ∉ piece.toList) : (Path.mk piece).pieces = [piece] := by
  simp [pieces, Text.split_of_not_mem '/' _ plain]

theorem mem_moves_iff {path : Path} : ".." ∈ path.moves ↔ ".." ∈ path.pieces := by
  simp [moves, isReal]

theorem pieces_append {path : Path} {before after : List Char} (written : path.text.toList = before ++ '/' :: after) :
    path.pieces = (mk (String.ofList before)).pieces ++ (mk (String.ofList after)).pieces := by
  simp [pieces, written, Text.split_append]

/-- To go on below a path is to make more moves. -/
theorem join_moves (path : Path) {part : Path} (relative : part.isAbsolute = false) :
    (path.join part).moves = path.moves ++ part.moves ∧ (path.join part).isAbsolute = path.isAbsolute := by
  have nothing : (mk "").moves = [] := rfl
  rw [join, if_neg (by simp [relative])]
  split
  · rename_i last
    rcases last with empty | slash
    · obtain rfl : path = ⟨""⟩ := by rw [← empty]
      have whole : (mk ("" ++ part.text)) = part := by simp
      rw [whole, nothing]
      exact ⟨rfl, relative⟩
    · obtain ⟨before, characters⟩ := List.getLast?_eq_some_iff.mp slash
      have written : (mk (path.text ++ part.text)).text.toList = before ++ '/' :: part.text.toList := by
        simp [characters]
      have here : path.text.toList = before ++ '/' :: "".toList := by simp [characters]
      refine ⟨?_, ?_⟩
      · rw [moves, moves, moves, pieces_append written, pieces_append here, String.ofList_toList,
          String.ofList_toList, List.filter_append, List.filter_append]
        change _ = (_ ++ moves ⟨""⟩) ++ _
        rw [nothing, List.append_nil]
      · rw [isAbsolute, isAbsolute, written, here]
        cases before <;> rfl
  · rename_i some
    have written : (mk (path.text ++ "/" ++ part.text)).text.toList = path.text.toList ++ '/' :: part.text.toList := by
      simp
    refine ⟨?_, ?_⟩
    · rw [moves, pieces_append written, String.ofList_toList, String.ofList_toList, List.filter_append]
      rfl
    · rw [isAbsolute, isAbsolute, written]
      cases characters : path.text.toList with
      | nil => exact absurd (Or.inl (String.toList_eq_nil_iff.mp characters)) some
      | cons first rest => rfl

theorem join_straight {path part : Path} (straight : ".." ∉ path.pieces) (straight' : ".." ∉ part.pieces) :
    ".." ∉ (path.join part).pieces := by
  by_cases absolute : part.isAbsolute = true
  · rwa [join, if_pos absolute]
  · rw [← mem_moves_iff, (path.join_moves (Bool.eq_false_iff.mpr absolute)).1, List.mem_append, mem_moves_iff,
      mem_moves_iff, not_or]
    exact ⟨straight, straight'⟩

theorem isAbsolute_of_slashless {piece : String} (slashless : '/' ∉ piece.toList) :
    (mk piece).isAbsolute = false := by
  rw [isAbsolute, decide_eq_false_iff_not]
  exact fun head => slashless (List.mem_of_head? head)

theorem moves_of_slashless {piece : String} (slashless : '/' ∉ piece.toList) :
    (mk piece).moves = [piece].filter isReal := by
  rw [moves, pieces_of_not_mem slashless]

/-- A piece that does not lead up does not lead up with more characters. -/
theorem append_straight {path : Path} (straight : ".." ∉ path.pieces) {more : String} (slashless : '/' ∉ more.toList)
    (long : 2 < more.toList.length) : ".." ∉ (path.append more).pieces := by
  obtain ⟨before, last, short, whole⟩ := Text.split_append_of_not_mem path.text.toList slashless
  intro member
  rw [pieces, append, String.toList_append, whole, List.map_append, List.mem_append] at member
  rcases member with early | late
  · refine straight ?_
    rw [pieces, short, List.map_append]
    exact List.mem_append_left _ early
  · rw [List.map_singleton, List.mem_singleton] at late
    have size := congrArg (fun text => text.toList.length) late
    simp at size
    omega

theorem splitLast?_of_pieces {path : Path} {rest before : List String} {last : String} (pieces : path.pieces = "" :: rest)
    (parts : path.splitLast? = some (before, last)) : ∃ inner, before = "" :: inner ∧ inner ⊆ rest ∧ last ∈ rest := by
  rw [splitLast?, pieces] at parts
  dsimp only at parts
  split at parts
  · rename_i last' before' backwards
    obtain ⟨rfl, rfl⟩ := Prod.mk.inj (Option.some.inj parts)
    have inside : last' :: before' ⊆ rest := fun piece member =>
      List.mem_reverse.mp ((List.dropWhile_sublist _).subset (backwards.symm ▸ member))
    exact ⟨_, rfl, fun piece member => inside (List.mem_cons_of_mem _ (List.mem_reverse.mp member)),
      inside List.mem_cons_self⟩
  · rw [if_pos rfl] at parts
    cases parts

theorem stem_slashless {name : String} (slashless : '/' ∉ name.toList) : '/' ∉ (stem name).toList := by
  rw [stem]
  split
  · exact slashless
  · rename_i before backwards
    split
    · exact slashless
    · intro member
      rw [String.toList_ofList, List.mem_reverse] at member
      have later := (List.dropWhile_sublist _).subset (backwards.symm ▸ List.mem_cons_of_mem _ member)
      exact slashless (List.mem_reverse.mp later)

namespace IsPlain

variable {path : Path}

theorem names (plain : path.IsPlain) : ∀ name ∈ path.moves, IsName name := by
  intro name member
  obtain ⟨inside, real⟩ := List.mem_filter.mp member
  refine ⟨real, ?_, not_mem_pieces inside⟩
  rintro rfl
  exact plain.straight inside

/-- A plain path that leads somewhere leads along its names. -/
theorem place (plain : path.IsPlain) {files : FileTree} {place : Location}
    (located : files.locate path = .ok place) : place = path.moves := by
  have walked := FileTree.locate_moves located
  rw [FileTree.origin, if_pos plain.absolute] at walked
  exact FileTree.walk_of_names walked plain.names

theorem of_pathOf {location : Location} (names : ∀ name ∈ location, IsName name) :
    (FileTree.pathOf location).IsPlain := by
  refine ⟨FileTree.pathOf_isAbsolute location, ?_⟩
  cases location with
  | nil => decide
  | cons name rest =>
    rw [FileTree.pieces_pathOf (List.cons_ne_nil _ _) names, List.mem_cons, not_or]
    exact ⟨by decide, fun member => (names ".." member).2.1 rfl⟩

theorem join (plain : path.IsPlain) {part : Path} (straight : ".." ∉ part.pieces) : (path.join part).IsPlain := by
  refine ⟨?_, join_straight plain.straight straight⟩
  by_cases absolute : part.isAbsolute = true
  · rwa [Path.join, if_pos absolute]
  · exact (path.join_moves (Bool.eq_false_iff.mpr absolute)).2.trans plain.absolute

theorem of_pieces {parts : List String} (some : parts ≠ []) (straight : ".." ∉ parts)
    (slashless : ∀ piece ∈ parts, '/' ∉ piece.toList) : (ofPieces ("" :: parts)).IsPlain := by
  have pieces : (ofPieces ("" :: parts)).pieces = "" :: parts := by
    refine pieces_ofPieces (List.cons_ne_nil _ _) fun piece member => ?_
    rcases List.mem_cons.mp member with rfl | inside
    · simp
    · exact slashless piece inside
  obtain ⟨first, rest, rfl⟩ := List.exists_cons_of_ne_nil some
  refine ⟨?_, ?_⟩
  · simp [isAbsolute, ofPieces, Text.join]
  · rw [pieces, List.mem_cons, not_or]
    exact ⟨by decide, straight⟩

theorem parent (plain : path.IsPlain) {directory : Path} (found : path.parent? = some directory) :
    directory.IsPlain := by
  obtain ⟨rest, parts⟩ := pieces_of_isAbsolute plain.absolute
  have straight := plain.straight
  rw [parts, List.mem_cons, not_or] at straight
  have slashless : ∀ piece ∈ rest, '/' ∉ piece.toList := fun piece member =>
    not_mem_pieces (parts.symm ▸ List.mem_cons_of_mem "" member)
  obtain ⟨⟨before, last⟩, split, rfl⟩ := Option.map_eq_some_iff.mp found
  obtain ⟨inner, rfl, early, _⟩ := splitLast?_of_pieces parts split
  dsimp only
  split
  · exact ⟨rfl, by decide⟩
  · rename_i more
    have kept : ∀ piece ∈ (inner.reverse.dropWhile fun piece => !isReal piece).reverse, piece ∈ rest :=
      fun piece member =>
        early (List.mem_reverse.mp ((List.dropWhile_sublist _).subset (List.mem_reverse.mp member)))
    exact of_pieces (by simpa using more) (fun member => straight.2 (kept ".." member))
      fun piece member => slashless piece (kept piece member)

theorem withExtension (plain : path.IsPlain) {extension : String} (slashless : '/' ∉ extension.toList)
    (long : 1 < extension.toList.length) : (path.withExtension extension).IsPlain := by
  rw [Path.withExtension]
  split
  · rename_i before last name parts named
    obtain rfl : last = name := by
      rw [fileName?, parts] at named
      dsimp only at named
      split at named
      · cases named
      · exact Option.some.inj named
    obtain ⟨rest, pieces⟩ := pieces_of_isAbsolute plain.absolute
    obtain ⟨inner, rfl, within, there⟩ := splitLast?_of_pieces pieces parts
    have slashless' : ∀ piece ∈ rest, '/' ∉ piece.toList := fun piece member =>
      not_mem_pieces (pieces.symm ▸ List.mem_cons_of_mem "" member)
    refine of_pieces (by simp) ?_ fun piece member => ?_
    · change ".." ∉ inner ++ [_]
      rw [List.mem_append, List.mem_singleton, not_or]
      refine ⟨fun member => plain.straight (pieces.symm ▸ List.mem_cons_of_mem "" (within member)), fun same => ?_⟩
      have size := congrArg (fun text => text.toList.length) same
      simp at size
      omega
    · rcases List.mem_append.mp member with early | late
      · exact slashless' piece (within early)
      · obtain rfl := List.mem_singleton.mp late
        simp [slashless, stem_slashless (slashless' last there)]
  · exact plain

end IsPlain

end Path

namespace FileTree

variable {tree : FileTree}

/-- Every name in the tree can stand in a directory, as in every file system. -/
def Named (tree : FileTree) : Prop :=
  ∀ location ∈ tree.nodes.keys, ∀ name ∈ location, Path.IsName name

instance (tree : FileTree) : Decidable tree.Named :=
  inferInstanceAs (Decidable (∀ location ∈ tree.nodes.keys, ∀ name ∈ location, _ ∧ _ ∧ _))

theorem Named.of_mem_names (named : tree.Named) {location : Location} {name : String}
    (member : name ∈ tree.names location) : Path.IsName name := by
  obtain ⟨⟨place, node⟩, present, found⟩ := List.mem_filterMap.mp member
  dsimp only at found
  split at found
  · rename_i last ends
    split at found
    · obtain rfl := Option.some.inj found
      exact named place (List.mem_map_of_mem present) last (List.mem_of_getLast? ends)
    · cases found
  · cases found

/-- The places of the files. -/
def fileLocations (tree : FileTree) : List Location :=
  (tree.nodes.filterMap fun (location, node) =>
    match node with
    | .file _ => some location
    | .directory => none).dedup

theorem mem_fileLocations {location : Location} {content : Content}
    (node : tree.node? location = some (.file content)) : location ∈ tree.fileLocations := by
  rw [node?] at node
  split at node
  · cases node
  · rw [fileLocations, List.mem_dedup, List.mem_filterMap]
    exact ⟨(location, .file content), Entries.mem_of_find? node, rfl⟩

theorem isFile_eq_true {path : Path} (file : tree.isFile path = true) :
    ∃ place content, tree.locate path = .ok place ∧ tree.node? place = some (.file content) := by
  rw [isFile, at?] at file
  cases located : tree.locate path with
  | error error =>
    rw [located] at file
    cases file
  | ok place =>
    rw [located] at file
    dsimp only at file
    split at file
    · exact ⟨place, _, rfl, ‹_›⟩
    · cases file

theorem mem_fileLocations_of_isPlain {path : Path} (plain : path.IsPlain) (file : tree.isFile path = true) :
    path.moves ∈ tree.fileLocations := by
  obtain ⟨place, content, located, node⟩ := isFile_eq_true file
  exact plain.place located ▸ FileTree.mem_fileLocations node

/-- The absolute path that a file leads to is plain, and stands at the place of the file. -/
theorem canonical_of_isFile (proper : tree.Proper) {path absolute : Path} (file : tree.isFile path = true)
    (found : tree.canonical path = .ok absolute) :
    absolute.IsPlain ∧ absolute.moves ∈ tree.fileLocations := by
  obtain ⟨place, content, located, node⟩ := isFile_eq_true file
  obtain ⟨location, again, rfl⟩ := canonical_eq_ok.mp found
  obtain rfl := Except.ok.inj (again.symm.trans located)
  have names := names_of_locate proper located
  exact ⟨.of_pathOf names, (moves_pathOf names).symm ▸ FileTree.mem_fileLocations node⟩

end FileTree

/-- Files that are being compiled: they are at different ones of the given places. -/
structure Enclosed (places : List Location) (active : List Path) : Prop where
  apart : (active.map Path.moves).Nodup
  plain : ∀ path ∈ active, path.IsPlain
  inside : ∀ path ∈ active, path.moves ∈ places

namespace Enclosed

variable {places : List Location} {active : List Path}

theorem nil : Enclosed places [] := ⟨.nil, nofun, nofun⟩

/-- No more files are being compiled than there are places. -/
theorem length_le (enclosed : Enclosed places active) : active.length ≤ places.length := by
  have inside : active.map Path.moves ⊆ places := by
    intro location member
    obtain ⟨path, present, rfl⟩ := List.mem_map.mp member
    exact enclosed.inside path present
  have bounded := (enclosed.apart.subperm inside).length_le
  rwa [List.length_map] at bounded

/-- A plain path is not refused because of a file at another place. -/
theorem push (enclosed : Enclosed places active) {path : Path} (plain : path.IsPlain)
    (inside : path.moves ∈ places) (free : (active.any fun outer => outer.same path) = false) :
    Enclosed places (path :: active) := by
  refine ⟨?_, List.forall_mem_cons.mpr ⟨plain, enclosed.plain⟩,
    List.forall_mem_cons.mpr ⟨inside, enclosed.inside⟩⟩
  rw [List.map_cons, List.nodup_cons]
  refine ⟨fun member => ?_, enclosed.apart⟩
  obtain ⟨outer, present, moves⟩ := List.mem_map.mp member
  have same := Path.same_of_moves (enclosed.plain outer present).absolute plain.absolute moves
  rw [List.any_eq_false] at free
  exact free outer present same

end Enclosed

end DeployRecipe
