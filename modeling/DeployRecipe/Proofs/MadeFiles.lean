import DeployRecipe.Proofs.LastName

/-!
Steps that make directories and files. They only add to a tree, so what could be walked before can be walked after,
and a file that was written is found where it was written, by its path as well as by its absolute path.
-/

namespace DeployRecipe

namespace FileTree

variable {tree grown : FileTree}

section Growth

/-- Every directory of a tree is one of a grown tree, and nothing is missing in it. -/
structure Grows (tree grown : FileTree) : Prop where
  workingDirectory : grown.workingDirectory = tree.workingDirectory
  directories : ∀ location, tree.node? location = some .directory → grown.node? location = some .directory
  present : ∀ location, (tree.node? location).isSome = true → (grown.node? location).isSome = true

theorem Grows.refl (tree : FileTree) : Grows tree tree :=
  ⟨rfl, fun _ => id, fun _ => id⟩

theorem Grows.trans {between : FileTree} (first : Grows tree between) (second : Grows between grown) :
    Grows tree grown where
  workingDirectory := second.workingDirectory.trans first.workingDirectory
  directories location directory := second.directories location (first.directories location directory)
  present location some := second.present location (first.present location some)

/-- The tree with a node at a place. -/
def insertAt (tree : FileTree) (place : Location) (node : FileNode) : FileTree :=
  { tree with nodes := tree.nodes.insert place node }

theorem node?_insertAt (tree : FileTree) {place : Location} (below : place ≠ []) (node : FileNode)
    (location : Location) :
    (tree.insertAt place node).node? location = if place = location then some node else tree.node? location := by
  rw [node?, insertAt, Entries.find?_insert, node?]
  by_cases root : location = []
  · rw [if_pos root, if_pos root, if_neg (root ▸ below)]
  · rw [if_neg root, if_neg root]

/-- A node grows a tree unless it takes the place of a directory. -/
theorem grows_insertAt {place : Location} (below : place ≠ []) (node : FileNode)
    (free : tree.node? place ≠ some .directory) : Grows tree (tree.insertAt place node) where
  workingDirectory := rfl
  directories location directory := by
    rw [node?_insertAt tree below, if_neg]
    · exact directory
    · rintro rfl
      exact free directory
  present location some := by
    rw [node?_insertAt tree below]
    split
    · rfl
    · exact some

theorem Grows.walk (grows : Grows tree grown) {location place : Location} {pieces : List String}
    (success : tree.walk location pieces = .ok place) : grown.walk location pieces = .ok place := by
  induction pieces generalizing location with
  | nil => exact success
  | cons piece rest inductionHypothesis =>
    obtain ⟨directory, leads, further⟩ := walk_cons_eq_ok.mp success
    exact walk_cons_eq_ok.mpr ⟨grows.directories _ directory,
      fun real down => ⟨(leads real down).1, grows.present _ (leads real down).2⟩, inductionHypothesis further⟩

theorem Grows.origin (grows : Grows tree grown) (path : Path) : grown.origin path = tree.origin path := by
  rw [FileTree.origin, FileTree.origin, grows.workingDirectory]

theorem Grows.locate (grows : Grows tree grown) {path : Path} {place : Location}
    (success : tree.locate path = .ok place) : grown.locate path = .ok place := by
  obtain ⟨usable, walked⟩ := locate_eq_ok.mp success
  refine locate_eq_ok.mpr ⟨usable, ?_⟩
  rw [grows.origin]
  exact grows.walk walked

theorem Grows.proper (grows : Grows tree grown) (proper : tree.Proper) : grown.Proper := by
  rw [Proper, grows.workingDirectory]
  exact proper

/-- The files after a step, whether it fails or not. -/
def filesAfter {ε α : Type} : EStateM.Result ε FileTree α → FileTree
  | .ok _ files => files
  | .error _ files => files

/-- The step grows every tree, also if it fails. -/
def Growing (step : Changing Unit) : Prop :=
  ∀ tree, Grows tree (filesAfter (step tree))

theorem makeDirectory_cases (path : Path) (tree : FileTree) :
    filesAfter (makeDirectory path tree) = tree ∨ ∃ place, place ≠ [] ∧ tree.node? place = none ∧
      filesAfter (makeDirectory path tree) = tree.insertAt place .directory := by
  rw [makeDirectory, Running.get_bind]
  cases tree.lastStep path with
  | error error => exact .inl rfl
  | ok found =>
    obtain ⟨location, _ | name⟩ := found
    · exact .inl rfl
    · by_cases taken : (tree.node? (location ++ [name])).isSome = true
      · exact .inl ((congrArg (fun step : Changing Unit => filesAfter (step tree)) (if_pos taken)).trans rfl)
      · exact .inr ⟨location ++ [name], by simp, by simpa using taken,
          (congrArg (fun step : Changing Unit => filesAfter (step tree)) (if_neg taken)).trans rfl⟩

theorem makeDirectory_growing (path : Path) : Growing (makeDirectory path) := by
  intro tree
  rcases makeDirectory_cases path tree with same | ⟨place, below, free, added⟩
  · rw [same]
    exact .refl tree
  · rw [added]
    exact grows_insertAt below _ (by simp [free])

theorem filesAfter_pardon (path : Path) (error : AccessError) (tree : FileTree) :
    filesAfter (if tree.isDirectory path then .ok () tree else .error error tree) = tree := by
  split <;> rfl

theorem Growing.unlessDirectory {path : Path} {action : Changing Unit} (growing : Growing action) :
    Growing (unlessDirectory path action) := by
  intro tree
  have step := growing tree
  rw [FileTree.unlessDirectory]
  cases run : action tree with
  | ok result after => rwa [run] at step
  | error error after =>
    rw [run] at step
    exact (filesAfter_pardon path error after).symm ▸ step

/-- Whatever directories are made on the way, the tree grows. -/
theorem makeAll_growing (path : Path) (fuel : Nat) : Growing (makeAll path fuel) := by
  induction fuel generalizing path with
  | zero => exact fun tree => .refl tree
  | succ fuel inductionHypothesis =>
    intro tree
    have step := makeDirectory_growing path tree
    rw [makeAll]
    split
    · exact .refl tree
    · dsimp only
      cases run : makeDirectory path tree with
      | ok result after => rwa [run] at step
      | error error after =>
        rw [run] at step
        cases error with
        | notFound =>
          have outer := inductionHypothesis (path.parent?.getD ⟨""⟩) after
          dsimp only
          cases run' : makeAll (path.parent?.getD ⟨""⟩) fuel after with
          | ok result later =>
            rw [run'] at outer
            exact step.trans (outer.trans ((makeDirectory_growing path).unlessDirectory later))
          | error error later =>
            rw [run'] at outer
            exact step.trans outer
        | _ => exact (filesAfter_pardon path _ after).symm ▸ step

theorem makePath_grows {path : Path} (made : makePath path tree = .ok () grown) : Grows tree grown := by
  have growing := makeAll_growing path (path.pieces.length + 1) tree
  rw [makePath] at made
  rwa [made] at growing

end Growth

section Walk

variable {location place : Location}

theorem walk_append {first rest : List String} :
    tree.walk location (first ++ rest) = .ok place ↔
      ∃ between, tree.walk location first = .ok between ∧ tree.walk between rest = .ok place := by
  induction first generalizing location with
  | nil => simp [walk]
  | cons piece others inductionHypothesis =>
    rw [List.cons_append, walk_cons_eq_ok, inductionHypothesis]
    constructor
    · rintro ⟨directory, leads, between, further, last⟩
      exact ⟨between, walk_cons_eq_ok.mpr ⟨directory, leads, further⟩, last⟩
    · rintro ⟨between, walked, last⟩
      obtain ⟨directory, leads, further⟩ := walk_cons_eq_ok.mp walked
      exact ⟨directory, leads, between, further, last⟩

theorem walk_name {name : String} (named : Path.IsName name) :
    tree.walk location [name] = .ok place ↔
      tree.node? location = some .directory ∧ name.utf8ByteSize ≤ nameLimit ∧
        (tree.node? (location ++ [name])).isSome = true ∧ place = location ++ [name] := by
  rw [walk_cons_eq_ok, onward_of_real named.1 named.2.1, walk, Except.ok.injEq]
  constructor
  · rintro ⟨directory, leads, rfl⟩
    exact ⟨directory, (leads named.1 named.2.1).1, (leads named.1 named.2.1).2, rfl⟩
  · rintro ⟨directory, short, present, rfl⟩
    exact ⟨directory, fun _ _ => ⟨short, present⟩, rfl⟩

theorem walk_mem {pieces : List String} (success : tree.walk location pieces = .ok place) {name : String}
    (member : name ∈ place) : name ∈ location ∨ name ∈ pieces := by
  induction pieces generalizing location with
  | nil =>
    obtain rfl := Except.ok.inj success
    exact .inl member
  | cons piece rest inductionHypothesis =>
    rcases inductionHypothesis (walk_cons_eq_ok.mp success).2.2 with early | late
    · rw [onward] at early
      split at early
      · split at early
        · exact .inl (List.mem_of_mem_dropLast early)
        · rcases List.mem_append.mp early with old | new
          · exact .inl old
          · exact .inr (List.mem_singleton.mp new ▸ List.mem_cons_self)
      · exact .inl early
    · exact .inr (List.mem_cons_of_mem _ late)

end Walk

/-- The path can be used, and leads to a directory below which its last name can stand. -/
structure Approaches (tree : FileTree) (path : Path) (before : List String) (location : Location) (last : String) :
    Prop where
  ends : path.EndsIn before last
  usable : checkPath path = .ok ()
  walked : tree.walk (tree.origin path) before = .ok location
  directory : tree.node? location = some .directory
  short : last.utf8ByteSize ≤ nameLimit

section Approach

variable {path other : Path} {before : List String} {location place : Location} {last last' text : String}

theorem locate_endsIn (ends : path.EndsIn before last) :
    tree.locate path = .ok place ↔ ∃ location, tree.Approaches path before location last ∧
      (tree.node? (location ++ [last])).isSome = true ∧ place = location ++ [last] := by
  rw [locate_eq_ok, ends.pieces, walk_append]
  constructor
  · rintro ⟨usable, location, walked, further⟩
    obtain ⟨directory, short, present, rfl⟩ := (walk_name ends.named).mp further
    exact ⟨location, ⟨ends, usable, walked, directory, short⟩, present, rfl⟩
  · rintro ⟨location, approach, present, rfl⟩
    exact ⟨approach.usable, location, approach.walked,
      (walk_name ends.named).mpr ⟨approach.directory, approach.short, present, rfl⟩⟩

theorem lastStep_endsIn (ends : path.EndsIn before last) {found : Option String}
    (success : tree.lastStep path = .ok (location, found)) :
    tree.Approaches path before location last ∧ found = some last := by
  have named : ¬ (last = "." ∨ last = "..") := by
    rintro (rfl | rfl)
    · exact absurd ends.named.1 (by decide)
    · exact ends.named.2.1 rfl
  have backwards : path.pieces.reverse.dropWhile (fun piece => decide (piece = "")) = last :: before.reverse := by
    rw [ends.pieces, List.reverse_append, List.reverse_singleton, List.singleton_append,
      List.dropWhile_cons_of_neg (by simpa using ends.last_ne_empty)]
  obtain ⟨_, usable, rest⟩ := (Running.attempt_eq_ok _ _ _).mp success
  rw [backwards] at rest
  obtain ⟨there, walked, rest⟩ := (Running.attempt_eq_ok _ _ _).mp rest
  rw [List.reverse_reverse] at walked
  cases stands : tree.node? there with
  | none =>
    rw [stands] at rest
    cases rest
  | some node =>
    cases node with
    | file content =>
      rw [stands] at rest
      cases rest
    | directory =>
      rw [stands] at rest
      dsimp only at rest
      rw [if_neg named] at rest
      by_cases long : nameLimit < last.utf8ByteSize
      · rw [if_pos long] at rest
        cases rest
      · rw [if_neg long] at rest
        cases rest
        exact ⟨⟨ends, usable, walked, stands, Nat.le_of_not_lt long⟩, rfl⟩

/-- A file that is written stands below the directory that its path leads to. -/
theorem write_endsIn (ends : path.EndsIn before last) (written : write path text tree = .ok () grown) :
    ∃ location, tree.Approaches path before location last ∧ tree.node? (location ++ [last]) ≠ some .directory ∧
      grown = tree.insertAt (location ++ [last]) (.file (.text text)) := by
  rw [write, Running.get_bind, Running.bind_eq_ok] at written
  obtain ⟨⟨location, found⟩, between, step, rest⟩ := written
  obtain ⟨success, rfl⟩ := (Running.ofExcept_eq_ok _ _ _ _).mp step
  obtain ⟨approach, rfl⟩ := lastStep_endsIn ends success
  refine ⟨location, approach, ?_⟩
  by_cases taken : tree.node? (location ++ [last]) = some .directory
  · dsimp only at rest
    rw [if_pos taken] at rest
    cases rest
  · dsimp only at rest
    rw [if_neg taken] at rest
    exact ⟨taken, ((Running.set_eq_ok _ _ _ _).mp rest).symm⟩

namespace Approaches

theorem locate (approach : tree.Approaches path before location last)
    (present : (tree.node? (location ++ [last])).isSome = true) : tree.locate path = .ok (location ++ [last]) :=
  (locate_endsIn approach.ends).mpr ⟨location, approach, present, rfl⟩

theorem grow (approach : tree.Approaches path before location last) (grows : Grows tree grown) :
    grown.Approaches path before location last := by
  refine ⟨approach.ends, approach.usable, ?_, grows.directories _ approach.directory, approach.short⟩
  rw [grows.origin]
  exact grows.walk approach.walked

/-- A name next to the last one. -/
theorem sibling (approach : tree.Approaches path before location last) (ends : other.EndsIn before last')
    (usable : checkPath other = .ok ()) (short : last'.utf8ByteSize ≤ nameLimit) :
    tree.Approaches other before location last' := by
  refine ⟨ends, usable, ?_, approach.directory, short⟩
  rw [approach.ends.origin_eq ends tree]
  exact approach.walked

theorem location_eq (approach : tree.Approaches path before location last) {there : Location}
    (approach' : tree.Approaches other before there last') : there = location := by
  have walked := approach'.walked
  rw [approach.ends.origin_eq approach'.ends tree, approach.walked] at walked
  exact (Except.ok.inj walked).symm

theorem readText (approach : tree.Approaches path before location last)
    (node : tree.node? (location ++ [last]) = some (.file (.text text))) : tree.readText path = .ok text :=
  readText_eq_ok.mpr ⟨_, approach.locate (by simp [node]), node⟩

/-- What is next to the last name is a file if a file stands there and its path can be used. -/
theorem isFile_sibling (approach : tree.Approaches path before location last) (ends : other.EndsIn before last') :
    tree.isFile other = true ↔ checkPath other = .ok () ∧ last'.utf8ByteSize ≤ nameLimit ∧
      ∃ content, tree.node? (location ++ [last']) = some (.file content) := by
  constructor
  · intro file
    obtain ⟨place, content, located, node⟩ := isFile_eq_true file
    obtain ⟨there, approach', _, rfl⟩ := (locate_endsIn ends).mp located
    obtain rfl := approach.location_eq approach'
    exact ⟨approach'.usable, approach'.short, content, node⟩
  · rintro ⟨usable, short, content, node⟩
    rw [isFile, at?, (approach.sibling ends usable short).locate (by simp [node])]
    simp [node]

end Approaches

/-- The directory from which relative paths start is where its absolute path leads. -/
def Grounded (tree : FileTree) : Prop :=
  tree.locate (pathOf tree.workingDirectory) = .ok tree.workingDirectory

instance (tree : FileTree) : Decidable tree.Grounded :=
  inferInstanceAs (Decidable (_ = _))

theorem Grounded.grow (grounded : tree.Grounded) (grows : Grows tree grown) : grown.Grounded := by
  rw [Grounded, grows.workingDirectory]
  exact grows.locate grounded

theorem walk_pathOf (names : ∀ name ∈ place, Path.IsName name) (located : tree.locate (pathOf place) = .ok place) :
    tree.walk [] place = .ok place := by
  have walked := locate_moves located
  rwa [moves_pathOf names, origin, pathOf_isAbsolute, if_pos rfl] at walked

/-- A place to which a walk leads is where its names lead. -/
theorem walk_grounded {pieces : List String} (success : tree.walk location pieces = .ok place)
    (names : ∀ name ∈ location, Path.IsName name) (slashless : ∀ piece ∈ pieces, '/' ∉ piece.toList)
    (grounded : tree.walk [] location = .ok location) : tree.walk [] place = .ok place := by
  induction pieces generalizing location with
  | nil =>
    obtain rfl := Except.ok.inj success
    exact grounded
  | cons piece rest inductionHypothesis =>
    obtain ⟨here, others⟩ := List.forall_mem_cons.mp slashless
    obtain ⟨directory, leads, further⟩ := walk_cons_eq_ok.mp success
    by_cases real : Path.isReal piece = true
    · by_cases up : piece = ".."
      · have dropped : onward location piece = location.dropLast := by rw [onward, if_pos real, if_pos up]
        rw [dropped] at further
        refine inductionHypothesis further (fun name member => names name (List.mem_of_mem_dropLast member)) others ?_
        rcases List.eq_nil_or_concat location with rfl | ⟨outer, name, rfl⟩
        · exact grounded
        · rw [List.concat_eq_append] at grounded names ⊢
          rw [List.dropLast_concat]
          obtain ⟨between, walked, _⟩ := walk_append.mp grounded
          have straight := walk_of_names walked fun piece member => names piece (List.mem_append_left _ member)
          rwa [straight, List.nil_append] at walked
      · rw [onward_of_real real up] at further
        have named : Path.IsName piece := ⟨real, up, here⟩
        refine inductionHypothesis further ?_ others ?_
        · exact List.forall_mem_append.mpr ⟨names, by simpa using named⟩
        · obtain ⟨short, present⟩ := leads real up
          exact walk_append.mpr ⟨location, grounded, (walk_name named).mpr ⟨directory, short, present, rfl⟩⟩
    · rw [onward_of_idle real] at further
      exact inductionHypothesis further names others grounded

/-- The absolute path of what a path leads to can be used unless it is too long. -/
theorem checkPath_pathOf (names : ∀ name ∈ place, Path.IsName name) (clean : ∀ name ∈ place, '\x00' ∉ name.toList)
    (short : (pathOf place).text.utf8ByteSize < pathLimit) : checkPath (pathOf place) = .ok () := by
  have absolute := pathOf_isAbsolute place
  refine checkPath_eq_ok.mpr ⟨?_, ?_, short⟩
  · intro empty
    rw [Path.isAbsolute, empty] at absolute
    cases absolute
  · cases place with
    | nil => decide
    | cons first rest =>
      rw [Path.toList_of_isAbsolute absolute, pieces_pathOf (List.cons_ne_nil _ _) names, List.tail_cons]
      intro member
      obtain ⟨name, inside, null⟩ := List.mem_flatMap.mp member
      rcases List.mem_cons.mp null with slash | later
      · cases slash
      · exact clean name inside later

theorem Approaches.names (approach : tree.Approaches path before location last) (proper : tree.Proper) :
    ∀ name ∈ location ++ [last], Path.IsName name := by
  have slashless : ∀ piece ∈ before, '/' ∉ piece.toList := fun piece member =>
    Path.not_mem_pieces (approach.ends.pieces.symm ▸ List.mem_append_left _ member)
  refine List.forall_mem_append.mpr ⟨walk_names approach.walked ?_ slashless, by simpa using approach.ends.named⟩
  rw [origin]
  split
  · exact fun name member => absurd member List.not_mem_nil
  · exact proper

/-- The absolute path leads where the path does, unless it is too long. -/
theorem Approaches.absolute (approach : tree.Approaches path before location last) (proper : tree.Proper)
    (grounded : tree.Grounded) (short : (pathOf (location ++ [last])).text.utf8ByteSize < pathLimit) :
    tree.Approaches (pathOf (location ++ [last])) ("" :: location) location last := by
  have names := approach.names proper
  have slashless : ∀ piece ∈ before, '/' ∉ piece.toList := fun piece member =>
    Path.not_mem_pieces (approach.ends.pieces.symm ▸ List.mem_append_left _ member)
  have start : (∀ name ∈ tree.origin path, Path.IsName name) ∧ (∀ name ∈ tree.origin path, '\x00' ∉ name.toList) ∧
      tree.walk [] (tree.origin path) = .ok (tree.origin path) := by
    rw [origin]
    split
    · exact ⟨by simp, by simp, rfl⟩
    · refine ⟨proper, fun name member null => ?_, walk_pathOf proper grounded⟩
      have usable := (locate_eq_ok.mp grounded).1
      have inside : name ∈ (pathOf tree.workingDirectory).pieces := by
        rw [pieces_pathOf (List.ne_nil_of_mem member) proper]
        exact List.mem_cons_of_mem _ member
      exact (checkPath_eq_ok.mp usable).2.1 (Path.subset_of_mem_pieces inside null)
  obtain ⟨names', clean, grounded'⟩ := start
  have clean' : ∀ name ∈ location ++ [last], '\x00' ∉ name.toList := by
    have pieces : ∀ piece ∈ path.pieces, '\x00' ∉ piece.toList := fun piece member null =>
      (checkPath_eq_ok.mp approach.usable).2.1 (Path.subset_of_mem_pieces member null)
    rw [approach.ends.pieces] at pieces
    refine List.forall_mem_append.mpr ⟨fun name member => ?_, fun name member => pieces name (by simp_all)⟩
    rcases walk_mem approach.walked member with early | late
    · exact clean name early
    · exact pieces name (List.mem_append_left _ late)
  refine ⟨.of_pathOf names, checkPath_pathOf names clean' short, ?_, approach.directory, approach.short⟩
  rw [origin, pathOf_isAbsolute, if_pos rfl, walk_cons_eq_ok]
  exact ⟨rfl, fun real => absurd real (by decide), walk_grounded approach.walked names' slashless grounded'⟩

end Approach

end FileTree

end DeployRecipe
