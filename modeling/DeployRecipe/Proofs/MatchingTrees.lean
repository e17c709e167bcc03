import DeployRecipe.Proofs.Compilation.Follows
import DeployRecipe.Proofs.Environment.Recording
import DeployRecipe.Proofs.SharedPlace

/-!
Two trees of which the same files were read, with the same hashes. Where a file was read, both trees have it and
the directories that lead to it, so a search that ends at a file that was read ends there in both trees.
-/

namespace DeployRecipe

namespace Sources

/-- The two records hold the same files with the same hashes. -/
def Alike (first second : Sources) : Prop :=
  (∀ source ∈ first, ∃ other ∈ second, other.path.same source.path = true ∧ other.hash = source.hash) ∧
    ∀ source ∈ second, ∃ other ∈ first, other.path.same source.path = true ∧ other.hash = source.hash

instance (first second : Sources) : Decidable (first.Alike second) :=
  inferInstanceAs (Decidable (_ ∧ _))

/-- What is recorded was read. -/
def Exact (files : FileTree) (sources : Sources) : Prop :=
  ∀ source ∈ sources, ∃ text, files.readText source.path = .ok text ∧ source.hash = hashText text

theorem Exact.record {files : FileTree} {sources : Sources} {path : Path} {text : String} (exact : sources.Exact files)
    (read : files.readText path = .ok text) : (sources.record path text).Exact files := by
  rw [Sources.record]
  split
  · exact exact
  · intro source member
    rcases List.mem_append.mp member with old | new
    · exact exact source old
    · obtain rfl := List.mem_singleton.mp new
      exact ⟨text, read, rfl⟩

theorem Exact.hashed {files : FileTree} {sources : Sources} {path : Path} {text : String} (exact : sources.Exact files)
    (read : files.readText path = .ok text) :
    ∃ source ∈ sources.record path text, source.path.same path = true ∧ source.hash = hashText text := by
  rw [Sources.record]
  split
  · rename_i recorded
    obtain ⟨source, member, same⟩ := has_iff.mp recorded
    obtain ⟨text', read', hash⟩ := exact source member
    exact ⟨source, member, same, FileTree.readText_of_same same read' read ▸ hash⟩
  · exact ⟨⟨path, hashText text⟩, List.mem_append_right _ (List.mem_singleton_self _), Path.same_self path, rfl⟩

theorem Alike.symm {first second : Sources} (alike : first.Alike second) : second.Alike first := ⟨alike.2, alike.1⟩

end Sources

namespace FileTree

variable {tree left right : FileTree}

/-- The texts of the files. -/
def texts (tree : FileTree) : List String :=
  tree.nodes.filterMap fun (_, node) =>
    match node with
    | .file (.text text) => some text
    | _ => none

theorem mem_texts_of_readText {path : Path} {text : String} (read : tree.readText path = .ok text) :
    text ∈ tree.texts := by
  obtain ⟨place, _, node⟩ := readText_eq_ok.mp read
  rw [node?] at node
  split at node
  · cases node
  · exact List.mem_filterMap.mpr ⟨(place, .file (.text text)), Entries.mem_of_find? node, rfl⟩

/-- Different texts of the two trees have different hashes. -/
def HashedApart (left right : FileTree) : Prop :=
  ∀ text ∈ left.texts, ∀ other ∈ right.texts, hashText text = hashText other → text = other

instance (left right : FileTree) : Decidable (left.HashedApart right) :=
  inferInstanceAs (Decidable (∀ text ∈ left.texts, ∀ other ∈ right.texts, _ → _))

theorem HashedApart.symm (apart : left.HashedApart right) : right.HashedApart left :=
  fun text member other member' same => (apart other member' text member same.symm).symm

/-- What leads to a plain path leads along directories to its moves. -/
theorem locate_plain {path known : Path} {place : Location} (plain : path.IsPlain) (same : known.same path = true)
    (located : tree.locate known = .ok place) :
    place = path.moves ∧ ∀ outer, outer <+: place → outer ≠ place → tree.node? outer = some .directory := by
  obtain ⟨moves, absolute⟩ := Path.moves_of_same same
  have walked := locate_moves located
  rw [origin, absolute, if_pos plain.absolute, moves] at walked
  refine ⟨walk_of_names walked plain.names, fun outer => ?_⟩
  exact (walk_leads walked (Path.mem_moves_iff.not.mpr plain.straight)).2 outer (List.nil_prefix)

/-- The files in the two records were read in the two trees, and they are the same. -/
structure Matching (left right : FileTree) (first second : Sources) : Prop where
  here : left.workingDirectory = right.workingDirectory
  proper : left.Proper
  named : left.Named
  named' : right.Named
  read : first.Read left
  read' : second.Read right
  alike : first.Alike second
  apart : left.HashedApart right

namespace Matching

variable {first second : Sources}

theorem symm (matching : Matching left right first second) : Matching right left second first where
  here := matching.here.symm
  proper := by
    rw [Proper, ← matching.here]
    exact matching.proper
  named := matching.named'
  named' := matching.named
  read := matching.read'
  read' := matching.read
  alike := matching.alike.symm
  apart := matching.apart.symm

variable (matching : Matching left right first second)
include matching

/-- A file that was read stands in both trees. -/
theorem shares {path : Path} (plain : path.IsPlain) (recorded : first.has path = true) :
    ∃ text, Shares left right path.moves ∧ left.node? path.moves = some (.file (.text text)) := by
  obtain ⟨source, member, same⟩ := Sources.has_iff.mp recorded
  obtain ⟨other, member', same', equal⟩ := matching.alike.1 source member
  have one : source.path.isAbsolute = true := (Path.moves_of_same same).2.trans plain.absolute
  have two : other.path.isAbsolute = true := (Path.moves_of_same same').2.trans one
  obtain ⟨text, read, hash⟩ := matching.read source member one
  obtain ⟨more, read', hash'⟩ := matching.read' other member' two
  obtain rfl : text = more := by
    refine matching.apart _ (mem_texts_of_readText read) _ (mem_texts_of_readText read') ?_
    rw [← hash, ← hash', equal]
  obtain ⟨place, located, node⟩ := readText_eq_ok.mp read
  obtain ⟨there, located', node'⟩ := readText_eq_ok.mp read'
  obtain ⟨rfl, leads⟩ := locate_plain plain same located
  obtain ⟨rfl, leads'⟩ := locate_plain plain (Path.same_trans same' same) located'
  exact ⟨text, ⟨leads, leads', node'.trans node.symm⟩, node⟩

/-- A file that was read has one text. -/
theorem text_eq {path : Path} (plain : path.IsPlain) (recorded : first.has path = true) {text more : String}
    (read : left.readText path = .ok text) (read' : right.readText path = .ok more) : more = text := by
  obtain ⟨_, shared, _⟩ := matching.shares plain recorded
  obtain ⟨place, located, node⟩ := readText_eq_ok.mp read
  obtain ⟨there, located', node'⟩ := readText_eq_ok.mp read'
  obtain rfl := plain.place located
  obtain rfl := plain.place located'
  rw [shared.node, node] at node'
  cases node'
  rfl

theorem isFile {path : Path} (plain : path.IsPlain) (file : left.isFile path = true)
    (recorded : first.has path = true) : right.isFile path = true := by
  obtain ⟨_, shared, _⟩ := matching.shares plain recorded
  obtain ⟨place, _, located, _⟩ := isFile_eq_true file
  exact shared.isFile matching.here plain.straight (plain.place located ▸ located) file

/-- The place of a file whose absolute path was read. -/
theorem shares_canonical {path absolute : Path} (found : left.canonical path = .ok absolute)
    (recorded : first.has absolute = true) : ∃ place, left.locate path = .ok place ∧ Shares left right place := by
  obtain ⟨place, located, rfl⟩ := canonical_eq_ok.mp found
  have names := names_of_locate matching.proper located
  obtain ⟨_, shared, _⟩ := matching.shares (.of_pathOf names) recorded
  rw [moves_pathOf names] at shared
  exact ⟨place, located, shared⟩

section Search

variable {directory candidate path other : Path}

/-- A search in a directory that ends at a file that was read ends there in both trees. -/
theorem theFileEndingIn {file : Path} {suffix : String} (slashless : '/' ∉ suffix.toList)
    (straight : ".." ∉ directory.pieces) (isDirectory : left.isDirectory directory = true)
    (found : left.theFileEndingIn directory suffix = .ok file) {place : Location} (located : left.locate file = .ok place)
    (shared : Shares left right place) :
    right.isDirectory directory = true ∧
      ∀ other, right.theFileEndingIn directory suffix = .ok other → other = file := by
  have member : file ∈ left.filesEndingIn directory suffix :=
    theFileEndingIn_eq_ok.mp found ▸ List.mem_singleton_self file
  obtain ⟨_, _, finds, rfl⟩ := (mem_filesEndingIn slashless).mp member
  obtain ⟨there, finds'⟩ := shared.finds matching.here finds straight matching.named isDirectory located
  refine ⟨there, fun other found' => ?_⟩
  have member' := (mem_filesEndingIn slashless).mpr ⟨_, _, finds', rfl⟩
  rw [theFileEndingIn_eq_ok.mp found', List.mem_singleton] at member'
  exact member'.symm

/-- A file whose absolute path was read is a file in both trees. -/
theorem isFile_of_canonical (straight : ".." ∉ candidate.pieces) (file : left.isFile candidate = true)
    (found : left.canonical candidate = .ok path) (recorded : first.has path = true) :
    right.isFile candidate = true := by
  obtain ⟨place, located, shared⟩ := matching.shares_canonical found recorded
  exact shared.isFile matching.here straight located file

section Settled

variable (straight : ".." ∉ candidate.pieces)
  (settled : BaseReference.settle? left candidate = some (.ok path)) (recorded : first.has path = true)
include straight settled recorded

theorem settles_directory (directory : left.isDirectory candidate = true) : right.isDirectory candidate = true := by
  rcases BaseReference.settle?_eq_ok settled with ⟨_, file, single, found⟩ | ⟨none, _⟩ | ⟨none, _⟩
  · obtain ⟨place, located, shared⟩ := matching.shares_canonical found recorded
    exact (matching.theFileEndingIn (by decide) straight directory single located shared).1
  · rw [directory] at none
    cases none
  · rw [directory] at none
    cases none

theorem settles_file (none : left.isDirectory candidate = false) (file : left.isFile candidate = true) :
    right.isFile candidate = true := by
  rcases BaseReference.settle?_eq_ok settled with ⟨directory, _⟩ | ⟨_, _, found⟩ | ⟨_, other, _⟩
  · rw [none] at directory
    cases directory
  · exact matching.isFile_of_canonical straight file found recorded
  · rw [file] at other
    cases other

/-- A candidate that settles a search in one tree settles it in the other one. -/
theorem settles : (BaseReference.settle? right candidate).isSome = true := by
  have straight' : ".." ∉ (candidate.append ".recipe").pieces :=
    Path.append_straight straight (by decide) (by decide)
  rw [BaseReference.settle?]
  rcases BaseReference.settle?_eq_ok settled with ⟨directory, _⟩ | ⟨none, file, _⟩ | ⟨_, _, file, found⟩
  · rw [if_pos (matching.settles_directory straight settled recorded directory)]
    rfl
  · rw [if_pos (matching.settles_file straight settled recorded none file)]
    split <;> rfl
  · rw [if_pos (matching.isFile_of_canonical straight' file found recorded)]
    split
    · rfl
    · split <;> rfl

/-- It settles it with the same file. -/
theorem settles_alike (settled' : BaseReference.settle? right candidate = some (.ok other))
    (recorded' : second.has other = true) : other = path := by
  have directory := matching.settles_directory straight settled recorded
  have file := matching.settles_file straight settled recorded
  have directory' := matching.symm.settles_directory straight settled' recorded'
  have file' := matching.symm.settles_file straight settled' recorded'
  rcases BaseReference.settle?_eq_ok settled with ⟨is, inner, single, found⟩ | ⟨none, is, found⟩ |
    ⟨none, not, _, found⟩
  · obtain ⟨place, located, shared⟩ := matching.shares_canonical found recorded
    have only := (matching.theFileEndingIn (by decide) straight is single located shared).2
    rcases BaseReference.settle?_eq_ok settled' with ⟨_, inner', single', found'⟩ | ⟨none', _⟩ | ⟨none', _⟩
    · rw [only inner' single'] at found'
      exact canonical_unique matching.here found found'
    · exact absurd (directory is) (by simp [none'])
    · exact absurd (directory is) (by simp [none'])
  · rcases BaseReference.settle?_eq_ok settled' with ⟨is', _⟩ | ⟨_, _, found'⟩ | ⟨_, not', _⟩
    · exact absurd (directory' is') (by simp [none])
    · exact canonical_unique matching.here found found'
    · exact absurd (file none is) (by simp [not'])
  · rcases BaseReference.settle?_eq_ok settled' with ⟨is', _⟩ | ⟨none', is', _⟩ | ⟨_, _, _, found'⟩
    · exact absurd (directory' is') (by simp [none])
    · exact absurd (file' none' is') (by simp [not])
    · exact canonical_unique matching.here found found'

end Settled

/-- The base that a reference names is the same in both trees. -/
theorem resolve_eq {reference : String} {roots : List Path}
    (straight : ∀ candidate ∈ BaseReference.candidates ⟨reference⟩ directory roots, ".." ∉ candidate.pieces)
    (resolved : BaseReference.resolve left reference directory roots = .ok path) (recorded : first.has path = true)
    (resolved' : BaseReference.resolve right reference directory roots = .ok other)
    (recorded' : second.has other = true) : other = path := by
  rw [BaseReference.resolve_eq_ok_iff] at resolved resolved'
  generalize BaseReference.candidates ⟨reference⟩ directory roots = tried at straight resolved resolved'
  induction tried with
  | nil => cases resolved
  | cons candidate rest inductionHypothesis =>
    obtain ⟨here, others⟩ := List.forall_mem_cons.mp straight
    rw [List.findSome?_cons] at resolved resolved'
    cases one : BaseReference.settle? left candidate with
    | some outcome =>
      rw [one] at resolved
      obtain rfl := Option.some.inj resolved
      obtain ⟨outcome', two⟩ := Option.isSome_iff_exists.mp (matching.settles here one recorded)
      rw [two] at resolved'
      obtain rfl := Option.some.inj resolved'
      exact matching.settles_alike here one recorded two recorded'
    | none =>
      cases two : BaseReference.settle? right candidate with
      | some outcome' =>
        rw [two] at resolved'
        obtain rfl := Option.some.inj resolved'
        exact absurd (matching.symm.settles here two recorded') (by simp [one])
      | none =>
        rw [one] at resolved
        rw [two] at resolved'
        exact inductionHypothesis others resolved resolved'

end Search

end Matching

end FileTree

namespace EnvironmentInputs

variable {inputs : EnvironmentInputs} {files left right : FileTree} {path : Path}
  {first second before before' after after' : Sources} {environment other : Environment}

/-- The paths of files other than those next to the recipe. -/
def options (inputs : EnvironmentInputs) : List Path :=
  inputs.propertiesFile.toList ++
    match inputs.overrides with
    | some (.file path) => [path]
    | _ => []

/-- The file of the overrides. -/
def overridesPath? (inputs : EnvironmentInputs) (files : FileTree) : Option Path :=
  match inputs.overrides with
  | some (.file path) => some path
  | some (.script _) => none
  | none => inputs.sibling? files "overrides"

/-- The overrides are the text of their file, if there is one. -/
theorem overridesText?_eq (inputs : EnvironmentInputs) (files : FileTree) :
    inputs.overridesText? files =
      match inputs.overridesPath? files, inputs.overrides with
      | some path, _ => (files.readText path).map fun text => some (path, text)
      | none, some (.script text) => .ok (some (⟨"<overrides script>"⟩, text))
      | none, _ => .ok none := by
  rw [overridesText?, overridesPath?]
  cases inputs.overrides with
  | none => cases inputs.sibling? files "overrides" <;> rfl
  | some overrides => cases overrides <;> rfl

/-- The files that an environment is made from. -/
def Uses (inputs : EnvironmentInputs) (files : FileTree) (path : Path) : Prop :=
  inputs.propertiesPath? files = some path ∨ inputs.overridesPath? files = some path

theorem uses_of_mem_options (files : FileTree) (given : path ∈ inputs.options) : inputs.Uses files path := by
  rw [options, List.mem_append] at given
  rcases given with properties | overrides
  · rw [Option.mem_toList] at properties
    exact Or.inl (by rw [propertiesPath?, properties]; rfl)
  · split at overrides
    · rename_i file
      obtain rfl := List.mem_singleton.mp overrides
      exact Or.inr (by rw [overridesPath?, file])
    · exact absurd overrides List.not_mem_nil

/-- Building an environment reads and records its files. -/
theorem Uses.read (uses : inputs.Uses files path) (run : inputs.build files before = .ok environment after) :
    ∃ (sources : Sources) (text : String), files.readText path = .ok text ∧ sources.record path text ⊆ after ∧
      (before.Exact files → sources.Exact files) := by
  obtain ⟨_, _, _, between, properties, overrides⟩ := build_eq_ok run
  rcases uses with found | found
  · rcases pushProperties_eq_ok properties with ⟨none, _⟩ | ⟨path', text, found', read, rfl⟩
    · rw [none] at found
      cases found
    · obtain rfl := Option.some.inj (found'.symm.trans found)
      refine ⟨before, text, read, ?_, id⟩
      rcases pushOverrides_eq_ok overrides with ⟨_, rfl⟩ | ⟨_, _, _, rfl⟩
      · exact fun _ => id
      · exact Sources.record_subset _ _ _
  · have reading := inputs.overridesText?_eq files
    rw [found] at reading
    rcases pushOverrides_eq_ok overrides with ⟨none, _⟩ | ⟨path', text, found', rfl⟩
    · obtain ⟨_, _, same⟩ := (Running.map_eq_ok _ _ _).mp (reading.symm.trans none)
      cases same
    · obtain ⟨_, read, same⟩ := (Running.map_eq_ok _ _ _).mp (reading.symm.trans found')
      obtain ⟨rfl, rfl⟩ := Prod.mk.inj (Option.some.inj same)
      refine ⟨between, _, read, fun _ => id, fun exact => ?_⟩
      rcases pushProperties_eq_ok properties with ⟨_, rfl⟩ | ⟨_, _, _, read', rfl⟩
      · exact exact
      · exact exact.record read'

theorem Uses.recorded (uses : inputs.Uses files path) (run : inputs.build files before = .ok environment after)
    (inside : after ⊆ first) : first.has path = true := by
  obtain ⟨_, _, _, recorded, _⟩ := uses.read run
  exact Sources.has_of_subset (List.Subset.trans recorded inside)
    (Sources.has_record.mpr (Or.inr (Path.same_self path)))

theorem sibling?_plain (plain : inputs.recipeFile.IsPlain) {extension : String} (slashless : '/' ∉ extension.toList)
    (long : 1 < extension.toList.length) (found : inputs.sibling? files extension = some path) : path.IsPlain := by
  rw [sibling?, Option.filter_some, Option.ite_none_right_eq_some] at found
  obtain ⟨_, same⟩ := found
  obtain rfl := Option.some.inj same
  exact plain.withExtension slashless long

theorem Uses.option_or_plain (plain : inputs.recipeFile.IsPlain) (uses : inputs.Uses files path) :
    path ∈ inputs.options ∨ path.IsPlain := by
  rcases uses with found | found
  · rw [propertiesPath?] at found
    cases given : inputs.propertiesFile with
    | some other =>
      rw [given] at found
      obtain rfl := Option.some.inj found
      exact Or.inl (by simp [EnvironmentInputs.options, given])
    | none =>
      rw [given] at found
      exact Or.inr (sibling?_plain plain (by decide) (by decide) found)
  · rw [overridesPath?] at found
    split at found
    · rename_i given
      obtain rfl := Option.some.inj found
      exact Or.inl (by simp [EnvironmentInputs.options, given])
    · cases found
    · exact Or.inr (sibling?_plain plain (by decide) (by decide) found)

section Matching

variable (matching : FileTree.Matching left right first second) (plain : inputs.recipeFile.IsPlain)
include matching plain

theorem sibling?_eq {extension : String} (slashless : '/' ∉ extension.toList) (long : 1 < extension.toList.length)
    (recorded : ∀ path, inputs.sibling? left extension = some path → first.has path = true)
    (recorded' : ∀ path, inputs.sibling? right extension = some path → second.has path = true) :
    inputs.sibling? right extension = inputs.sibling? left extension := by
  have plain' := plain.withExtension slashless long
  have same : right.isFile (inputs.recipeFile.withExtension extension) =
      left.isFile (inputs.recipeFile.withExtension extension) := by
    refine Bool.eq_iff_iff.mpr ⟨fun file => ?_, fun file => ?_⟩
    · exact matching.symm.isFile plain' file (recorded' _ (by simp [sibling?, file]))
    · exact matching.isFile plain' file (recorded _ (by simp [sibling?, file]))
  rw [sibling?, sibling?, Option.filter_some, Option.filter_some, same]

variable
  (run : inputs.build left before = .ok environment after) (inside : after ⊆ first)
  (run' : inputs.build right before' = .ok other after') (inside' : after' ⊆ second)
include run inside run' inside'

theorem propertiesPath?_eq : inputs.propertiesPath? right = inputs.propertiesPath? left := by
  rw [propertiesPath?, propertiesPath?]
  cases given : inputs.propertiesFile with
  | some path => rfl
  | none =>
    refine sibling?_eq matching plain (by decide) (by decide) (fun path found => ?_) fun path found => ?_
    · have uses : inputs.Uses left path := Or.inl (by rwa [propertiesPath?, given])
      exact uses.recorded run inside
    · have uses : inputs.Uses right path := Or.inl (by rwa [propertiesPath?, given])
      exact uses.recorded run' inside'

theorem overridesPath?_eq : inputs.overridesPath? right = inputs.overridesPath? left := by
  rw [overridesPath?, overridesPath?]
  cases given : inputs.overrides with
  | some overrides => cases overrides <;> rfl
  | none =>
    refine sibling?_eq matching plain (by decide) (by decide) (fun path found => ?_) fun path found => ?_
    · have uses : inputs.Uses left path := Or.inr (by rwa [overridesPath?, given])
      exact uses.recorded run inside
    · have uses : inputs.Uses right path := Or.inr (by rwa [overridesPath?, given])
      exact uses.recorded run' inside'

variable (options : ∀ path ∈ inputs.options, ∀ text more, left.readText path = .ok text →
    right.readText path = .ok more → more = text)
include options

omit inside' in
theorem readText_eq (uses : inputs.Uses left path) (uses' : inputs.Uses right path) :
    right.readText path = left.readText path := by
  obtain ⟨_, text, read, _⟩ := uses.read run
  obtain ⟨_, more, read', _⟩ := uses'.read run'
  rw [read, read']
  rcases uses.option_or_plain plain with given | beside
  · rw [options path given text more read read']
  · rw [matching.text_eq beside (uses.recorded run inside) read read']

/-- The environment of a recipe is built alike in both trees. -/
theorem build_eq : inputs.build right = inputs.build left := by
  have properties := propertiesPath?_eq matching plain run inside run' inside'
  have overrides := overridesPath?_eq matching plain run inside run' inside'
  have text (path : Path) (uses : inputs.Uses left path) (uses' : inputs.Uses right path) :=
    readText_eq matching plain run inside run' options uses uses'
  have lower : inputs.pushProperties right = inputs.pushProperties left := by
    funext below
    rw [pushProperties, pushProperties, properties]
    cases found : inputs.propertiesPath? left with
    | none => rfl
    | some path =>
      dsimp only
      rw [text path (Or.inl found) (Or.inl (properties.trans found))]
  have laid : inputs.overridesText? right = inputs.overridesText? left := by
    rw [overridesText?_eq, overridesText?_eq, overrides]
    cases found : inputs.overridesPath? left with
    | some path =>
      dsimp only
      rw [text path (Or.inr found) (Or.inr (overrides.trans found))]
    | none =>
      cases inputs.overrides with
      | none => rfl
      | some given => cases given <;> rfl
  have upper : inputs.pushOverrides right = inputs.pushOverrides left := by
    funext below
    rw [pushOverrides, pushOverrides, laid]
  rw [build, build, lower, upper]

end Matching

/-- An option stands for the same text in both trees, where all that was recorded before was read. -/
theorem option_text_eq (alike : first.Alike second) (apart : left.HashedApart right) (distinct : second.Distinct)
    (exact : before.Exact left) (exact' : before'.Exact right)
    (run : inputs.build left before = .ok environment after) (inside : after ⊆ first)
    (run' : inputs.build right before' = .ok other after') (inside' : after' ⊆ second) (given : path ∈ inputs.options)
    {text more : String} (read : left.readText path = .ok text) (read' : right.readText path = .ok more) :
    more = text := by
  have hashed {files : FileTree} {before after : Sources} {environment : Environment} (exact : before.Exact files)
      (run : inputs.build files before = .ok environment after) {text : String}
      (read : files.readText path = .ok text) :
      ∃ source ∈ after, source.path.same path = true ∧ source.hash = hashText text := by
    obtain ⟨sources, found, there, recorded, kept⟩ := (uses_of_mem_options files given).read run
    obtain rfl := Except.ok.inj (there.symm.trans read)
    obtain ⟨source, member, same⟩ := (kept exact).hashed read
    exact ⟨source, recorded member, same⟩
  obtain ⟨source, member, same, hash⟩ := hashed exact run read
  obtain ⟨source', member', same', hash'⟩ := hashed exact' run' read'
  obtain ⟨partner, present, together, equal⟩ := alike.1 source (inside member)
  obtain rfl : partner = source' := distinct.eq present (inside' member')
    (Path.same_trans (Path.same_trans together same) (Path.same_symm same'))
  refine (apart _ (FileTree.mem_texts_of_readText read) _ (FileTree.mem_texts_of_readText read') ?_).symm
  rw [← hash, ← hash', equal]

end EnvironmentInputs

end DeployRecipe
