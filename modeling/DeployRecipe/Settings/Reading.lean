import DeployRecipe.FileTree
import DeployRecipe.Settings.Basic
import DeployRecipe.Yaml.Reading

/-!
Reading settings from YAML. Every setting may be left out, and no other names are allowed.
-/

namespace DeployRecipe

/-- Why settings cannot be read. -/
inductive SettingsError where
  | unreadable (path : Path) (error : AccessError)
  | malformed (error : Yaml.ReadError)

def SettingsError.message : SettingsError → String
  | .unreadable path error => "failed to read " ++ path.text ++ ": " ++ error.message
  | .malformed error => "config parse error: " ++ error.message

namespace Settings

open Yaml (Node NodeStep ReadError)

/-- The names of the settings. -/
def names : List String := ["search_paths", "defaults", "validate", "max_overrides_bytes"]

def readRoots (path : List NodeStep) (index : Nat) : List Node → Except ReadError (List Path)
  | [] => .ok []
  | first :: rest => do
    let root ← first.text (path ++ [.item index]) "path string"
    let others ← readRoots path (index + 1) rest
    pure (⟨root⟩ :: others)

/-- Reads entries into a table; a later entry replaces an earlier one of the same name. -/
def readTable (path : List NodeStep) (found : Table) : List (Node × Node) → Except ReadError Table
  | [] => .ok found
  | (key, content) :: rest => do
    let name ← key.text path "a string"
    let value ← content.value (path ++ [key.step])
    readTable path (found.insert name value) rest

def readBool (path : List NodeStep) (node : Node) : Except ReadError Bool :=
  match node.plainScalar? with
  | some (.bool value) => .ok value
  | _ => .error (node.unexpected path "a boolean")

def readBytes (path : List NodeStep) (node : Node) : Except ReadError Nat :=
  match node.plainScalar? with
  | some (.int number) =>
    if 0 ≤ number ∧ number < Nat.pow 2 64 then .ok number.toNat
    else .error (node.unexpected path "u64")
  | _ => .error (node.unexpected path "u64")

/-- Reads one setting. -/
def readEntry (settings : Settings) (name : String) (key node : Node) : Except ReadError Settings :=
  let path := [key.step]
  match name with
  | "search_paths" => do
    let items ← node.items path "a sequence"
    let searchRoots ← readRoots path 0 items
    pure { settings with searchRoots }
  | "defaults" => do
    let entries ← node.entries path "a map"
    let defaults ← readTable path [] entries
    pure { settings with defaults }
  | "validate" => do
    let validate ← readBool path node
    pure { settings with validate }
  | "max_overrides_bytes" => do
    let overridesLimit ← readBytes path node
    pure { settings with overridesLimit }
  | _ => .error (.atNode [] key.mark (.decode (.unknownField name names)))

/-- Reads settings one after the other; `seen` holds the names of those that were read. -/
def readEntries (root : Node) (settings : Settings) (seen : List String) :
    List (Node × Node) → Except ReadError Settings
  | [] => .ok settings
  | (key, node) :: rest => do
    let name ← key.text [] "field identifier"
    if seen.contains name then throw (.atNode [] root.mark (.duplicateField name))
    let settings ← readEntry settings name key node
    readEntries root settings (name :: seen) rest

/-- Reads settings from a node. -/
def ofNode (root : Node) : Except ReadError Settings := do
  let entries ← root.entries [] "struct CompilerConfig"
  readEntries root standard [] entries

/-- Reads settings from a text. -/
def ofText (text : String) : Except SettingsError Settings :=
  match Yaml.readDocument ofNode text with
  | .ok settings => .ok settings
  | .error error => .error (.malformed error)

/-- Reads settings from a file. -/
def ofFile (files : FileTree) (path : Path) : Except SettingsError Settings :=
  match files.read path with
  | .ok text => ofText text
  | .error error => .error (.unreadable path error)

/-- The name of the settings file that counts if no other is named. -/
def fileName : String := "recipec.yaml"

/-- The settings that hold in a directory: those of a named file, else those of the settings file in the
directory, else the standard ones; search roots of the surroundings are added. -/
def load (files : FileTree) (named : Option Path) (directory : Path) (roots : Option String) :
    Except SettingsError Settings := do
  let implicit := directory.join ⟨fileName⟩
  let settings ←
    match named with
    | some path => ofFile files path
    | none => if files.isFile implicit then ofFile files implicit else pure standard
  pure (roots.elim settings settings.addSearchRoots)

end Settings

end DeployRecipe
