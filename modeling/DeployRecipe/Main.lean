import DeployRecipe.CommandLine.Run

/-!
The program. It reads the files below the working directory and below the directories that the arguments
and the settings name, runs the command on them, and then makes the files that the command made. Files
elsewhere are not seen.
-/

namespace DeployRecipe.Program

/-- Adds what stands at a place, with all that stands below it. Links are not followed, and what cannot be
read is left out. -/
partial def addBelow (files : FileTree) (path : Path) : IO FileTree := do
  let place := System.mkFilePath [path.text]
  let location := path.pieces.filter (· ≠ "")
  try
    match (← place.symlinkMetadata).type with
    | .dir =>
      let names := (← place.readDir).toList.map IO.FS.DirEntry.fileName
      names.foldlM (fun files name => addBelow files (path.join ⟨name⟩))
        (files.makeDirectories location)
    | .file => return files.put location (Content.ofBytes (← IO.FS.readBinFile place))
    | _ => return files
  catch _ => return files

/-- Adds the directory that a path leads to, or else the directory of the file that it leads to. -/
def addAround (files : FileTree) (path : Path) : IO FileTree := do
  try
    let place ← IO.FS.realPath ⟨path.text⟩
    let found : Path := ⟨place.toString⟩
    addBelow files (if ← place.isDir then found else found.parent?.getD ⟨"/"⟩)
  catch _ => return files

/-- The files that an invocation may read. -/
def surroundings (invocation : Invocation) (roots : Option String) : IO FileTree := do
  let directory : Path := ⟨(← IO.FS.realPath (← IO.currentDir)).toString⟩
  let start := FileTree.empty (directory.pieces.filter (· ≠ ""))
  let named := invocation.command.paths ++ invocation.settings.toList
  let files ← named.foldlM addAround (← addBelow start directory)
  match Command.settings files invocation.settings roots with
  | .ok settings => settings.searchRoots.foldlM addAround files
  | .error _ => return files

/-- Makes the files and directories that only the second tree has. -/
def makeNew (before after : FileTree) : IO Unit :=
  for (location, node) in after.nodes do
    if (before.node? location).isNone then
      let place := (FileTree.pathOf location).text
      match node with
      | .directory => IO.FS.createDirAll ⟨place⟩
      | .file (.text text) => IO.FS.writeFile ⟨place⟩ text
      | .file .notText => pure ()

/-- Runs the program and gives its exit code. -/
def run (arguments : List String) : IO UInt32 := do
  match Invocation.ofArguments? arguments with
  | none =>
    IO.eprintln Invocation.usage
    return 2
  | some invocation =>
    let roots ← IO.getEnv "RECIPEC_SEARCH_PATH"
    let files ← surroundings invocation roots
    match invocation.run roots files with
    | .ok output after =>
      makeNew files after
      IO.print output
      return 0
    | .error error after =>
      makeNew files after
      IO.eprintln ("error: " ++ error.message)
      return 1

end DeployRecipe.Program

def main (arguments : List String) : IO UInt32 :=
  DeployRecipe.Program.run arguments
