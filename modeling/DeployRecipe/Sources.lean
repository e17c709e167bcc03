import DeployRecipe.Digest.Blake3
import DeployRecipe.Path

/-!
The record of the files that a compilation read: each path once, with the hash of the text that was read
first.
-/

namespace DeployRecipe

/-- Bytes as pairs of hexadecimal digits. -/
def hexadecimal (bytes : List UInt8) : String :=
  String.ofList (bytes.flatMap fun byte =>
    [Nat.digitChar (byte.toNat / 16), Nat.digitChar (byte.toNat % 16)])

/-- The hash of a text, with the name of the hash function. -/
def hashText (text : String) : String :=
  "blake3:" ++ hexadecimal (Blake3.hash text.toUTF8.toList)

/-- A file that was read. -/
structure Source where
  path : Path
  hash : String
deriving DecidableEq, Repr

/-- The files that were read, in the order of their first reading. -/
abbrev Sources := List Source

namespace Sources

def has (sources : Sources) (path : Path) : Bool :=
  sources.any fun source => source.path.same path

/-- Records that a path was read with a text. A path that was recorded before keeps its first hash. -/
def record (sources : Sources) (path : Path) (text : String) : Sources :=
  if sources.has path then sources else sources ++ [⟨path, hashText text⟩]

/-- The line of a file in the text that the digest is taken of. -/
def line (source : Source) : String :=
  source.path.text ++ "\x00" ++ source.hash ++ "\n"

/-- The text that the digest is taken of: a line for each file, in the order of the paths. -/
def manifest (sources : Sources) : String :=
  String.join ((sources.mergeSort fun left right => left.path.le right.path).map line)

/-- The digest of all files together. -/
def digest (sources : Sources) : String :=
  hashText sources.manifest

end Sources

end DeployRecipe
