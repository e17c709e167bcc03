/-!
The BLAKE3 hash function. The input is cut into chunks of 1024 bytes, every chunk is compressed block by
block, and the chunks are combined in pairs, level by level, up to a single node whose compression is the
hash.
-/

namespace DeployRecipe.Blake3

/-- A hash value or a part of the input as words of 32 bits. -/
abbrev Words (size : Nat) := Vector UInt32 size

/-- The first words of the fractional parts of square roots of primes. -/
def initial : Words 8 := #v[
  0x6A09E667, 0xBB67AE85, 0x3C6EF372, 0xA54FF53A, 0x510E527F, 0x9B05688C, 0x1F83D9AB, 0x5BE0CD19]

/-- The order in which each round takes the words of the round before. -/
def permutation : Vector (Fin 16) 16 := #v[2, 6, 3, 10, 7, 0, 4, 13, 1, 11, 12, 5, 9, 14, 15, 8]

def rotateRight (word : UInt32) (places : UInt32) : UInt32 :=
  (word >>> places) ||| (word <<< (32 - places))

/-- Mixes two words into four words of the state. -/
def mix (state : Words 16) (a b c d : Fin 16) (first second : UInt32) : Words 16 :=
  let wordA := state[a] + state[b] + first
  let wordD := rotateRight (state[d] ^^^ wordA) 16
  let wordC := state[c] + wordD
  let wordB := rotateRight (state[b] ^^^ wordC) 12
  let wordA := wordA + wordB + second
  let wordD := rotateRight (wordD ^^^ wordA) 8
  let wordC := wordC + wordD
  let wordB := rotateRight (wordB ^^^ wordC) 7
  (((state.set a wordA).set b wordB).set c wordC).set d wordD

/-- Mixes a block into the columns of the state and then into its diagonals. -/
def round (state block : Words 16) : Words 16 :=
  let state := mix state 0 4 8 12 block[0] block[1]
  let state := mix state 1 5 9 13 block[2] block[3]
  let state := mix state 2 6 10 14 block[4] block[5]
  let state := mix state 3 7 11 15 block[6] block[7]
  let state := mix state 0 5 10 15 block[8] block[9]
  let state := mix state 1 6 11 12 block[10] block[11]
  let state := mix state 2 7 8 13 block[12] block[13]
  mix state 3 4 9 14 block[14] block[15]

def permute (block : Words 16) : Words 16 :=
  permutation.map fun place => block[place]

/-- Rounds of mixing, with the block permuted after each. -/
def rounds : Nat → Words 16 → Words 16 → Words 16
  | 0, state, _ => state
  | count + 1, state, block => rounds count (round state block) (permute block)

/-- A block that is ready for compression. -/
structure Node where
  chaining : Words 8
  block : Words 16
  counter : UInt64
  blockLength : UInt32
  flags : UInt32

def chunkStart : UInt32 := 1
def chunkEnd : UInt32 := 2
def parentFlag : UInt32 := 4
def rootFlag : UInt32 := 8

/-- The compression of a node: the first eight words of the result. -/
def Node.compress (node : Node) : Words 8 :=
  let start : Words 16 := node.chaining ++ #v[
    initial[0], initial[1], initial[2], initial[3], node.counter.toUInt32,
    (node.counter >>> 32).toUInt32, node.blockLength, node.flags]
  let final := rounds 7 start node.block
  Vector.ofFn fun place : Fin 8 => final[place.val] ^^^ final[place.val + 8]

/-- The word with the given bytes, the lowest first. -/
def wordOf (bytes : List UInt8) : UInt32 :=
  bytes.foldr (fun byte word => word * 256 + byte.toUInt32) 0

/-- A block of at most 64 bytes as words; missing bytes are zero. -/
def blockOf (bytes : List UInt8) : Words 16 :=
  Vector.ofFn fun place : Fin 16 => wordOf ((bytes.drop (4 * place.val)).take 4)

/-- Pieces of a list of the given size; the last one may be shorter. -/
def pieces (size : Nat) (bytes : List UInt8) : List (List UInt8) :=
  if size = 0 ∨ bytes.length ≤ size then [bytes]
  else bytes.take size :: pieces size (bytes.drop size)
termination_by bytes.length
decreasing_by
  simp only [List.length_drop]
  omega

/-- The node of the last of some blocks of a chunk; the blocks before it are compressed. -/
def chunkNode (counter : UInt64) (chaining : Words 8) (flags : UInt32) : List (List UInt8) → Node
  | [] => ⟨chaining, blockOf [], counter, 0, flags ||| chunkEnd⟩
  | [last] => ⟨chaining, blockOf last, counter, last.length.toUInt32, flags ||| chunkEnd⟩
  | block :: rest =>
    let node : Node := ⟨chaining, blockOf block, counter, block.length.toUInt32, flags⟩
    chunkNode counter node.compress 0 rest

/-- The nodes of the chunks of the input. -/
def chunkNodes (bytes : List UInt8) : List Node :=
  (pieces 1024 bytes).zipIdx.map fun (chunk, counter) =>
    chunkNode counter.toUInt64 initial chunkStart (pieces 64 chunk)

/-- The node above two nodes. -/
def parent (left right : Node) : Node :=
  ⟨initial, left.compress ++ right.compress, 0, 64, parentFlag⟩

/-- The nodes one level up; a node without a neighbour goes up as it is. -/
def levelUp : List Node → List Node
  | left :: right :: rest => parent left right :: levelUp rest
  | nodes => nodes

theorem length_levelUp_le (nodes : List Node) : (levelUp nodes).length ≤ nodes.length := by
  fun_induction levelUp nodes with
  | case1 left right rest inductionHypothesis =>
    simp only [List.length_cons]
    omega
  | case2 nodes _ => exact Nat.le_refl _

/-- The node above all nodes. -/
def top (first : Node) (rest : List Node) : Node :=
  match rest with
  | [] => first
  | second :: others => top (parent first second) (levelUp others)
termination_by rest.length
decreasing_by
  have shorter := length_levelUp_le others
  simp only [List.length_cons]
  omega

/-- The bytes of a word, the lowest first. -/
def bytesOf (word : UInt32) : List UInt8 :=
  [word.toUInt8, (word >>> 8).toUInt8, (word >>> 16).toUInt8, (word >>> 24).toUInt8]

/-- The hash of some bytes. -/
def hash (bytes : List UInt8) : List UInt8 :=
  match chunkNodes bytes with
  | [] => []
  | first :: rest =>
    let node := top first rest
    let root : Node := { node with counter := 0, flags := node.flags ||| rootFlag }
    root.compress.toList.flatMap bytesOf

end DeployRecipe.Blake3
