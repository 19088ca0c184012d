/-!
# BLAKE3

The 256-bit BLAKE3 hash of a list of bytes. The bytes are cut into chunks of 1024; each chunk is
compressed in blocks of 64 bytes, and the chunks are joined in pairs, level by level, up to the
root.
-/

namespace ScopedConfig.Blake3

/-- Eight words: a chaining value or a hash. -/
abbrev Words := Array UInt32

def initial : Words :=
  #[0x6A09E667, 0xBB67AE85, 0x3C6EF372, 0xA54FF53A, 0x510E527F, 0x9B05688C, 0x1F83D9AB, 0x5BE0CD19]

/-! ## Flags -/

def chunkStart : UInt32 := 1

def chunkEnd : UInt32 := 2

def parentFlag : UInt32 := 4

def rootFlag : UInt32 := 8

/-! ## Compression -/

def rotateRight (x n : UInt32) : UInt32 := (x >>> n) ||| (x <<< (32 - n))

def word (ws : Words) (i : Nat) : UInt32 := ws[i]?.getD 0

/-- Mixes the message words `x` and `y` into four words of the state. -/
def mix (state : Words) (a b c d : Nat) (x y : UInt32) : Words :=
  let va := word state a + word state b + x
  let vd := rotateRight (word state d ^^^ va) 16
  let vc := word state c + vd
  let vb := rotateRight (word state b ^^^ vc) 12
  let va := va + vb + y
  let vd := rotateRight (vd ^^^ va) 8
  let vc := vc + vd
  let vb := rotateRight (vb ^^^ vc) 7
  (((state.setIfInBounds a va).setIfInBounds b vb).setIfInBounds c vc).setIfInBounds d vd

/-- The places that one round mixes: the columns, then the diagonals. -/
def lanes : List (Nat × Nat × Nat × Nat) :=
  [(0, 4, 8, 12), (1, 5, 9, 13), (2, 6, 10, 14), (3, 7, 11, 15),
   (0, 5, 10, 15), (1, 6, 11, 12), (2, 7, 8, 13), (3, 4, 9, 14)]

def round (state message : Words) : Words :=
  (lanes.zipIdx).foldl (fun state (lane, i) =>
    let (a, b, c, d) := lane
    mix state a b c d (word message (2 * i)) (word message (2 * i + 1))) state

/-- The order of the message words in the next round. -/
def permute (message : Words) : Words :=
  #[2, 6, 3, 10, 7, 0, 4, 13, 1, 11, 12, 5, 9, 14, 15, 8].map (word message)

def rounds : Nat → Words → Words → Words
  | 0, state, _ => state
  | n + 1, state, message => rounds n (round state message) (permute message)

/-- Compresses a block of `length` bytes, which is the `counter`-th chunk's or a parent's. -/
def compress (chaining block : Words) (counter : UInt64) (length flags : UInt32) : Words :=
  let state := chaining ++ initial.extract 0 4 ++
    #[counter.toUInt32, (counter >>> 32).toUInt32, length, flags]
  let out := rounds 7 state block
  (Array.range 8).map fun i => word out i ^^^ word out (i + 8)

/-! ## Chunks -/

def littleEndian : List UInt8 → UInt32
  | [a, b, c, d] =>
    a.toUInt32 ||| (b.toUInt32 <<< 8) ||| (c.toUInt32 <<< 16) ||| (d.toUInt32 <<< 24)
  | _ => 0

/-- Pieces of `size` bytes; the last one may be shorter. -/
def pieces (size : Nat) (bytes : List UInt8) : List (List UInt8) :=
  (List.range ((bytes.length + size - 1) / size)).map fun i => (bytes.drop (i * size)).take size

/-- The sixteen words of a block, filled up with zeros. -/
def blockWords (block : List UInt8) : Words :=
  ((pieces 4 (block ++ List.replicate (64 - block.length) 0)).map littleEndian).toArray

/-- Compresses the blocks of a chunk one after the other. `start` is the flag of its first block;
`last` holds the flags of its last one. -/
def chunkBlocks (counter : UInt64) (last start : UInt32) (chaining : Words) :
    List (List UInt8) → Words
  | [] => chaining
  | [block] =>
    compress chaining (blockWords block) counter (UInt32.ofNat block.length) (start ||| last)
  | block :: rest =>
    chunkBlocks counter last 0 (compress chaining (blockWords block) counter 64 start) rest

/-- The chaining value of a chunk; the root flag goes to a chunk that stands alone. -/
def chunkValue (counter : Nat) (root : UInt32) (chunk : List UInt8) : Words :=
  let blocks := if chunk.isEmpty then [[]] else pieces 64 chunk
  chunkBlocks (UInt64.ofNat counter) (chunkEnd ||| root) chunkStart initial blocks

/-! ## The tree -/

def parentValue (root : UInt32) (left right : Words) : Words :=
  compress initial (left ++ right) 0 64 (parentFlag ||| root)

/-- Joins neighbours; one without a neighbour goes up as it is. -/
def joinPairs : List Words → List Words
  | a :: b :: rest => parentValue 0 a b :: joinPairs rest
  | level => level

/-- Joins the values of more than two chunks until two are left. -/
def reduce : Nat → List Words → List Words
  | 0, level => level
  | n + 1, level => if level.length ≤ 2 then level else reduce n (joinPairs level)

def digest (bytes : List UInt8) : Words :=
  match pieces 1024 bytes with
  | [] => chunkValue 0 rootFlag []
  | [chunk] => chunkValue 0 rootFlag chunk
  | chunks =>
    match reduce chunks.length (chunks.zipIdx.map fun (chunk, i) => chunkValue i 0 chunk) with
    | [left, right] => parentValue rootFlag left right
    | _ => initial

/-! ## Text -/

def hexByte (b : UInt8) : List Char :=
  [Nat.digitChar (b.toNat / 16), Nat.digitChar (b.toNat % 16)]

/-- The bytes of a word, the lowest first. -/
def wordBytes (w : UInt32) : List UInt8 :=
  [w.toUInt8, (w >>> 8).toUInt8, (w >>> 16).toUInt8, (w >>> 24).toUInt8]

/-- The hash of the text's UTF-8 bytes as 64 lower-case digits. -/
def hexDigest (text : String) : String :=
  String.ofList (((digest text.toUTF8.toList).toList.flatMap wordBytes).flatMap hexByte)

end ScopedConfig.Blake3
