import SparseDatasets.Random.Words

/-!
# The ChaCha stream

The random words are the key stream of ChaCha with twelve rounds, a block counter of sixty-four
bits and an all-zero nonce. A block is a square of four rows of four words; a round mixes its
columns, and every second round its diagonals.

- `ChaCha.block`: the sixteen words of a key and a counter.
- `ChaCha.keyOfSeed`: eight key words spread from a seed.
- The instance of `WordStream` gives the words of block after block.
-/

namespace SparseDatasets

/-- A stream: its key, the number of the next block, and the words left of the last one. -/
structure ChaCha where
  key : List UInt32
  counter : UInt64
  pending : List UInt32
deriving DecidableEq

namespace ChaCha

/-! ## Blocks -/

/-- The bits of a word moved up by `n` places, those that leave coming back below. -/
def rotate (x : UInt32) (n : UInt32) : UInt32 := x <<< n ||| x >>> (32 - n)

/-- Mixes the four words of a column. -/
def mix (a b c d : UInt32) : UInt32 × UInt32 × UInt32 × UInt32 :=
  let a := a + b
  let d := rotate (d ^^^ a) 16
  let c := c + d
  let b := rotate (b ^^^ c) 12
  let a := a + b
  let d := rotate (d ^^^ a) 8
  let c := c + d
  let b := rotate (b ^^^ c) 7
  (a, b, c, d)

/-- The four rows of a block. -/
structure Square where
  a : List UInt32
  b : List UInt32
  c : List UInt32
  d : List UInt32

namespace Square

/-- Mixes every column. -/
def mixColumns (s : Square) : Square :=
  let columns := ((s.a.zip s.b).zip (s.c.zip s.d)).map fun ((a, b), (c, d)) => mix a b c d
  { a := columns.map (·.1)
    b := columns.map (·.2.1)
    c := columns.map (·.2.2.1)
    d := columns.map (·.2.2.2) }

/-- Mixes the columns and then the diagonals, which are columns once the rows are turned. -/
def doubleRound (s : Square) : Square :=
  let s := s.mixColumns
  let s := { s with b := s.b.rotateLeft 1, c := s.c.rotateLeft 2, d := s.d.rotateLeft 3 }
  let s := s.mixColumns
  { s with b := s.b.rotateRight 1, c := s.c.rotateRight 2, d := s.d.rotateRight 3 }

/-- The words row by row. -/
def words (s : Square) : List UInt32 := s.a ++ s.b ++ s.c ++ s.d

end Square

/-- The block before mixing: the constants, the key, the counter and a zero nonce. -/
def initial (key : List UInt32) (counter : UInt64) : Square :=
  { a := [0x61707865, 0x3320646e, 0x79622d32, 0x6b206574]
    b := key.take 4
    c := key.drop 4
    d := [counter.toUInt32, (counter >>> 32).toUInt32, 0, 0] }

/-- The sixteen words of a key and a counter: six double rounds, and the start added back. -/
def block (key : List UInt32) (counter : UInt64) : List UInt32 :=
  let start := initial key counter
  let mixed := (List.range 6).foldl (fun s _ => s.doubleRound) start
  (mixed.words.zip start.words).map fun (x, y) => x + y

/-! ## Seeds -/

/-- The state of the generator that spreads a seed, one step on. -/
def spreadStep (state : UInt64) : UInt64 := state * 6364136223846793005 + 11634580027462260723

/-- The word of a state of that generator: its upper bits folded and turned. -/
def spreadWord (state : UInt64) : UInt32 :=
  let folded := (((state >>> 18) ^^^ state) >>> 27).toUInt32
  let turn := (state >>> 59).toUInt32
  folded >>> turn ||| folded <<< ((32 - turn) % 32)

/-- The next `n` words spread from a state. -/
def spread : (n : Nat) → (state : UInt64) → List UInt32
  | 0, _ => []
  | n + 1, state => spreadWord (spreadStep state) :: spread n (spreadStep state)

/-- Eight key words spread from a seed. -/
def keyOfSeed (seed : UInt64) : List UInt32 := spread 8 seed

/-! ## The stream -/

/-- The next word; a new block is made when the words of the last one are used up. -/
def next (s : ChaCha) : UInt32 × ChaCha :=
  match s.pending with
  | word :: pending => (word, { s with pending })
  | [] =>
    match block s.key s.counter with
    | word :: pending => (word, { s with counter := s.counter + 1, pending })
    | [] => (0, s)

instance : WordStream ChaCha where
  ofSeed seed := ⟨keyOfSeed seed, 0, []⟩
  next := next

end ChaCha

end SparseDatasets
