import RelGraph.Text.Quoted
/-!
The SHA-1 digest of a byte list: the padded message is cut into blocks of sixteen words, each block
is spread to eighty words, and eighty rounds mix them into five words of state.
-/
namespace RelGraph.Digest

/-- The five words of state. -/
structure State where
  a : UInt32
  b : UInt32
  c : UInt32
  d : UInt32
  e : UInt32

/-- Rotates a word to the left. -/
def rotateLeft (w : UInt32) (n : UInt32) : UInt32 := (w <<< n) ||| (w >>> (32 - n))

/-- The state before the first block. -/
def initialState : State := ⟨0x67452301, 0xEFCDAB89, 0x98BADCFE, 0x10325476, 0xC3D2E1F0⟩

/-- The bytes of a number, most significant first. -/
def bigEndian (count n : Nat) : List UInt8 :=
  (List.range count).map fun i => UInt8.ofNat (n / Nat.pow 256 (count - 1 - i))

/-- The message with a one bit, zeros up to a whole block and its length in bits. -/
def padMessage (bytes : List UInt8) : List UInt8 :=
  let zeros := (119 - bytes.length % 64) % 64
  bytes ++ 0x80 :: List.replicate zeros 0 ++ bigEndian 8 (bytes.length * 8)

/-- The word of four bytes at a word position of a block. -/
def wordAt (block : List UInt8) (i : Nat) : UInt32 :=
  ((block.drop (4 * i)).take 4).foldl (fun w b => (w <<< 8) ||| b.toUInt32) 0

/-- The eighty words of a block. -/
def spread (block : List UInt8) : Array UInt32 :=
  let first := ((List.range 16).map (wordAt block)).toArray
  (List.range 64).foldl (fun ws i =>
    let n := i + 16
    let w := ws.getD (n - 3) 0 ^^^ ws.getD (n - 8) 0 ^^^ ws.getD (n - 14) 0 ^^^ ws.getD (n - 16) 0
    ws.push (rotateLeft w 1)) first

/-- The mixing function and the constant of a round. -/
def roundMix (i : Nat) (b c d : UInt32) : UInt32 × UInt32 :=
  if i < 20 then ((b &&& c) ||| (~~~b &&& d), 0x5A827999)
  else if i < 40 then (b ^^^ c ^^^ d, 0x6ED9EBA1)
  else if i < 60 then ((b &&& c) ||| (b &&& d) ||| (c &&& d), 0x8F1BBCDC)
  else (b ^^^ c ^^^ d, 0xCA62C1D6)

/-- One round. -/
def round (ws : Array UInt32) (s : State) (i : Nat) : State :=
  let (f, k) := roundMix i s.b s.c s.d
  ⟨rotateLeft s.a 5 + f + s.e + k + ws.getD i 0, s.a, rotateLeft s.b 30, s.c, s.d⟩

/-- Mixes one block into the state. -/
def absorb (s : State) (block : List UInt8) : State :=
  let t := (List.range 80).foldl (round (spread block)) s
  ⟨s.a + t.a, s.b + t.b, s.c + t.c, s.d + t.d, s.e + t.e⟩

/-- The blocks of a padded message. -/
def blocks (bytes : List UInt8) : List (List UInt8) :=
  (List.range (bytes.length / 64)).map fun i => (bytes.drop (64 * i)).take 64

/-- The digest of a byte list, as forty hexadecimal digits. -/
def sha1 (bytes : List UInt8) : String :=
  let s := (blocks (padMessage bytes)).foldl absorb initialState
  String.ofList ([s.a, s.b, s.c, s.d, s.e].flatMap fun w => Text.hexText 8 w.toNat)

end RelGraph.Digest
