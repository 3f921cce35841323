import Stencil.Text.Quoted

/-!
# MD5

* `Md5.digest`: the sixteen bytes of a digest; `Md5.hex`: its hexadecimal text.
-/

namespace Stencil.Md5

/-- The additive constants of the 64 steps: the integer parts of `2 ^ 32 * |sin i|`. -/
def constants : List UInt32 := [
  0xd76aa478, 0xe8c7b756, 0x242070db, 0xc1bdceee, 0xf57c0faf, 0x4787c62a, 0xa8304613, 0xfd469501,
  0x698098d8, 0x8b44f7af, 0xffff5bb1, 0x895cd7be, 0x6b901122, 0xfd987193, 0xa679438e, 0x49b40821,
  0xf61e2562, 0xc040b340, 0x265e5a51, 0xe9b6c7aa, 0xd62f105d, 0x2441453, 0xd8a1e681, 0xe7d3fbc8,
  0x21e1cde6, 0xc33707d6, 0xf4d50d87, 0x455a14ed, 0xa9e3e905, 0xfcefa3f8, 0x676f02d9, 0x8d2a4c8a,
  0xfffa3942, 0x8771f681, 0x6d9d6122, 0xfde5380c, 0xa4beea44, 0x4bdecfa9, 0xf6bb4b60, 0xbebfbc70,
  0x289b7ec6, 0xeaa127fa, 0xd4ef3085, 0x4881d05, 0xd9d4d039, 0xe6db99e5, 0x1fa27cf8, 0xc4ac5665,
  0xf4292244, 0x432aff97, 0xab9423a7, 0xfc93a039, 0x655b59c3, 0x8f0ccc92, 0xffeff47d, 0x85845dd1,
  0x6fa87e4f, 0xfe2ce6e0, 0xa3014314, 0x4e0811a1, 0xf7537e82, 0xbd3af235, 0x2ad7d2bb, 0xeb86d391]

/-- The rotations of the four steps of each round. -/
def rotations : List (List UInt32) := [
  [7, 12, 17, 22], [5, 9, 14, 20], [4, 11, 16, 23], [6, 10, 15, 21]]

/-- The state between steps. -/
structure State where
  a : UInt32
  b : UInt32
  c : UInt32
  d : UInt32
  deriving DecidableEq, Repr

def State.start : State := ⟨0x67452301, 0xefcdab89, 0x98badcfe, 0x10325476⟩

def State.add (s t : State) : State := ⟨s.a + t.a, s.b + t.b, s.c + t.c, s.d + t.d⟩

def rotateLeft (x n : UInt32) : UInt32 := (x <<< n) ||| (x >>> (32 - n))

/-- The function of a round. -/
def mix (round : Nat) (b c d : UInt32) : UInt32 :=
  match round with
  | 0 => (b &&& c) ||| (~~~b &&& d)
  | 1 => (d &&& b) ||| (~~~d &&& c)
  | 2 => b ^^^ c ^^^ d
  | _ => c ^^^ (b ||| ~~~d)

/-- The word of the block that a step takes. -/
def wordIndex (i : Nat) : Nat :=
  match i / 16 with
  | 0 => i
  | 1 => (5 * i + 1) % 16
  | 2 => (3 * i + 5) % 16
  | _ => 7 * i % 16

/-- One step: the `i`-th one, with its constant. -/
def step (block : List UInt32) (s : State) (i : Nat) (constant : UInt32) : State :=
  let round := i / 16
  let f := mix round s.b s.c s.d + s.a + constant + block.getD (wordIndex i) 0
  ⟨s.d, s.b + rotateLeft f ((rotations.getD round []).getD (i % 4) 0), s.b, s.c⟩

/-- The steps from the `i`-th one on. -/
def steps (block : List UInt32) : State → Nat → List UInt32 → State
  | s, _, [] => s
  | s, i, k :: ks => steps block (step block s i k) (i + 1) ks

/-- The words of a list of bytes, the lowest byte of each first. -/
def words : List UInt8 → List UInt32
  | a :: b :: c :: d :: rest =>
    (a.toUInt32 ||| b.toUInt32 <<< 8 ||| c.toUInt32 <<< 16 ||| d.toUInt32 <<< 24) :: words rest
  | _ => []

/-- The `n` lowest bytes of a number, the lowest first. -/
def bytesOf : Nat → Nat → List UInt8
  | 0, _ => []
  | n + 1, x => (x % 256).toUInt8 :: bytesOf n (x / 256)

/-- A message with a one bit, zeros and its length in bits, so that it fills whole blocks. -/
def pad (message : List UInt8) : List UInt8 :=
  let n := message.length
  message ++ 0x80 :: List.replicate ((119 - n % 64) % 64) 0 ++ bytesOf 8 (8 * n)

/-- The state after the first `n` blocks. -/
def blocks : Nat → List UInt8 → State → State
  | 0, _, s => s
  | n + 1, bytes, s =>
    blocks n (bytes.drop 64) (s.add (steps (words (bytes.take 64)) s 0 constants))

/-- **The digest of a message**, sixteen bytes. -/
def digest (message : List UInt8) : List UInt8 :=
  let padded := pad message
  let s := blocks (padded.length / 64) padded .start
  [s.a, s.b, s.c, s.d].flatMap fun x => bytesOf 4 x.toNat

theorem length_bytesOf (n x : Nat) : (bytesOf n x).length = n := by
  induction n generalizing x with
  | zero => rfl
  | succ n ih => simp [bytesOf, ih]

theorem length_digest (message : List UInt8) : (digest message).length = 16 := by
  simp [digest, length_bytesOf]

/-- **The digest of a message as hexadecimal text.** -/
def hex (message : List UInt8) : String :=
  String.ofList ((digest message).flatMap fun b => Text.hexDigits 2 b.toNat)

end Stencil.Md5
