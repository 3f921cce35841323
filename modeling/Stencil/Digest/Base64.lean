/-!
# Base64

* `Base64.encode`: bytes as characters of an alphabet, four for every three bytes.
* `Base64.decode?`: the bytes back from the standard alphabet.
-/

namespace Stencil.Base64

/-- The first 62 characters of every alphabet. -/
def letters : List Char :=
  "ABCDEFGHIJKLMNOPQRSTUVWXYZabcdefghijklmnopqrstuvwxyz0123456789".toList

/-- The alphabet for transport. -/
def standard : List Char := letters ++ ['+', '/']

/-- The alphabet for file names and addresses. -/
def urlSafe : List Char := letters ++ ['-', '_']

/-- The character of six bits. -/
def charOf (alphabet : List Char) (n : Nat) : Char := alphabet.getD n '='

/-- **The text of bytes**, filled up with equal signs to a multiple of four characters. -/
def encode (alphabet : List Char) : List UInt8 → List Char
  | a :: b :: c :: rest =>
    let n := (a.toNat * 256 + b.toNat) * 256 + c.toNat
    charOf alphabet (n / 262144) :: charOf alphabet (n / 4096 % 64) ::
      charOf alphabet (n / 64 % 64) :: charOf alphabet (n % 64) :: encode alphabet rest
  | [a, b] =>
    let n := (a.toNat * 256 + b.toNat) * 4
    [charOf alphabet (n / 4096), charOf alphabet (n / 64 % 64), charOf alphabet (n % 64), '=']
  | [a] =>
    let n := a.toNat * 16
    [charOf alphabet (n / 64), charOf alphabet (n % 64), '=', '=']
  | [] => []

/-- The six bits of a character. -/
def valueOf? (c : Char) : Option Nat := standard.idxOf? c

/-- **The bytes of a text** in the standard alphabet. -/
def decode? : List Char → Option (List UInt8)
  | [] => some []
  | [a, b, '=', '='] => do
    let n := (← valueOf? a) * 64 + (← valueOf? b)
    return [(n / 16).toUInt8]
  | [a, b, c, '='] => do
    let n := ((← valueOf? a) * 64 + (← valueOf? b)) * 64 + (← valueOf? c)
    return [(n / 1024).toUInt8, (n / 4 % 256).toUInt8]
  | a :: b :: c :: d :: rest => do
    let n := (((← valueOf? a) * 64 + (← valueOf? b)) * 64 + (← valueOf? c)) * 64 + (← valueOf? d)
    return (n / 65536).toUInt8 :: (n / 256 % 256).toUInt8 :: (n % 256).toUInt8 :: (← decode? rest)
  | _ => none

end Stencil.Base64
