/-!
# UTF-8

* `encode`: the bytes of a text.
* `decode`: the text of a byte string, or the well-formed part before its first bad sequence.
-/

namespace Stencil.Utf8

/-- The bytes of a character. -/
def encodeChar (c : Char) : List UInt8 :=
  let n := c.toNat
  if n < 0x80 then [n.toUInt8]
  else if n < 0x800 then [(0xc0 + n / 0x40).toUInt8, (0x80 + n % 0x40).toUInt8]
  else if n < 0x10000 then
    [(0xe0 + n / 0x1000).toUInt8, (0x80 + n / 0x40 % 0x40).toUInt8, (0x80 + n % 0x40).toUInt8]
  else
    [(0xf0 + n / 0x40000).toUInt8, (0x80 + n / 0x1000 % 0x40).toUInt8,
      (0x80 + n / 0x40 % 0x40).toUInt8, (0x80 + n % 0x40).toUInt8]

/-- **The bytes of a text.** -/
def encode (cs : List Char) : List UInt8 := cs.flatMap encodeChar

/-- The bytes of a string. -/
def encodeString (s : String) : List UInt8 := encode s.toList

/-- The number of bytes of a character. -/
def width (c : Char) : Nat :=
  if c.toNat < 0x80 then 1 else if c.toNat < 0x800 then 2 else if c.toNat < 0x10000 then 3 else 4

theorem length_encodeChar (c : Char) : (encodeChar c).length = width c := by
  simp only [encodeChar, width]
  split
  · rfl
  · split
    · rfl
    · split <;> rfl

/-- A continuation byte's six bits. -/
def tail? (b : UInt8) : Option Nat :=
  if 0x80 ≤ b && b ≤ 0xbf then some (b.toNat - 0x80) else none

/-- The character of a number that is at least `least`, so that no shorter sequence writes it. -/
def scalar? (least n : Nat) : Option Char :=
  if least ≤ n then if h : n.isValidChar then some (Char.ofNatAux n h) else none else none

/-- **The first character of a byte string** and the bytes after it: no overlong form, no
surrogate and nothing above `U+10FFFF`. -/
def decodeChar? : List UInt8 → Option (Char × List UInt8)
  | [] => none
  | a :: rest =>
    if a < 0x80 then (scalar? 0 a.toNat).map (·, rest)
    else if 0xc0 ≤ a && a < 0xe0 then
      match rest with
      | b :: rest => do
        let y ← tail? b
        let c ← scalar? 0x80 ((a.toNat - 0xc0) * 0x40 + y)
        pure (c, rest)
      | _ => none
    else if 0xe0 ≤ a && a < 0xf0 then
      match rest with
      | b :: c :: rest => do
        let y ← tail? b
        let z ← tail? c
        let c ← scalar? 0x800 (((a.toNat - 0xe0) * 0x40 + y) * 0x40 + z)
        pure (c, rest)
      | _ => none
    else if 0xf0 ≤ a && a < 0xf8 then
      match rest with
      | b :: c :: d :: rest => do
        let x ← tail? b
        let y ← tail? c
        let z ← tail? d
        let c ← scalar? 0x10000 ((((a.toNat - 0xf0) * 0x40 + x) * 0x40 + y) * 0x40 + z)
        pure (c, rest)
      | _ => none
    else none

/-- Reads at most `steps` characters: those read and the bytes that are left. -/
def decodeUpTo : Nat → List UInt8 → List Char × List UInt8
  | 0, bytes => ([], bytes)
  | steps + 1, bytes =>
    match decodeChar? bytes with
    | none => ([], bytes)
    | some (c, rest) =>
      let (cs, left) := decodeUpTo steps rest
      (c :: cs, left)

/-- **The longest well-formed part at the start of a byte string**, as text, and the bytes after
it; nothing is left exactly when all of it is well formed. -/
def decodeLongest (bytes : List UInt8) : List Char × List UInt8 := decodeUpTo bytes.length bytes

/-- The text of a byte string, when all of it is well formed. -/
def decode? (bytes : List UInt8) : Option (List Char) :=
  match decodeLongest bytes with
  | (cs, []) => some cs
  | _ => none

/-- The string of a byte string, when all of it is well formed. -/
def decodeString? (bytes : List UInt8) : Option String := (decode? bytes).map String.ofList

end Stencil.Utf8
