import Stencil.Proofs.StringLiterals

/-!
# Printed literals

* `Literal.print`: the text of a literal that is no decimal fraction.
* `Literal.Plain`: the literals that are printed.
* **`Literal.scan_print`**, **`Literal.ofToken_print`**: a printed literal is one token, which is
  read as that literal.
-/

namespace Stencil

open Text Expr

/-! ## Strings -/

namespace Text.CodePoint

/-- A code point inside a string. -/
def print (p : CodePoint) : List Char :=
  match p.toChar? with
  | some c => if c = '"' ∨ c = '\\' then ['\\', c] else [c]
  | none => '\\' :: 'u' :: '\x7b' :: (Nat.toDigits 16 p.value ++ ['\x7d'])

/-- A string with the given code points, between quotes. -/
def quoted (ps : List CodePoint) : List Char := '"' :: (ps.flatMap print ++ ['"'])

theorem ofChar_of_toChar? {p : CodePoint} {c : Char} (h : p.toChar? = some c) : ofChar c = p := by
  by_cases hv : p.value.isValidChar
  · rw [toChar?, dif_pos hv] at h
    cases h
    rfl
  · rw [toChar?, dif_neg hv] at h
    cases h

/-- What a code point is printed as: itself, or an escape. -/
theorem print_cases (p : CodePoint) :
    (∃ c, ofChar c = p ∧ c ≠ '"' ∧ c ≠ '\\' ∧ p.print = [c]) ∨
    (∃ c, ofChar c = p ∧ (c = '"' ∨ c = '\\') ∧ p.print = ['\\', c]) ∨
    p.print = '\\' :: 'u' :: '\x7b' :: (Nat.toDigits 16 p.value ++ ['\x7d']) := by
  unfold print
  split
  · rename_i c hc
    split
    · exact .inr (.inl ⟨c, ofChar_of_toChar? hc, ‹_›, rfl⟩)
    · rename_i hne
      rw [not_or] at hne
      exact .inl ⟨c, ofChar_of_toChar? hc, hne.1, hne.2, rfl⟩
  · exact .inr (.inr rfl)

/-- A code point is printed in one of the ways of writing it. -/
theorem spells_print (p : CodePoint) : Literal.Spells .double p p.print := by
  obtain ⟨c, rfl, hq, hb, h⟩ | ⟨c, rfl, hc, h⟩ | h := p.print_cases <;> rw [h]
  · exact .plain hq hb
  · rcases hc with rfl | rfl <;> exact .letter (by decide)
  · exact .point Nat.toDigits_ne_nil (writesHex_toDigits p.value)

theorem spellsAll_print (ps : List CodePoint) :
    Literal.SpellsAll .double ps (ps.flatMap print) := by
  refine ⟨ps.map print, ?_, List.flatMap_def ..⟩
  rw [List.forall₂_map_right_iff, List.forall₂_same]
  exact fun p _ => spells_print p

/-- **A printed string is one token**, whatever follows. -/
theorem scan_quoted (ps : List CodePoint) (rest : List Char) :
    scan (quoted ps ++ rest) = ⟨.string, quoted ps, rest⟩ :=
  scan_literalText (spellsAll_print ps).inside rest

/-- **A printed string is read as that string.** -/
theorem ofString_quoted (pos : Nat) (ps : List CodePoint) :
    Literal.ofString pos (quoted ps) = .ok ps :=
  Literal.ofString_of_spellsAll (spellsAll_print ps) pos

end Text.CodePoint

/-! ## Literals -/

namespace Literal

/-- **The text of a literal**; fractions are not printed. -/
def print : Literal → List Char
  | null => "None".toList
  | bool true => "true".toList
  | bool false => "false".toList
  | int n => if n < 0 then '-' :: Nat.toDigits 10 n.natAbs else Nat.toDigits 10 n.natAbs
  | float _ => []
  | text ps => CodePoint.quoted ps

/-- **A literal that can be printed**: no fraction, and no integer of too many digits. -/
def Plain : Literal → Prop
  | int n => (Nat.toDigits 10 n.natAbs).length ≤ maxDecimalDigits
  | float _ => False
  | _ => True

/-- A literal that has no sign in front of it. -/
def Unsigned : Literal → Prop
  | int n => 0 ≤ n
  | _ => True

theorem ofInt_toDigits {n : Nat} (h : (Nat.toDigits 10 n).length ≤ maxDecimalDigits) :
    ofInt (Nat.toDigits 10 n) = .ok n := by
  have hno : withoutUnderscores (Nat.toDigits 10 n) = Nat.toDigits 10 n := by
    refine List.filter_eq_self.mpr fun c hc => ?_
    rw [bne_iff_ne]
    rintro rfl
    exact Nat.underscore_not_in_toDigits hc
  have hdec : ofInt.ofDecimal (Nat.toDigits 10 n) = .ok n := by
    rw [ofInt.ofDecimal, if_neg (Nat.not_lt.mpr h), decimalOf_toDigits]
  unfold ofInt
  rw [hno]
  split
  · rename_i letter digits hd
    have hall : ∀ d < 10, radixOf? d.digitChar = none := by decide
    have hl : radixOf? letter = none := by
      obtain ⟨d, hlt, rfl⟩ := mem_toDigits (n := n) (c := letter) (by decide)
        (hd ▸ List.mem_cons_of_mem _ List.mem_cons_self)
      exact hall d hlt
    rw [hl, ← hd]
    exact hdec
  · exact hdec

/-- The kind of the token of a literal. -/
def kind : Literal → TokenKind
  | null => .keyword
  | bool _ => .keyword
  | int _ => .int
  | float _ => .float
  | text _ => .string

theorem kind_ne (v : Literal) : v.kind ≠ .blank ∧ v.kind ≠ .name ∧ v.kind ≠ .op := by
  cases v <;> simp [kind]

theorem print_unsigned {n : Int} (h : 0 ≤ n) : (int n).print = Nat.toDigits 10 n.natAbs := by
  rw [print, if_neg (Int.not_lt.mpr h)]

/-- **A printed literal is one token.** -/
theorem scan_print {v : Literal} (hp : v.Plain) (hu : v.Unsigned) {rest : List Char}
    (hrest : Parted rest) : scan (v.print ++ rest) = ⟨v.kind, v.print, rest⟩ := by
  cases v with
  | null => exact scan_keyword (w := "None") (by decide) hrest.wordless
  | bool b =>
    cases b with
    | true => exact scan_keyword (w := "true") (by decide) hrest.wordless
    | false => exact scan_keyword (w := "false") (by decide) hrest.wordless
  | int n =>
    rw [print_unsigned hu]
    exact scan_digits n.natAbs hrest
  | float x => exact hp.elim
  | text ps => exact CodePoint.scan_quoted ps rest

/-- **A printed literal is read as that literal.** -/
theorem ofToken_print {v : Literal} (hp : v.Plain) (hu : v.Unsigned) (pos : Nat) :
    ofToken ⟨v.kind, v.print, pos⟩ = some (.ok v) := by
  cases v with
  | null => rfl
  | bool b => cases b <;> rfl
  | int n =>
    rw [print_unsigned hu]
    simp only [ofToken, kind]
    rw [ofInt_toDigits hp]
    show some (Except.ok (int (n.natAbs : Int))) = _
    rw [Int.natAbs_of_nonneg hu]
  | float x => exact hp.elim
  | text ps =>
    show some ((ofString pos (CodePoint.quoted ps)).map _) = _
    rw [CodePoint.ofString_quoted]
    rfl

end Literal

end Stencil
