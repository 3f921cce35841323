import Stencil.Proofs.EmittedCase
import Stencil.Proofs.PatternMeaning
import Stencil.Proofs.SourcePattern

/-!
# Meaning of emitted cases

A pattern of a template and the case that is emitted for it are matched with the same values: those
that equal literals, sequences with their items, and objects with fields by position and by name.
The two agree if each `..` of a variant stands behind its items. The code has no place for a `..`
elsewhere, and takes it as if it stood there.

* `Subjects`: values as cases see them.
* `SourcePattern.bindings?`: what a pattern of a template binds in a value, if it matches.
* `CodePattern.bindings?`: what a pattern of the generated language binds in a value.
* `SourcePattern.Trailing`, `SourcePattern.leading`: where the `..` of variants stand.
* **`Pattern.bindings_code`**: the code of a pattern that is read matches what the pattern says.
-/

namespace Stencil

/-- **The fields of an object**, those in an order and those with names. -/
structure Members (α : Type) where
  positional : List α
  named : String → Option α

/-- **Values as cases see them**: which equal a literal and which are the truth value or null
itself, which equal what a name with points stands for, the items of sequences, and the fields of
the objects of a class. -/
structure Subjects (α : Type) where
  equals : Literal → α → Bool
  isSame : Literal → α → Bool
  isValue : List String → α → Bool
  items? : α → Option (List α)
  members? : List String → α → Option (Members α)

/-- The fields for `count` patterns of a variant: the leading ones, or those at both ends if a `..`
stands among the patterns. -/
def fieldsFor {α : Type} (count : Nat) : Option Nat → List α → Option (List α)
  | none, vs => some (vs.take count)
  | some n, vs => withoutRest count (some n) vs

/-! ## What templates say -/

namespace SourcePattern

theorem length_plainAll (qs : List SourcePattern) : (plainAll qs).length = qs.length := by
  induction qs with
  | nil => rfl
  | cons q qs ih => rw [plainAll, List.length_cons, List.length_cons, ih]

section Bindings

variable {α : Type} (V : Subjects α)

mutual

/-- **The names that a pattern binds in a value**, each with what it is bound to, if the pattern
matches. Literals match equal values, the `..` of a tuple stands for any number of items, and the
`..` of a variant for any number of fields. The name `_` is not bound. -/
def bindings? : SourcePattern → α → Option (List (String × α))
  | wildcard _, _ => some []
  | binding _ n, v => some (if n = "_" then [] else [(n, v)])
  | literal _ l, v => if V.equals l v then some [] else none
  | value _ path, v => if V.isValue path v then some [] else none
  | tuple _ items rest, v => do bindingsAll? items (← withoutRest items.length rest (← V.items? v))
  | variant _ path items rest, v => do
    bindingsAll? items (← fieldsFor items.length rest (← V.members? path v).positional)
  | struct _ path fields _, v => do bindingsFields? fields (← V.members? path v)
  | or _ alternatives, v => bindingsFirst? alternatives v

/-- What patterns bind, one for each value. -/
def bindingsAll? : List SourcePattern → List α → Option (List (String × α))
  | [], [] => some []
  | q :: qs, v :: vs => do return (← q.bindings? v) ++ (← bindingsAll? qs vs)
  | [], _ :: _ | _ :: _, [] => none

/-- What the patterns of fields bind, with the fields of an object. -/
def bindingsFields? : List (String × SourcePattern) → Members α → Option (List (String × α))
  | [], _ => some []
  | (n, q) :: fs, m => do return (← q.bindings? (← m.named n)) ++ (← bindingsFields? fs m)

/-- What the first pattern that matches binds. -/
def bindingsFirst? : List SourcePattern → α → Option (List (String × α))
  | [], _ => none
  | q :: qs, v => (q.bindings? v).or (bindingsFirst? qs v)

end

end Bindings

mutual

/-- **Each `..` of a variant stands behind its items.** -/
def Trailing : SourcePattern → Prop
  | wildcard _ | binding _ _ | literal _ _ | value _ _ => True
  | tuple _ items _ => TrailingAll items
  | variant _ _ items rest => (∀ k, rest = some k → k = items.length) ∧ TrailingAll items
  | struct _ _ fields _ => TrailingFields fields
  | or _ alternatives => TrailingAll alternatives

/-- Each `..` of a variant in the patterns stands behind its items. -/
def TrailingAll : List SourcePattern → Prop
  | [] => True
  | q :: qs => q.Trailing ∧ TrailingAll qs

/-- Each `..` of a variant in the fields stands behind its items. -/
def TrailingFields : List (String × SourcePattern) → Prop
  | [] => True
  | (_, q) :: fs => q.Trailing ∧ TrailingFields fs

end

mutual

/-- **The pattern with each `..` of a variant put behind its items.** -/
def leading : SourcePattern → SourcePattern
  | wildcard p => wildcard p
  | binding p n => binding p n
  | literal p v => literal p v
  | value p path => value p path
  | tuple p items rest => tuple p (leadingAll items) rest
  | variant p path items rest => variant p path (leadingAll items) (rest.map fun _ => items.length)
  | struct p path fields o => struct p path (leadingFields fields) o
  | or p alternatives => or p (leadingAll alternatives)

/-- The patterns with each `..` of a variant put behind its items. -/
def leadingAll : List SourcePattern → List SourcePattern
  | [] => []
  | q :: qs => q.leading :: leadingAll qs

/-- The fields with each `..` of a variant put behind its items. -/
def leadingFields : List (String × SourcePattern) → List (String × SourcePattern)
  | [] => []
  | (n, q) :: fs => (n, q.leading) :: leadingFields fs

end

theorem length_leadingAll (qs : List SourcePattern) : (leadingAll qs).length = qs.length := by
  induction qs with
  | nil => rfl
  | cons q qs ih => rw [leadingAll, List.length_cons, List.length_cons, ih]

mutual

/-- **Put behind its items, each `..` is lost without a trace.** -/
theorem plain_leading : ∀ q : SourcePattern, q.leading.plain = q.plain ∧ q.leading.Trailing
  | wildcard _ | binding _ _ | literal _ _ | value _ _ => ⟨rfl, trivial⟩
  | tuple _ items _ => by
    obtain ⟨hplain, htrailing⟩ := plain_leadingAll items
    rw [leading, plain, plain, hplain, Trailing]
    exact ⟨rfl, htrailing⟩
  | variant _ _ items rest => by
    obtain ⟨hplain, htrailing⟩ := plain_leadingAll items
    rw [leading, plain, plain, hplain, Trailing, length_leadingAll]
    refine ⟨rfl, fun k hk => ?_, htrailing⟩
    obtain ⟨_, -, rfl⟩ := Option.map_eq_some_iff.mp hk
    rfl
  | struct _ _ fields _ => by
    obtain ⟨hplain, htrailing⟩ := plain_leadingFields fields
    rw [leading, plain, plain, hplain, Trailing]
    exact ⟨rfl, htrailing⟩
  | or _ alternatives => by
    obtain ⟨hplain, htrailing⟩ := plain_leadingAll alternatives
    rw [leading, plain, plain, hplain, Trailing]
    exact ⟨rfl, htrailing⟩

theorem plain_leadingAll : ∀ qs : List SourcePattern,
    plainAll (leadingAll qs) = plainAll qs ∧ TrailingAll (leadingAll qs)
  | [] => ⟨rfl, trivial⟩
  | q :: qs => by
    obtain ⟨hplain, htrailing⟩ := plain_leading q
    obtain ⟨hplains, htrailings⟩ := plain_leadingAll qs
    rw [leadingAll, plainAll, plainAll, hplain, hplains, TrailingAll]
    exact ⟨rfl, htrailing, htrailings⟩

theorem plain_leadingFields : ∀ fs : List (String × SourcePattern),
    plainFields (leadingFields fs) = plainFields fs ∧ TrailingFields (leadingFields fs)
  | [] => ⟨rfl, trivial⟩
  | (_, q) :: fs => by
    obtain ⟨hplain, htrailing⟩ := plain_leading q
    obtain ⟨hplains, htrailings⟩ := plain_leadingFields fs
    rw [leadingFields, plainFields, plainFields, hplain, hplains, TrailingFields]
    exact ⟨rfl, htrailing, htrailings⟩

end

end SourcePattern

/-! ## What the generated language does -/

/-- **What a literal takes in a case**: truth values and null take themselves, and other literals
what equals them. -/
def Subjects.takes {α : Type} (V : Subjects α) (l : Literal) (v : α) : Bool :=
  match l with
  | .null | .bool _ => V.isSame l v
  | _ => V.equals l v

/-- **A literal is taken where it is equal.** Of numbers and texts that is so anyway; a truth value
or null must be equal to itself only. -/
def Subjects.Exact {α : Type} (V : Subjects α) (l : Literal) : Prop :=
  ∀ v, V.takes l v = V.equals l v

namespace CodePattern

section Bindings

variable {α : Type} (V : Subjects α)

mutual

/-- **The names that a pattern binds in a value**, each with what it is bound to, if the pattern
matches. The patterns of a class by position take as many of the leading fields. Where an object has
too few, nothing matches; that the language fails there, if its class names too few, is left out. -/
def bindings? : CodePattern → α → Option (List (String × α))
  | wildcard, _ => some []
  | capture n, v => some [(n, v)]
  | literal l, v => if V.takes l v then some [] else none
  | value path, v => if V.isValue path v then some [] else none
  | sequence items star, v => do
    bindingsAll? items (← withoutRest items.length star (← V.items? v))
  | object path positional named, v => do
    let m ← V.members? path v
    let bs ← bindingsAll? positional (m.positional.take positional.length)
    return bs ++ (← bindingsFields? named m)
  | or alternatives, v => bindingsFirst? alternatives v

/-- What patterns bind, one for each value. -/
def bindingsAll? : List CodePattern → List α → Option (List (String × α))
  | [], [] => some []
  | c :: cs, v :: vs => do return (← c.bindings? v) ++ (← bindingsAll? cs vs)
  | [], _ :: _ | _ :: _, [] => none

/-- What the patterns of fields bind, with the fields of an object. -/
def bindingsFields? : List (String × CodePattern) → Members α → Option (List (String × α))
  | [], _ => some []
  | (n, c) :: fs, m => do return (← c.bindings? (← m.named n)) ++ (← bindingsFields? fs m)

/-- What the first alternative that matches binds. -/
def bindingsFirst? : List CodePattern → α → Option (List (String × α))
  | [], _ => none
  | c :: cs, v => (c.bindings? v).or (bindingsFirst? cs v)

end

variable {V} {v : α}

theorem bindingsFirst?_append (cs cs' : List CodePattern) :
    bindingsFirst? V (cs ++ cs') v = (bindingsFirst? V cs v).or (bindingsFirst? V cs' v) := by
  induction cs with
  | nil => rw [List.nil_append, bindingsFirst?, Option.none_or]
  | cons c cs ih => rw [List.cons_append, bindingsFirst?, bindingsFirst?, ih, Option.or_assoc]

theorem bindings?_joined (cs : List CodePattern) :
    (joined cs).bindings? V v = bindingsFirst? V cs v := by
  match cs with
  | [] => rw [joined, bindings?]; simp
  | [c] => rw [joined, bindingsFirst?, bindingsFirst?, Option.or_none]
  | _ :: _ :: _ => rw [joined, bindings?]; simp

theorem bindings?_ofName (n : String) :
    (ofName n).bindings? V v = some (if n = "_" then [] else [(n, v)]) := by
  unfold ofName
  split
  · rw [bindings?]
  · rw [bindings?]

/-- A class with patterns by position only. -/
theorem bindings?_positional (path : List String) (cs : List CodePattern) :
    (object path cs []).bindings? V v = (V.members? path v).bind fun m =>
      bindingsAll? V cs (m.positional.take cs.length) := by
  rw [bindings?]
  cases V.members? path v with
  | none => rfl
  | some m =>
    simp only [Option.bind_eq_bind, Option.bind_some, bindingsFields?, List.append_nil]
    exact Option.bind_fun_some _

/-- A class with patterns by name only. -/
theorem bindings?_named (path : List String) (fs : List (String × CodePattern)) :
    (object path [] fs).bindings? V v = (V.members? path v).bind (bindingsFields? V fs) := by
  rw [bindings?]
  cases V.members? path v with
  | none => rfl
  | some m =>
    simp only [Option.bind_eq_bind, Option.bind_some, List.length_nil, List.take_zero,
      bindingsAll?, List.nil_append]
    exact Option.bind_fun_some _

/-- **Patterns bind nothing in too few values.** -/
theorem bindingsAll?_eq_none {cs : List CodePattern} {vs : List α} (h : vs.length ≠ cs.length) :
    bindingsAll? V cs vs = none := by
  induction cs generalizing vs with
  | nil =>
    cases vs with
    | nil => exact absurd rfl h
    | cons v vs => rw [bindingsAll?]
  | cons c cs ih =>
    cases vs with
    | nil => rw [bindingsAll?]
    | cons v vs =>
      rw [bindingsAll?, ih (by simpa using h)]
      cases c.bindings? V v <;> rfl

end Bindings

end CodePattern

/-! ## Both -/

namespace Pattern

open CodePattern SourcePattern

section Meaning

variable {α : Type} {V : Subjects α}

theorem bindingsFirst?_single (c : CodePattern) (v : α) :
    CodePattern.bindingsFirst? V [c] v = c.bindings? V v := by
  rw [CodePattern.bindingsFirst?, CodePattern.bindingsFirst?, Option.or_none]

/-- **Behind the items, a `..` makes no difference**: the leading fields are taken. -/
theorem bindingsAll?_fieldsFor {cs : List CodePattern} {rest : Option Nat} {vs : List α}
    (h : ∀ k, rest = some k → k = cs.length) :
    (fieldsFor cs.length rest vs).bind (CodePattern.bindingsAll? V cs) =
      CodePattern.bindingsAll? V cs (vs.take cs.length) := by
  cases rest with
  | none => rfl
  | some k =>
    obtain rfl := h k rfl
    rw [fieldsFor, withoutRest]
    split
    · simp
    · rename_i hlen
      rw [Option.bind_none, CodePattern.bindingsAll?_eq_none]
      rw [List.length_take]
      omega

mutual

/-- **The alternatives of a pattern bind what the pattern binds**, if each `..` of a variant stands
behind its items. -/
theorem bindings_alternatives : ∀ {q : SourcePattern}, q.Trailing →
    (∀ l ∈ q.plain.literals, l.isFinite = true ∧ V.Exact l) → ∀ v : α,
    CodePattern.bindingsFirst? V q.plain.alternatives v = q.bindings? V v
  | .wildcard _, _, _, v => by
    rw [plain, alternatives, bindingsFirst?_single, CodePattern.bindings?, SourcePattern.bindings?]
  | .binding _ n, _, _, v => by
    rw [plain, alternatives, bindingsFirst?_single, bindings?_ofName, SourcePattern.bindings?]
  | .literal _ l, _, he, v => by
    obtain ⟨hfinite, hexact⟩ := he l (List.mem_singleton_self l)
    rw [plain, alternatives, bindingsFirst?_single, Literal.asCase_of_isFinite hfinite,
      CodePattern.bindings?, SourcePattern.bindings?, hexact v]
  | .value _ path, _, _, v => by
    rw [plain, alternatives, bindingsFirst?_single, CodePattern.bindings?, SourcePattern.bindings?]
  | .tuple _ items rest, ht, he, v => by
    rw [plain, alternatives, bindingsFirst?_single, CodePattern.bindings?, SourcePattern.bindings?,
      length_meaningAll, length_plainAll]
    simp only [bindings_meaningAll ht he]
  | .variant _ path items rest, ht, he, v => by
    have hlen : (meaningAll (plainAll items)).length = items.length := by
      rw [length_meaningAll, length_plainAll]
    have hrest : ∀ k, rest = some k → k = (meaningAll (plainAll items)).length := by
      rw [hlen]
      exact ht.1
    have hall := funext (bindings_meaningAll ht.2 he)
    rw [plain, alternatives, bindingsFirst?_single, bindings?_positional, SourcePattern.bindings?]
    cases V.members? path v with
    | none => rfl
    | some m =>
      rw [Option.bind_some, ← bindingsAll?_fieldsFor hrest, hlen, hall]
      rfl
  | .struct _ path fields _, ht, he, v => by
    rw [plain, alternatives, bindingsFirst?_single, bindings?_named, SourcePattern.bindings?,
      funext (bindings_meaningFields ht he)]
    rfl
  | .or _ qs, ht, he, v => by
    rw [plain, alternatives, SourcePattern.bindings?, bindings_alternativesAll ht he]

theorem bindings_meaningAll : ∀ {qs : List SourcePattern}, TrailingAll qs →
    (∀ l ∈ literalsAll (plainAll qs), l.isFinite = true ∧ V.Exact l) → ∀ vs : List α,
    CodePattern.bindingsAll? V (meaningAll (plainAll qs)) vs = SourcePattern.bindingsAll? V qs vs
  | [], _, _, [] => rfl
  | [], _, _, _ :: _ => rfl
  | _ :: _, _, _, [] => rfl
  | q :: qs, ht, he, v :: vs => by
    obtain ⟨hq, hqs⟩ := List.forall_mem_append.mp he
    rw [plainAll, meaningAll, CodePattern.bindingsAll?, SourcePattern.bindingsAll?,
      bindings?_joined, bindings_alternatives ht.1 hq, bindings_meaningAll ht.2 hqs]

theorem bindings_meaningFields : ∀ {fs : List (String × SourcePattern)}, TrailingFields fs →
    (∀ l ∈ literalsFields (plainFields fs), l.isFinite = true ∧ V.Exact l) → ∀ m : Members α,
    CodePattern.bindingsFields? V (meaningFields (plainFields fs)) m =
      SourcePattern.bindingsFields? V fs m
  | [], _, _, _ => rfl
  | (n, q) :: fs, ht, he, m => by
    obtain ⟨hq, hfs⟩ := List.forall_mem_append.mp he
    rw [plainFields, meaningFields, CodePattern.bindingsFields?, SourcePattern.bindingsFields?]
    simp only [bindings?_joined, bindings_alternatives ht.1 hq, bindings_meaningFields ht.2 hfs]

theorem bindings_alternativesAll : ∀ {qs : List SourcePattern}, TrailingAll qs →
    (∀ l ∈ literalsAll (plainAll qs), l.isFinite = true ∧ V.Exact l) → ∀ v : α,
    CodePattern.bindingsFirst? V (alternativesAll (plainAll qs)) v =
      SourcePattern.bindingsFirst? V qs v
  | [], _, _, _ => rfl
  | q :: qs, ht, he, v => by
    obtain ⟨hq, hqs⟩ := List.forall_mem_append.mp he
    rw [plainAll, alternativesAll, bindingsFirst?_append, SourcePattern.bindingsFirst?,
      bindings_alternatives ht.1 hq, bindings_alternativesAll ht.2 hqs]

end

/-- **A pattern binds what its meaning binds**, if each `..` of a variant stands behind its items
and each literal is finite and taken where it is equal. -/
theorem bindings_meaning {q : SourcePattern} (ht : q.Trailing)
    (he : ∀ l ∈ q.plain.literals, l.isFinite = true ∧ V.Exact l) (v : α) :
    q.plain.meaning.bindings? V v = q.bindings? V v := by
  rw [meaning, bindings?_joined, bindings_alternatives ht he]

end Meaning

end Pattern

open Pattern SourcePattern in
/-- **A case matches what the pattern of the template says**, and binds the same names to the same
parts of the value. Every pattern that is read has a code, which is read as one pattern, if its
names are identifiers and no integer has too many digits. If no number is infinite, and truth values
and null in the pattern are equal to themselves only, this is the pattern of the template with each
`..` of a variant put behind its items; so it is the pattern itself, if they stand there. -/
theorem Pattern.bindings_code {c c' : Cursor} {p : Pattern} (h : Pattern.read c = .ok (p, c'))
    (hs : p.Spelled) : p.resolve id = .ok p ∧ ∃ q k, SourcePattern.read c = .ok (q, c') ∧
      q.plain = p ∧ CodePattern.read p.code.toList = some k ∧
      ∀ (α : Type) (V : Subjects α), (∀ l ∈ p.literals, l.isFinite = true ∧ V.Exact l) →
        (∀ v, k.bindings? V v = q.leading.bindings? V v) ∧
        (q.Trailing → ∀ v, k.bindings? V v = q.bindings? V v) := by
  obtain ⟨q, hq, rfl⟩ := SourcePattern.exists_of_read h
  refine ⟨resolve_id hs, q, _, hq, rfl, read_code_meaning (shaped_of_read h) hs, fun α V he =>
    ⟨fun v => ?_, fun ht v => bindings_meaning ht he v⟩⟩
  obtain ⟨hplain, htrailing⟩ := q.plain_leading
  rw [← hplain] at he ⊢
  exact bindings_meaning htrailing he v

/-- Numbers: zero is a pair of the numbers three and nine, and three a sequence. -/
def Subjects.numbers : Subjects Nat where
  equals l n := l = .int (-1) ∧ n = 8
  isSame _ _ := false
  isValue _ _ := false
  items? n := if n = 3 then some [5, 7, 8] else none
  members? path n := if path = ["Pair"] ∧ n = 0 then some ⟨[3, 9], fun _ => none⟩ else none

open Pattern SourcePattern in
/-- The `..` of the variant stands behind its item, and that of the tuple in the middle. -/
theorem Pattern.bindings_code_pair : ∃ (p : Pattern) (q : SourcePattern) (k : CodePattern),
    Pattern.read ⟨0, "Pair((x, .., -1), ..)".toList⟩ = .ok (p, ⟨21, []⟩) ∧
      p.Spelled ∧ p.code = "Pair((x, *_, -1))" ∧
      CodePattern.read p.code.toList = some k ∧ q.plain = p ∧ q.Trailing ∧
      k.bindings? .numbers 0 = q.bindings? .numbers 0 ∧
      q.bindings? .numbers 0 = some [("x", 5)] := by
  let q : SourcePattern :=
    .variant 0 ["Pair"] [.tuple 5 [.binding 6 "x", .literal 13 (.int (-1))] (some 1)] (some 1)
  have hsource : SourcePattern.read ⟨0, "Pair((x, .., -1), ..)".toList⟩ = .ok (q, ⟨21, []⟩) := rfl
  have hread : Pattern.read ⟨0, "Pair((x, .., -1), ..)".toList⟩ = .ok (q.plain, ⟨21, []⟩) := by
    rw [← map_plain_read, hsource]
    rfl
  have hx : Text.isIdentifier "x" = true := by decide +kernel
  have hpair : ∀ n ∈ ["Pair"], Text.isIdentifier n = true := by decide +kernel
  have hone : (Literal.int (-1)).isWritable = true := Literal.isWritable_digit (by decide)
  have hspelled : q.plain.Spelled := ⟨hpair, ⟨hx, hone, trivial⟩, trivial⟩
  have htrailing : q.Trailing := by
    simp [q, SourcePattern.Trailing, SourcePattern.TrailingAll]
  have hexact : ∀ l ∈ q.plain.literals, l.isFinite = true ∧ Subjects.numbers.Exact l := by
    intro l hl
    obtain rfl : l = .int (-1) := by
      simpa [q, plain, plainAll, plainFields, literals, literalsAll, literalsFields] using hl
    exact ⟨rfl, fun _ => rfl⟩
  obtain ⟨-, q', k, hq', -, hk, hmeaning⟩ := bindings_code hread hspelled
  have hq : q' = q := congrArg Prod.fst (Except.ok.inj (hq'.symm.trans hsource))
  rw [hq] at hmeaning
  exact ⟨q.plain, q, k, hread, hspelled, by decide +kernel, hk, rfl, htrailing,
    (hmeaning Nat .numbers hexact).2 htrailing 0, rfl⟩

open Pattern in
/-- **The first field is taken for the last one**: behind its `..`, the pattern of a variant is
still matched with a leading field. -/
theorem Pattern.first_field_of_pair : ∃ (q : SourcePattern) (k : CodePattern),
    SourcePattern.read ⟨0, "Pair(.., x)".toList⟩ = .ok (q, ⟨11, []⟩) ∧
      Pattern.read ⟨0, "Pair(.., x)".toList⟩ = .ok (q.plain, ⟨11, []⟩) ∧
      CodePattern.read q.plain.code.toList = some k ∧
      q.bindings? .numbers 0 = some [("x", 9)] ∧ k.bindings? .numbers 0 = some [("x", 3)] := by
  let q : SourcePattern := .variant 0 ["Pair"] [.binding 9 "x"] (some 0)
  have hread : Pattern.read ⟨0, "Pair(.., x)".toList⟩ = .ok (q.plain, ⟨11, []⟩) := rfl
  have hpair : ∀ n ∈ ["Pair"], Text.isIdentifier n = true := by decide +kernel
  have hx : Text.isIdentifier "x" = true := by decide +kernel
  have hcode := read_code_meaning (shaped_of_read hread) ⟨hpair, hx, trivial⟩
  exact ⟨q, .object ["Pair"] [.capture "x"] [], rfl, hread, hcode, rfl, rfl⟩

end Stencil
