import Stencil.Pattern.Code
import Stencil.Proofs.CodeMeaning
import Stencil.Proofs.PatternShapes
import Stencil.Proofs.ReadCase
import Stencil.Proofs.ShortestDecimal

/-!
# Emitted cases

The code of a pattern is read as a pattern of the same form. A choice in parentheses becomes a part
of the choice around it, as its parentheses are not emitted, and a variant or a structure becomes
the pattern of a class. So does a number that is not finite, which is emitted as a call.

* `Pattern.alternatives`, `Pattern.meaning`: what a pattern stands for in the generated language.
* `Pattern.Spelled`: the names and literals of a pattern can be written there.
* `Pattern.emits`: the code of a pattern is split into tokens that are its alternatives.
* **`Pattern.read_code_meaning`**: the code of a pattern is read as what the pattern stands for.
-/

namespace Stencil

open Text CodeToken CodeExpr

namespace Literal

/-- A literal that is no infinite number. -/
def isFinite : Literal → Bool
  | float x => x.isFinite
  | _ => true

/-- **What a literal stands for in a case**: itself, but for numbers that are not finite. They are
emitted as calls, and a call in a case is the pattern of a class. -/
def asCase : Literal → CodePattern
  | float x =>
    if x.isFinite then .literal (float x)
    else .object ["float"] [.literal (.text (CodePoint.ofString (x.text .literal)))] []
  | v => .literal v

theorem asCase_of_isFinite {v : Literal} (h : v.isFinite = true) : v.asCase = .literal v := by
  cases v with
  | float x => exact if_pos h
  | _ => rfl

end Literal

/-! ## Texts that are emitted for patterns -/

namespace CodePattern

variable {c d w n : String} {a ts : List CodeToken} {rest : List Char} {x : CodePattern}
variable {xs ys : List CodePattern} {path : List String} {p : Part} {ps : List Part}

/-- **A text that is emitted for a pattern without alternatives.** -/
structure EmitsClosed (code : String) (ts : List CodeToken) (x : CodePattern) : Prop where
  lexes : ∀ rest, Detached rest → rest.head? ≠ some '.' → Lexes code.toList ts rest
  start : Starts code
  closed : IsClosed ts x

/-- **A text that is emitted for alternatives.** -/
structure EmitsChoice (code : String) (ts : List CodeToken) (xs : List CodePattern) : Prop where
  lexes : ∀ rest, Detached rest → rest.head? ≠ some '.' → Lexes code.toList ts rest
  start : Starts code
  choice : IsChoice ts xs

/-- **A text that is emitted for a part of a list.** -/
structure EmitsPart (code : String) (ts : List CodeToken) (p : Part) : Prop where
  lexes : ∀ o ∈ marks, ∀ rest, Lexes code.toList ts (o.toList ++ rest)
  part : IsPart ts p

/-- A text that is emitted for a part of a list, with any tokens. -/
def Emitted (code : String) (p : Part) : Prop := ∃ ts, EmitsPart code ts p

theorem EmitsClosed.choice (h : EmitsClosed c ts x) : EmitsChoice c ts [x] :=
  ⟨h.lexes, h.start, .single h.closed⟩

/-- A mark may stand after a pattern. -/
theorem EmitsChoice.before_mark (h : EmitsChoice c ts xs) (hw : w ∈ marks) :
    Lexes c.toList ts (w.toList ++ rest) := by
  have hmarks : ∀ w ∈ marks, w.toList.head? ≠ some '.' ∧ w.toList ≠ [] := by decide
  refine h.lexes _ (detached_op (mem_operators_of_mem_marks w hw)) ?_
  rw [List.head?_append_of_ne_nil _ (hmarks w hw).2]
  exact (hmarks w hw).1

theorem EmitsChoice.part (h : EmitsChoice c ts xs) : Emitted c (.plain (joined xs)) :=
  ⟨ts, fun _ ho _ => h.before_mark ho, h.choice.part⟩

/-- The text of a whole pattern. -/
theorem EmitsChoice.read (h : EmitsChoice c ts xs) : read c.toList = some (joined xs) := by
  have hlex := (h.lexes [] detached_nil (by simp)).lex (Nat.le_refl _)
  rw [CodePattern.read, hlex, Option.bind_some, h.choice.ofTokens]

/-- **Alternatives with a bar between them.** -/
theorem EmitsChoice.append {b : List CodeToken} (h : EmitsChoice c a xs)
    (h' : EmitsChoice d b ys) : EmitsChoice (c ++ " | " ++ d) (a ++ .op "|" :: b) (xs ++ ys) where
  lexes rest hrest hpoint := by
    have hbar : Lexes " | ".toList [.op "|"] (d.toList ++ rest) :=
      lexes_append (c := " ") (d := "| ") lexes_space (lexes_spaced (o := "|") (by decide +kernel))
    have hleft : Lexes c.toList a (" | ".toList ++ (d.toList ++ rest)) :=
      h.lexes _ (detached_cons (by decide) (by decide)) (by simp)
    have hlex := lexes_append (lexes_append hleft hbar) (h'.lexes rest hrest hpoint)
    rwa [List.append_assoc] at hlex
  start := h.start.append.append
  choice := h.choice.append h'.choice

/-! ### Literals and names -/

/-- A literal of one token. -/
theorem emits_token {t : CodeToken} {v : Literal}
    (hlexes : ∀ rest, Detached rest → rest.head? ≠ some '.' → Lexes c.toList [t] rest)
    (hstart : Starts c) (hmark : t ≠ .op ")" ∧ t ≠ .op "*")
    (h : ∀ rest, Ends rest → literal? (t :: rest) = some (v, rest)) :
    EmitsClosed c [t] (literal v) where
  lexes := hlexes
  start := hstart
  closed := isClosed_literal ⟨t, [], rfl, hmark⟩ (fun _ hrest => unnamed_single hrest) h

/-- A number after a minus sign. -/
theorem emits_negative {t : CodeToken} {v : Literal}
    (hlexes : ∀ rest, Detached rest → rest.head? ≠ some '.' → Lexes c.toList [t] rest)
    (hstart : Starts c) (h : ∀ rest, literal? (.op "-" :: t :: rest) = some (v, rest)) :
    EmitsClosed ("-" ++ c) [.op "-", t] (literal v) where
  lexes rest hrest hpoint := lexes_append (lexes_sign hstart) (hlexes rest hrest hpoint)
  start := ⟨'-', c.toList, by rw [String.toList_append]; rfl, by decide⟩
  closed := isClosed_literal ⟨_, _, rfl, by simp⟩ (fun _ _ _ _ h => by cases h) fun rest _ => h rest

/-- A word that is a literal. -/
theorem emits_constant {v : Literal} (hw : c.toList.all isWord = true)
    (hstart : ∃ x cs, c.toList = x :: cs ∧ x.isDigit = false ∧ x ≠ '=' ∧ x ≠ '>')
    (h : constant? c = some v) : EmitsClosed c [.word c] (literal v) := by
  obtain ⟨x, cs, hcs, hx, hne⟩ := hstart
  refine emits_token (fun rest hrest _ => ?_) ⟨x, cs, hcs, hne⟩ (by simp) fun rest _ => ?_
  · exact lexes_word (List.all_eq_true.mp hw) ⟨x, cs, hcs, hx⟩ hrest
  · rw [literal?, h]
    rfl

/-- An integer without a sign. -/
theorem emits_int {k : Nat} (hk : k < 10 ^ maxDecimalDigits) (hc : c.toList = Nat.toDigits 10 k) :
    EmitsClosed c [.int k] (literal (.int k)) := by
  have hcode := CodeExpr.emits_int hk hc
  exact emits_token (fun rest hrest hpoint => hcode.lexes rest hrest (.inr hpoint)) hcode.start
    (by simp) fun rest _ => rfl

/-- A finite number without a sign. -/
theorem emits_float {y : Binary64} (hsign : y.bits.toNat ≤ Binary64.infiniteBits)
    (hfinite : y.isFinite = true) :
    EmitsClosed (y.text .literal) [.float y] (literal (.float y)) := by
  have hcode := CodeExpr.emits_float hsign hfinite
  exact emits_token (fun rest hrest hpoint => hcode.lexes rest hrest (.inr hpoint)) hcode.start
    (by simp) fun rest _ => rfl

/-- A text, as no text follows it. -/
theorem emits_text (us : List CodePoint) : EmitsClosed (quotePoints us) [.text us]
    (literal (.text us)) := by
  have hcode : Emits true (quotePoints us) [.text us] (.text us) := CodeExpr.emits_text us
  refine emits_token (fun rest hrest hpoint => hcode.lexes rest hrest (.inr hpoint)) hcode.start
    (by simp) fun rest hrest => ?_
  have htexts : texts rest = ([], rest) := by
    unfold texts
    split
    · exact absurd rfl (hrest.head?_ne rfl)
    · rfl
  rw [literal?, htexts, List.append_nil]

/-- **A finite number**, with its minus sign if it has one. -/
theorem emits_finite {y : Binary64} (hfinite : y.isFinite = true) :
    ∃ ts, EmitsClosed (y.text .literal) ts (literal (.float y)) := by
  rcases Binary64.text_sign hfinite with hsign | ⟨hsign, hneg, htext⟩
  · exact ⟨_, emits_float hsign hfinite⟩
  · have hdigits := emits_float hsign hneg
    have hvalue : ∀ rest, literal? (.op "-" :: .float y.neg :: rest) =
        some (.float y, rest) := fun rest => by
      rw [literal?, Binary64.neg_neg]
    rw [htext]
    exact ⟨_, emits_negative hdigits.lexes hdigits.start hvalue⟩

/-! ### Names with points -/

/-- A name takes any value, but for `_`. -/
def ofName (n : String) : CodePattern := if n = "_" then wildcard else capture n

theorem isName_of_isName (hn : Expr.IsName n) (hid : isIdentifier n = true) : isName n = true := by
  rw [isName, hid, hn.not_reserved]
  rfl

theorem emits_name (hn : Expr.IsName n) (hid : isIdentifier n = true) :
    EmitsClosed n [.word n] (ofName n) where
  lexes rest hrest _ := lexes_name hn hrest
  start := starts_name hn
  closed := by
    unfold ofName
    split
    · rename_i h
      rw [h]
      exact isClosed_wildcard
    · rename_i hne
      have hdotted : IsDotted [n] :=
        ⟨fun m hm => List.mem_singleton.mp hm ▸ isName_of_isName hn hid, n, [], rfl, hne⟩
      exact isClosed_path hdotted

theorem isDotted_of_isPath (h : Pattern.IsPath path) (hid : ∀ n ∈ path, isIdentifier n = true) :
    IsDotted path :=
  ⟨fun n hn => isName_of_isName (h.names n hn) (hid n hn), h.head⟩

/-- A path starts with its first name. -/
theorem exists_intercalate (n : String) (ns : List String) :
    ∃ d, ".".intercalate (n :: ns) = n ++ d := by
  cases ns with
  | nil => exact ⟨"", by rw [String.intercalate_singleton, String.append_empty]⟩
  | cons m ns =>
    rw [String.intercalate_cons_cons, String.append_assoc]
    exact ⟨_, rfl⟩

/-- **The names of a path with points between them.** -/
theorem lexes_path (hne : path ≠ []) (h : ∀ n ∈ path, Expr.IsName n) (hrest : Detached rest) :
    Lexes (".".intercalate path).toList (pathTokens path) rest := by
  induction path with
  | nil => exact absurd rfl hne
  | cons n ns ih =>
    have hn := h n List.mem_cons_self
    cases ns with
    | nil =>
      rw [String.intercalate_singleton]
      exact lexes_name hn hrest
    | cons m ns =>
      have hns := fun k hk => h k (List.mem_cons_of_mem _ hk)
      have hpoint : ((".".intercalate (m :: ns)).toList ++ rest).head? ≠ some '.' := by
        obtain ⟨d, hd⟩ := exists_intercalate m ns
        rw [hd, String.toList_append, List.append_assoc]
        exact head?_name (hns m List.mem_cons_self)
      have hname : Lexes n.toList [.word n]
          (".".toList ++ ((".".intercalate (m :: ns)).toList ++ rest)) :=
        lexes_name hn (detached_op (by decide +kernel))
      have hlex := lexes_append (lexes_append hname (lexes_point hpoint)) (ih (by simp) hns)
      rwa [List.append_assoc, ← String.intercalate_cons_cons] at hlex

theorem starts_path (h : Pattern.IsPath path) : Starts (".".intercalate path) := by
  obtain ⟨n, ns, rfl, -⟩ := h.head
  obtain ⟨d, hd⟩ := exists_intercalate n ns
  rw [hd]
  exact (starts_name (h.names n List.mem_cons_self)).append

/-- A name with points is compared. -/
theorem emits_path (h : Pattern.IsPath path) (hid : ∀ n ∈ path, isIdentifier n = true) :
    EmitsClosed (".".intercalate path) (pathTokens path) (ofPath path) where
  lexes rest hrest _ := by
    obtain ⟨n, ns, rfl, -⟩ := h.head
    exact lexes_path (List.cons_ne_nil n ns) h.names hrest
  start := starts_path h
  closed := isClosed_path (isDotted_of_isPath h hid)

/-! ### Lists -/

theorem emitted_star : Emitted "*_" .star := by
  refine ⟨_, fun o ho rest => ?_, isPart_star⟩
  have hcont : '_' ∉ continuations "*" := by decide +kernel
  have hstar : Lexes "*".toList [.op "*"] ("_".toList ++ (o.toList ++ rest)) :=
    lexes_op (by decide +kernel) fun y hy => by
      cases hy
      exact hcont
  have hmarks : Detached (o.toList ++ rest) := detached_op (mem_operators_of_mem_marks o ho)
  exact lexes_append (c := "*") (d := "_") hstar (lexes_name Pattern.isName_wildcard hmarks)

/-- A pattern for a field, after the name of the field. -/
theorem EmitsChoice.named (h : EmitsChoice c ts xs) (hn : Expr.IsName n)
    (hid : isIdentifier n = true) : Emitted (n ++ "=" ++ c) (.named n (joined xs)) := by
  refine ⟨_, fun o ho rest => ?_, h.choice.named (isName_of_isName hn hid)⟩
  have hcont : continuations "=" = ['='] := by decide +kernel
  have hequals : Lexes "=".toList [.op "="] (c.toList ++ (o.toList ++ rest)) :=
    lexes_op (by decide +kernel) fun y hy hmem => by
      obtain ⟨x, cs, hcs, hne, -⟩ := h.start
      rw [hcs] at hy
      cases hy
      rw [hcont] at hmem
      exact hne (List.mem_singleton.mp hmem)
  exact lexes_append (lexes_append (lexes_name hn (detached_op (by decide +kernel))) hequals)
    (h.before_mark ho)

/-- **Parts with commas between them**, before a mark. -/
theorem exists_isParts {cs : List String} (h : List.Forall₂ Emitted cs ps) : ∃ ts,
    IsParts ts ps ∧ ∀ w ∈ marks, ∀ rest,
      Lexes (", ".intercalate cs).toList ts (w.toList ++ rest) := by
  induction h with
  | nil => exact ⟨[], .nil, fun _ _ _ _ _ hout => hout⟩
  | @cons c p cs ps hc h ih =>
    obtain ⟨a, hlexes, hpart⟩ := hc
    obtain ⟨ts, hparts, hlexes'⟩ := ih
    cases h with
    | nil =>
      rw [String.intercalate_singleton]
      exact ⟨a, .single hpart, hlexes⟩
    | cons h' h =>
      rw [String.intercalate_cons_cons]
      refine ⟨_, .cons hpart (by simp) hparts, fun w hw rest => ?_⟩
      have hcomma : ∀ rest, Lexes (c ++ ", ").toList (a ++ [.op ","]) rest := fun rest =>
        lexes_append (hlexes "," (by decide) (" ".toList ++ rest)) lexes_comma
      have hlex := lexes_append (hcomma _) (hlexes' w hw rest)
      rwa [List.append_assoc] at hlex

/-- A text between parentheses. -/
theorem lexes_paren (h : ∀ w ∈ marks, ∀ rest, Lexes c.toList ts (w.toList ++ rest)) :
    Lexes ("(" ++ c ++ ")").toList (.op "(" :: (ts ++ [.op ")"])) rest :=
  lexes_between (by decide) (by decide) (h ")" (by decide) rest)

theorem starts_paren : Starts ("(" ++ c) := Starts.append ⟨'(', [], rfl, by decide⟩

/-- **A sequence in parentheses**; a comma stands behind a single item. -/
theorem emits_sequence {cs : List String} {star : Option Nat}
    (h : List.Forall₂ Emitted cs (withStar xs star)) (hstar : ∀ k, star = some k → k ≤ xs.length) :
    ∃ ts, EmitsClosed (Pattern.parenthesize cs) ts (sequence xs star) := by
  obtain ⟨ts, hparts, hlexes⟩ := exists_isParts h
  have hlen := h.length_eq
  unfold Pattern.parenthesize
  split
  · rename_i c
    -- the comma is a part of what the parentheses hold
    have hcode : "(" ++ c ++ ",)" = "(" ++ (c ++ ",") ++ ")" := by
      simp only [String.append_assoc]
      rfl
    have hcomma : ∀ w ∈ marks, ∀ rest,
        Lexes (c ++ ",").toList (ts ++ [.op ","]) (w.toList ++ rest) := fun w _ rest =>
      lexes_append (hlexes "," (by decide) _) (lexes_mark (by decide))
    obtain ⟨p, hp⟩ := List.length_eq_one_iff.mp hlen.symm
    rw [hp] at hparts
    refine ⟨.op "(" :: (ts ++ [.op ","] ++ [.op ")"]), fun rest _ _ => ?_, ?_, ?_⟩
    · rw [hcode]
      exact lexes_paren hcomma
    · exact starts_paren.append
    · refine isClosed_paren (grouped_withStar hstar fun _ => rfl) fun n rest hn => ?_
      rw [List.append_assoc, hp]
      cases hparts with
      | single hpart =>
        simp only [List.length_append, List.length_singleton] at hn
        exact hpart.parts (by omega)
      | cons _ hne _ => exact absurd rfl hne
  · rename_i hne
    refine ⟨_, fun rest _ _ => lexes_paren hlexes, starts_paren.append, ?_⟩
    refine isClosed_paren (grouped_withStar hstar fun hone => ?_) fun n rest hn =>
      hparts.parts (by omega)
    rw [← hlen] at hone
    obtain ⟨c, rfl⟩ := List.length_eq_one_iff.mp hone
    exact absurd rfl (hne c)

/-- **A name with parts in parentheses.** -/
theorem emits_object {cs : List String} (hpath : Pattern.IsPath path)
    (hid : ∀ n ∈ path, isIdentifier n = true) (h : List.Forall₂ Emitted cs ps)
    (hobject : objectOf path ps = some x) :
    ∃ ts, EmitsClosed (".".intercalate path ++ "(" ++ ", ".intercalate cs ++ ")") ts x := by
  obtain ⟨ts, hparts, hlexes⟩ := exists_isParts h
  obtain ⟨n, ns, hcons, -⟩ := hpath.head
  have hne : path ≠ [] := by simp [hcons]
  refine ⟨_, fun rest _ _ => lexes_brackets (by decide) (by decide) (fun rest => ?_)
    fun rest => hlexes ")" (by decide) rest, ?_,
    isClosed_object (isDotted_of_isPath hpath hid) hobject hparts⟩
  · exact lexes_path hne hpath.names (detached_op (by decide +kernel))
  · exact (starts_path hpath).append.append.append

/-- **The code of a number that is not finite** is the pattern of a class with a text in it. -/
theorem emits_float_call (c : String) : ∃ ts, EmitsClosed ("float(" ++ quote c ++ ")") ts
    (object ["float"] [literal (.text (CodePoint.ofString c))] []) := by
  have hpath : Pattern.IsPath ["float"] := by
    refine ⟨fun n hn => ?_, "float", [], rfl, by decide⟩
    rw [List.mem_singleton.mp hn]
    exact ⟨by decide +kernel, by decide +kernel, by decide +kernel⟩
  have hcode : "float(" = ".".intercalate ["float"] ++ "(" := by
    rw [String.intercalate_singleton]
    rfl
  have htext : Emitted (quote c) (.plain (literal (.text (CodePoint.ofString c)))) :=
    (emits_text (CodePoint.ofString c)).choice.part
  have hobject := emits_object hpath (by decide +kernel) (.cons htext .nil)
    (@objectOf_plain ["float"] [literal (.text (CodePoint.ofString c))])
  rw [String.intercalate_singleton] at hobject
  rw [hcode]
  exact hobject

/-- **The code of a literal** is that literal, or the pattern of a class if it is not finite. -/
theorem emits_literal {v : Literal} (hw : v.isWritable = true) :
    ∃ ts, EmitsClosed v.code ts v.asCase := by
  cases v with
  | null => exact ⟨_, emits_constant (by decide) ⟨_, _, rfl, by decide⟩ rfl⟩
  | bool b =>
    cases b with
    | true => exact ⟨_, emits_constant (by decide) ⟨_, _, rfl, by decide⟩ rfl⟩
    | false => exact ⟨_, emits_constant (by decide) ⟨_, _, rfl, by decide⟩ rfl⟩
  | int n =>
    have hlt := (Literal.isWritable_int n).mp hw
    by_cases hsign : 0 ≤ n
    · obtain ⟨k, rfl⟩ := Int.eq_ofNat_of_zero_le hsign
      exact ⟨_, emits_int hlt (Literal.toList_toString k)⟩
    · obtain ⟨k, rfl⟩ := Int.eq_negSucc_of_lt_zero (Int.not_le.mp hsign)
      have hdigits := emits_int hlt (Literal.toList_toString (k + 1))
      exact ⟨_, emits_negative hdigits.lexes hdigits.start fun rest => rfl⟩
  | float y =>
    rw [Literal.code, Literal.asCase]
    by_cases hfinite : y.isFinite = true
    · rw [if_pos hfinite, if_pos hfinite]
      exact emits_finite hfinite
    · rw [if_neg hfinite, if_neg hfinite]
      exact emits_float_call _
  | text ps => exact ⟨_, emits_text ps⟩

end CodePattern

/-! ## Patterns -/

namespace Pattern

open CodePattern

mutual

/-- **The alternatives of a pattern**: those of a choice in parentheses are alternatives of the
choice around it. -/
def alternatives : Pattern → List CodePattern
  | wildcard _ => [.wildcard]
  | binding _ n => [ofName n]
  | literal _ v => [v.asCase]
  | value _ path => [.value path]
  | tuple _ items rest => [.sequence (meaningAll items) rest]
  | variant _ path items => [.object path (meaningAll items) []]
  | struct _ path fields _ => [.object path [] (meaningFields fields)]
  | or _ ps => alternativesAll ps

/-- The alternatives of patterns. -/
def alternativesAll : List Pattern → List CodePattern
  | [] => []
  | p :: ps => p.alternatives ++ alternativesAll ps

/-- What patterns stand for. -/
def meaningAll : List Pattern → List CodePattern
  | [] => []
  | p :: ps => CodePattern.joined p.alternatives :: meaningAll ps

/-- What the patterns of fields stand for. -/
def meaningFields : List (String × Pattern) → List (String × CodePattern)
  | [] => []
  | (n, p) :: fs => (n, CodePattern.joined p.alternatives) :: meaningFields fs

end

/-- **What a pattern stands for.** -/
def meaning (p : Pattern) : CodePattern := CodePattern.joined p.alternatives

mutual

/-- **The names and literals of a pattern can be written**: names are identifiers, and no integer
has too many digits. -/
def Spelled : Pattern → Prop
  | wildcard _ => True
  | binding _ n => isIdentifier n = true
  | literal _ v => v.isWritable = true
  | value _ path => ∀ n ∈ path, isIdentifier n = true
  | tuple _ items _ => SpelledAll items
  | variant _ path items => (∀ n ∈ path, isIdentifier n = true) ∧ SpelledAll items
  | struct _ path fields _ => (∀ n ∈ path, isIdentifier n = true) ∧ SpelledFields fields
  | or _ ps => SpelledAll ps

/-- All names and literals of patterns can be written. -/
def SpelledAll : List Pattern → Prop
  | [] => True
  | p :: ps => p.Spelled ∧ SpelledAll ps

/-- All names and literals of fields can be written. -/
def SpelledFields : List (String × Pattern) → Prop
  | [] => True
  | (n, p) :: fs => isIdentifier n = true ∧ p.Spelled ∧ SpelledFields fs

end

mutual

/-- **What can be written is emitted as it is**, if no name is changed. -/
theorem resolve_id : ∀ {p : Pattern}, p.Spelled → p.resolve id = .ok p
  | wildcard _, _ | binding _ _, _ | value _ _, _ => rfl
  | literal _ _, h => by
    rw [resolve]
    exact if_pos h
  | tuple _ _ _, h | or _ _, h => by
    rw [resolve, resolveAll_id h]
    rfl
  | variant _ _ _, h => by
    rw [resolve, resolveAll_id h.2]
    rfl
  | struct _ _ _ _, h => by
    rw [resolve, resolveFields_id h.2]
    rfl

theorem resolveAll_id : ∀ {ps : List Pattern}, SpelledAll ps → resolveAll id ps = .ok ps
  | [], _ => rfl
  | _ :: _, h => by
    rw [resolveAll, resolve_id h.1, resolveAll_id h.2]
    rfl

theorem resolveFields_id : ∀ {fs : List (String × Pattern)}, SpelledFields fs →
    resolveFields id fs = .ok fs
  | [], _ => rfl
  | (_, _) :: _, h => by
    rw [resolveFields, resolve_id h.2.1, resolveFields_id h.2.2]
    rfl

end

section Emits

theorem length_meaningAll (ps : List Pattern) : (meaningAll ps).length = ps.length := by
  induction ps with
  | nil => rfl
  | cons p ps ih => rw [meaningAll, List.length_cons, List.length_cons, ih]

/-- Items with a star among them. -/
theorem emitted_withRest {cs : List String} {xs : List CodePattern}
    (h : List.Forall₂ Emitted cs (xs.map .plain)) (rest : Option Nat) :
    List.Forall₂ Emitted (withRest cs rest) (withStar xs rest) := by
  cases rest with
  | none => exact h
  | some k =>
    rw [withRest, withStar, List.map_take, List.map_drop]
    exact List.rel_append (List.forall₂_take k h) (.cons emitted_star (List.forall₂_drop k h))

mutual

/-- **The code of a pattern is split into tokens that are its alternatives.** -/
theorem emits : ∀ {p : Pattern} {d : Nat}, p.Shaped d → p.Spelled →
    ∃ ts, EmitsChoice p.code ts p.alternatives
  | wildcard _, _, _, _ =>
    ⟨_, (emits_name isName_wildcard (by decide +kernel)).choice⟩
  | binding _ n, _, h, hs => ⟨_, (emits_name h.1 hs).choice⟩
  | literal _ v, _, _, hs => by
    obtain ⟨ts, hts⟩ := emits_literal hs
    exact ⟨ts, hts.choice⟩
  | value _ [], _, h, _ | value _ [_], _, h, _ => absurd h.2 (by simp)
  | value _ (_ :: _ :: _), _, h, hs => ⟨_, (emits_path h.1 hs).choice⟩
  | tuple _ items rest, _, h, hs => by
    have hrest : ∀ k, rest = some k → k ≤ (meaningAll items).length := by
      rw [length_meaningAll]
      exact h.2.2
    obtain ⟨ts, hts⟩ := emits_sequence (emitted_withRest (emitsAll h.2.1 hs) rest) hrest
    exact ⟨ts, hts.choice⟩
  | variant _ path items, _, h, hs => by
    obtain ⟨ts, hts⟩ := emits_object h.1 hs.1 (emitsAll h.2.2 hs.2) objectOf_plain
    exact ⟨ts, hts.choice⟩
  | struct _ path fields _, _, h, hs => by
    obtain ⟨ts, hts⟩ := emits_object h.1 hs.1 (emitsFields h.2.2 hs.2) objectOf_named
    exact ⟨ts, hts.choice⟩
  | or _ ps, _, h, hs =>
    emitsAlternatives (List.ne_nil_of_length_pos (Nat.lt_of_lt_of_le (by decide) h.1)) h.2 hs

theorem emitsAll : ∀ {ps : List Pattern} {d : Nat}, ShapedAll d ps → SpelledAll ps →
    List.Forall₂ Emitted (codeAll ps) ((meaningAll ps).map .plain)
  | [], _, _, _ => .nil
  | _ :: _, _, h, hs => by
    obtain ⟨_, hp⟩ := emits h.1 hs.1
    exact .cons hp.part (emitsAll h.2 hs.2)

theorem emitsFields : ∀ {fs : List (String × Pattern)} {d : Nat}, ShapedFields d fs →
    SpelledFields fs →
    List.Forall₂ Emitted (codeFields fs) ((meaningFields fs).map fun f => .named f.1 f.2)
  | [], _, _, _ => .nil
  | (n, p) :: fs, _, h, hs => by
    refine .cons ?_ (emitsFields h.2.2 hs.2.2)
    rcases h.2.1 with hb | hp
    · -- a field that is written as its name only
      cases p with
      | binding q m =>
        obtain rfl : m = n := by simpa [isBinding] using hb
        exact (emits_name h.1 hs.1).choice.named h.1 hs.1
      | _ => cases hb
    · obtain ⟨_, hp⟩ := emits hp hs.2.1
      exact hp.named h.1 hs.1

theorem emitsAlternatives : ∀ {ps : List Pattern} {d : Nat}, ps ≠ [] → ShapedAlternatives d ps →
    SpelledAll ps →
    ∃ ts, EmitsChoice (" | ".intercalate (codeAll ps)) ts (alternativesAll ps)
  | [], _, hne, _, _ => absurd rfl hne
  | [p], _, _, h, hs => by
    have hp : ShapedAlternative _ p := h.1
    obtain ⟨ts, hts⟩ := emits hp.shaped hs.1
    rw [codeAll, codeAll, String.intercalate_singleton, alternativesAll, alternativesAll,
      List.append_nil]
    exact ⟨ts, hts⟩
  | p :: q :: ps, _, _, h, hs => by
    have hp : ShapedAlternative _ p := h.1
    obtain ⟨ts, hts⟩ := emits hp.shaped hs.1
    obtain ⟨us, hus⟩ := emitsAlternatives (List.cons_ne_nil q ps) h.2 hs.2
    rw [codeAll, codeAll, String.intercalate_cons_cons, alternativesAll]
    exact ⟨_, hts.append hus⟩

end

end Emits

/-- **The code of a pattern is read as what the pattern stands for.** -/
theorem read_code_meaning {p : Pattern} (h : p.Shaped 0) (hs : p.Spelled) :
    CodePattern.read p.code.toList = some p.meaning := by
  obtain ⟨ts, hts⟩ := emits h hs
  exact hts.read

end Pattern

end Stencil
