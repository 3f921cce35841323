import Stencil.Proofs.PrintedLiteral

/-!
# Printed expressions

* `Expr.print`: the tokens of an expression with a space between each two, none after a point and
  none around the marks of a path.
* `Expr.Levelled`: the trees that operators of these levels group.
* `Expr.nesting`: the number of brackets and unary operators around the innermost part.
* `Expr.Printable`: all that an expression needs to be read back.
* **`Expr.first_print`**: the first token of an expression can start one.
-/

namespace Stencil

open Text Expr

/-- The parts of a path with its mark between them. -/
def printPath : List String → List Char
  | [] => []
  | [n] => n.toList
  | n :: ns => n.toList ++ ':' :: ':' :: printPath ns

namespace Expr

mutual

/-- **The text of an expression**, token by token. -/
def print : Expr → List Char
  | literal _ v => v.print
  | name _ n => n.toList
  | path _ ps => printPath ps
  | field _ v n => v.print ++ ' ' :: '.' :: n.toList
  | method _ r n as =>
    r.print ++ ' ' :: '.' :: (n.toList ++ ' ' :: '(' :: ' ' :: (printItems as ++ [')']))
  | call _ f as => f.print ++ ' ' :: '(' :: ' ' :: (printItems as ++ [')'])
  | index _ v i => v.print ++ ' ' :: '[' :: ' ' :: (i.print ++ [' ', ']'])
  | tuple _ is =>
    '(' :: ' ' :: (printItems is ++ if is.length = 1 then [',', ' ', ')'] else [')'])
  | list _ is => '[' :: ' ' :: (printItems is ++ [']'])
  | range _ s e i =>
    s.print ++ ' ' :: '.' :: '.' :: ((if i then ['='] else []) ++ ' ' :: e.print)
  | unary _ o e => o.symbol.toList ++ ' ' :: e.print
  | binary _ o l r => l.print ++ ' ' :: (o.symbol.toList ++ ' ' :: r.print)
  | group _ e => '(' :: ' ' :: (e.print ++ [' ', ')'])

/-- The texts of items, with commas between them and a space at the end. -/
def printItems : List Expr → List Char
  | [] => []
  | e :: es => e.print ++ ' ' :: ((if es.isEmpty then [] else [',', ' ']) ++ printItems es)

end

/-- **How tight an expression is**: a range is the loosest, then come the levels of operators, unary
operators, and last what can have links after it. -/
def rank : Expr → Nat
  | range .. => 0
  | binary _ o _ _ => o.level + 1
  | unary .. => 6
  | _ => 7

/-- The access of a field. -/
def isField : Expr → Bool
  | field .. => true
  | _ => false

mutual

/-- **The trees that can be written without brackets of their own**: each operand is as tight as
its operator asks for, a range stands in no operator, and no field is called. -/
def Levelled : Expr → Prop
  | literal _ v => v.Unsigned
  | name _ n => IsName n
  | path _ ps => 2 ≤ ps.length ∧ ∀ p ∈ ps, IsName p
  | field _ v n => v.Levelled ∧ 7 ≤ v.rank ∧ IsName n
  | method _ r n as => r.Levelled ∧ 7 ≤ r.rank ∧ IsName n ∧ LevelledAll as
  | call _ f as => f.Levelled ∧ 7 ≤ f.rank ∧ f.isField = false ∧ LevelledAll as
  | index _ v i => v.Levelled ∧ 7 ≤ v.rank ∧ i.Levelled
  | tuple _ is => LevelledAll is
  | list _ is => LevelledAll is
  | range _ s e _ => s.Levelled ∧ 1 ≤ s.rank ∧ e.Levelled ∧ 1 ≤ e.rank
  | unary _ _ e => e.Levelled ∧ 6 ≤ e.rank
  | binary _ o l r => l.Levelled ∧ o.level + 1 ≤ l.rank ∧ r.Levelled ∧ o.level + 2 ≤ r.rank
  | group _ e => e.Levelled

/-- All expressions of a list are levelled. -/
def LevelledAll : List Expr → Prop
  | [] => True
  | e :: es => e.Levelled ∧ LevelledAll es

end

mutual

/-- **The brackets and unary operators around the innermost part**; the brackets of an index do not
count. -/
def nesting : Expr → Nat
  | literal _ _ | name _ _ | path _ _ => 0
  | field _ v _ => v.nesting
  | method _ r _ as => max r.nesting (nestingAll as + 1)
  | call _ f as => max f.nesting (nestingAll as + 1)
  | index _ v i => max v.nesting i.nesting
  | tuple _ is => nestingAll is + 1
  | list _ is => nestingAll is + 1
  | range _ s e _ => max s.nesting e.nesting
  | unary _ _ e => e.nesting + 1
  | binary _ _ l r => max l.nesting r.nesting
  | group _ e => e.nesting + 1

/-- The deepest nesting in a list. -/
def nestingAll : List Expr → Nat
  | [] => 0
  | e :: es => max e.nesting (nestingAll es)

end

mutual

/-- The literals of an expression. -/
def literals : Expr → List Literal
  | literal _ v => [v]
  | name _ _ | path _ _ => []
  | field _ v _ => v.literals
  | method _ r _ as => r.literals ++ literalsAll as
  | call _ f as => f.literals ++ literalsAll as
  | index _ v i => v.literals ++ i.literals
  | tuple _ is => literalsAll is
  | list _ is => literalsAll is
  | range _ s e _ => s.literals ++ e.literals
  | unary _ _ e => e.literals
  | binary _ _ l r => l.literals ++ r.literals
  | group _ e => e.literals

/-- The literals of a list of expressions. -/
def literalsAll : List Expr → List Literal
  | [] => []
  | e :: es => e.literals ++ literalsAll es

end

mutual

/-- **An expression that can be read back** below the given number of brackets: it is levelled, its
literals can be printed, and it is not nested too deeply. -/
def Printable (d : Nat) : Expr → Prop
  | literal _ v => v.Unsigned ∧ v.Plain
  | name _ n => IsName n
  | path _ ps => 2 ≤ ps.length ∧ ∀ p ∈ ps, IsName p
  | field _ v n => v.Printable d ∧ 7 ≤ v.rank ∧ IsName n
  | method _ r n as =>
    r.Printable d ∧ 7 ≤ r.rank ∧ IsName n ∧ d < Read.maxDepth ∧ PrintableAll (d + 1) as
  | call _ f as =>
    f.Printable d ∧ 7 ≤ f.rank ∧ f.isField = false ∧ d < Read.maxDepth ∧ PrintableAll (d + 1) as
  | index _ v i => v.Printable d ∧ 7 ≤ v.rank ∧ i.Printable d
  | tuple _ is => d < Read.maxDepth ∧ PrintableAll (d + 1) is
  | list _ is => d < Read.maxDepth ∧ PrintableAll (d + 1) is
  | range _ s e _ => s.Printable d ∧ 1 ≤ s.rank ∧ e.Printable d ∧ 1 ≤ e.rank
  | unary _ _ e => d < Read.maxDepth ∧ e.Printable (d + 1) ∧ 6 ≤ e.rank
  | binary _ o l r =>
    l.Printable d ∧ o.level + 1 ≤ l.rank ∧ r.Printable d ∧ o.level + 2 ≤ r.rank
  | group _ e => d < Read.maxDepth ∧ e.Printable (d + 1)

/-- All expressions of a list can be read back. -/
def PrintableAll (d : Nat) : List Expr → Prop
  | [] => True
  | e :: es => e.Printable d ∧ PrintableAll d es

end

mutual

theorem printable_of_levelled : ∀ {e : Expr} {d : Nat}, e.Levelled → d + e.nesting ≤ Read.maxDepth →
    (∀ v ∈ e.literals, v.Plain) → e.Printable d
  | literal _ v, _, hl, _, hp => ⟨hl, hp v (List.mem_singleton_self v)⟩
  | name _ _, _, hl, _, _ => hl
  | path _ _, _, hl, _, _ => hl
  | field _ v _, _, hl, hn, hp => by
    rw [nesting] at hn
    rw [literals] at hp
    exact ⟨printable_of_levelled hl.1 hn hp, hl.2⟩
  | method _ r _ as, d, hl, hn, hp => by
    rw [nesting] at hn
    simp only [literals, List.mem_append] at hp
    exact ⟨printable_of_levelled hl.1 (by omega) fun v hv => hp v (.inl hv), hl.2.1, hl.2.2.1,
      by omega, printableAll_of_levelled hl.2.2.2 (by omega) fun v hv => hp v (.inr hv)⟩
  | call _ f as, d, hl, hn, hp => by
    rw [nesting] at hn
    simp only [literals, List.mem_append] at hp
    exact ⟨printable_of_levelled hl.1 (by omega) fun v hv => hp v (.inl hv), hl.2.1, hl.2.2.1,
      by omega, printableAll_of_levelled hl.2.2.2 (by omega) fun v hv => hp v (.inr hv)⟩
  | index _ v i, d, hl, hn, hp => by
    rw [nesting] at hn
    simp only [literals, List.mem_append] at hp
    exact ⟨printable_of_levelled hl.1 (by omega) fun v hv => hp v (.inl hv), hl.2.1,
      printable_of_levelled hl.2.2 (by omega) fun v hv => hp v (.inr hv)⟩
  | tuple _ is, d, hl, hn, hp => by
    rw [nesting] at hn
    rw [literals] at hp
    exact ⟨by omega, printableAll_of_levelled hl (by omega) hp⟩
  | list _ is, d, hl, hn, hp => by
    rw [nesting] at hn
    rw [literals] at hp
    exact ⟨by omega, printableAll_of_levelled hl (by omega) hp⟩
  | range _ s e _, d, hl, hn, hp => by
    rw [nesting] at hn
    simp only [literals, List.mem_append] at hp
    exact ⟨printable_of_levelled hl.1 (by omega) fun v hv => hp v (.inl hv), hl.2.1,
      printable_of_levelled hl.2.2.1 (by omega) fun v hv => hp v (.inr hv), hl.2.2.2⟩
  | unary _ _ e, d, hl, hn, hp => by
    rw [nesting] at hn
    rw [literals] at hp
    exact ⟨by omega, printable_of_levelled hl.1 (by omega) hp, hl.2⟩
  | binary _ _ l r, d, hl, hn, hp => by
    rw [nesting] at hn
    simp only [literals, List.mem_append] at hp
    exact ⟨printable_of_levelled hl.1 (by omega) fun v hv => hp v (.inl hv), hl.2.1,
      printable_of_levelled hl.2.2.1 (by omega) fun v hv => hp v (.inr hv), hl.2.2.2⟩
  | group _ e, d, hl, hn, hp => by
    rw [nesting] at hn
    rw [literals] at hp
    exact ⟨by omega, printable_of_levelled hl (by omega) hp⟩

theorem printableAll_of_levelled : ∀ {es : List Expr} {d : Nat}, LevelledAll es →
    d + nestingAll es ≤ Read.maxDepth → (∀ v ∈ literalsAll es, v.Plain) → PrintableAll d es
  | [], _, _, _, _ => trivial
  | e :: es, d, hl, hn, hp => by
    rw [nestingAll] at hn
    simp only [literalsAll, List.mem_append] at hp
    exact ⟨printable_of_levelled hl.1 (by omega) fun v hv => hp v (.inl hv),
      printableAll_of_levelled hl.2 (by omega) fun v hv => hp v (.inr hv)⟩

end

mutual

theorem Printable.levelled : ∀ {e : Expr} {d : Nat}, e.Printable d → e.Levelled
  | literal _ _, _, h => h.1
  | name _ _, _, h => h
  | path _ _, _, h => h
  | field _ _ _, _, h => ⟨h.1.levelled, h.2⟩
  | method _ _ _ _, _, h => ⟨h.1.levelled, h.2.1, h.2.2.1, levelledAll_of_printable h.2.2.2.2⟩
  | call _ _ _, _, h => ⟨h.1.levelled, h.2.1, h.2.2.1, levelledAll_of_printable h.2.2.2.2⟩
  | index _ _ _, _, h => ⟨h.1.levelled, h.2.1, h.2.2.levelled⟩
  | tuple _ _, _, h => levelledAll_of_printable h.2
  | list _ _, _, h => levelledAll_of_printable h.2
  | range _ _ _ _, _, h => ⟨h.1.levelled, h.2.1, h.2.2.1.levelled, h.2.2.2⟩
  | unary _ _ _, _, h => ⟨h.2.1.levelled, h.2.2⟩
  | binary _ _ _ _, _, h => ⟨h.1.levelled, h.2.1, h.2.2.1.levelled, h.2.2.2⟩
  | group _ _, _, h => h.2.levelled

theorem levelledAll_of_printable : ∀ {es : List Expr} {d : Nat}, PrintableAll d es → LevelledAll es
  | [], _, _ => trivial
  | _ :: _, _, h => ⟨h.1.levelled, levelledAll_of_printable h.2⟩

end

mutual

theorem Printable.plain : ∀ {e : Expr} {d : Nat}, e.Printable d → ∀ v ∈ e.literals, v.Plain
  | literal _ _, _, h => by simpa only [literals, List.forall_mem_singleton] using h.2
  | name _ _, _, _ | path _ _, _, _ => by simp [literals]
  | field _ _ _, _, h => by simpa only [literals] using h.1.plain
  | method _ _ _ _, _, h => by
    simpa only [literals, List.forall_mem_append] using
      ⟨h.1.plain, plainAll_of_printable h.2.2.2.2⟩
  | call _ _ _, _, h => by
    simpa only [literals, List.forall_mem_append] using
      ⟨h.1.plain, plainAll_of_printable h.2.2.2.2⟩
  | index _ _ _, _, h => by
    simpa only [literals, List.forall_mem_append] using ⟨h.1.plain, h.2.2.plain⟩
  | tuple _ _, _, h | list _ _, _, h => by
    simpa only [literals] using plainAll_of_printable h.2
  | range _ _ _ _, _, h | binary _ _ _ _, _, h => by
    simpa only [literals, List.forall_mem_append] using ⟨h.1.plain, h.2.2.1.plain⟩
  | unary _ _ _, _, h => by simpa only [literals] using h.2.1.plain
  | group _ _, _, h => by simpa only [literals] using h.2.plain

theorem plainAll_of_printable : ∀ {es : List Expr} {d : Nat}, PrintableAll d es →
    ∀ v ∈ literalsAll es, v.Plain
  | [], _, _ => by simp [literalsAll]
  | _ :: _, _, h => by
    simpa only [literalsAll, List.forall_mem_append] using ⟨h.1.plain, plainAll_of_printable h.2⟩

end

/-! ## The first token -/

/-- The token with which a text goes on, white space before it skipped. -/
def next (cs : List Char) : Token := ((⟨0, cs⟩ : Cursor).peek true).1

/-- The token at the start of a text. -/
def first (cs : List Char) : Token := (⟨0, cs⟩ : Cursor).token.1

/-- A token with which an expression can start. -/
def Token.opens (t : Token) : Bool :=
  (t.kind = .int || t.kind = .string || t.kind = .name) || t.isOp "(" || t.isOp "[" ||
    t.isOp "-" || t.isKeyword "not" || t.isKeyword "None" || t.isKeyword "true" ||
    t.isKeyword "false"

theorem next_space {cs w r : List Char} {k : TokenKind} (h : scan cs = ⟨k, w, r⟩)
    (hk : k ≠ .blank) : next (' ' :: cs) = ⟨k, w, 1⟩ := by
  rw [next, Cursor.peek_space h hk]

theorem first_of_scan {cs w r : List Char} {k : TokenKind} (h : scan cs = ⟨k, w, r⟩) :
    first cs = ⟨k, w, 0⟩ := by
  rw [first, Cursor.token_of_scan h]

theorem kind_ne_of_opens {t : Token} (h : t.opens = true) : t.kind ≠ .blank := by
  intro hk
  simp [Token.opens, Token.isOp, Token.isKeyword, hk] at h

theorem length_pos_of_opens {cs : List Char} (h : (first (cs ++ [])).opens = true) :
    0 < cs.length := by
  cases cs with
  | nil => exact absurd h (by decide)
  | cons c cs => exact Nat.succ_pos _

/-- A token that starts an expression is no other operator than those that do. -/
theorem not_op_of_opens {t : Token} (h : t.opens = true) {o : String} (hpar : o ≠ "(")
    (hbracket : o ≠ "[") (hminus : o ≠ "-") : t.isOp o = false := by
  cases ho : t.isOp o with
  | false => rfl
  | true =>
    obtain ⟨k, w, p⟩ := t
    simp only [Token.isOp, Bool.and_eq_true, decide_eq_true_eq] at ho
    obtain ⟨rfl, rfl⟩ := ho
    have hopen : o.toList = "(".toList ∨ o.toList = "[".toList ∨ o.toList = "-".toList := by
      simpa [Token.opens, Token.isOp, Token.isKeyword, or_assoc] using h
    rcases hopen with hopen | hopen | hopen
    · exact absurd (String.toList_inj.mp hopen) hpar
    · exact absurd (String.toList_inj.mp hopen) hbracket
    · exact absurd (String.toList_inj.mp hopen) hminus

/-- No white space stands before a token. -/
theorem skipBlank_of_opens {cs : List Char} (h : (first cs).opens = true) (pos : Nat) :
    (⟨pos, cs⟩ : Cursor).skipBlank = ⟨pos, cs⟩ :=
  Cursor.skipBlank_of_scan (k := (scan cs).kind) (w := (scan cs).text) (r := (scan cs).rest) rfl
    (kind_ne_of_opens h)

theorem next_of_opens {cs : List Char} (h : (first cs).opens = true) : next cs = first cs := by
  rw [next, Cursor.peek, if_pos rfl, skipBlank_of_opens h]
  rfl

theorem printPath_cons (n : String) (ns : List String) : printPath (n :: ns) =
    n.toList ++ if ns.isEmpty then [] else ':' :: ':' :: printPath ns := by
  cases ns <;> simp [printPath]

theorem wordless_mark (cs : List Char) : Wordless (':' :: cs) := by
  intro c hc
  cases hc
  decide

/-- The first part of a path stands before its mark or a space. -/
theorem scan_printPath {n : String} (ns : List String) (hn : IsName n) {rest : List Char}
    (hrest : Wordless rest) :
    ∃ r, scan (printPath (n :: ns) ++ rest) = ⟨.name, n.toList, r⟩ := by
  rw [printPath_cons, List.append_assoc]
  cases ns with
  | nil => exact ⟨_, scan_name hn hrest⟩
  | cons m ms => exact ⟨_, scan_name hn (wordless_mark _)⟩

/-- **An expression starts with a token that can start one**, however deep it is nested; only a
unary operator starts a unary expression. -/
theorem first_of_levelled : ∀ {e : Expr}, e.Levelled → (∀ v ∈ e.literals, v.Plain) →
    ∀ {rest : List Char}, Apart rest → (first (e.print ++ rest)).opens ∧
      (7 ≤ e.rank → Read.unaryOp? (first (e.print ++ rest)) = none)
  | literal _ v, h, hp, rest, hr => by
    have hplain := hp v (List.mem_singleton_self v)
    rw [print, first_of_scan (Literal.scan_print hplain h hr.parted)]
    cases v with
    | null => exact ⟨rfl, fun _ => rfl⟩
    | bool b => cases b <;> exact ⟨rfl, fun _ => rfl⟩
    | int n => exact ⟨rfl, fun _ => rfl⟩
    | float x => exact hplain.elim
    | text ps => exact ⟨rfl, fun _ => rfl⟩
  | name _ n, h, _, rest, hr => by
    rw [print, first_of_scan (scan_name h hr.wordless)]
    exact ⟨rfl, fun _ => rfl⟩
  | path _ [], h, _, rest, hr => by simp [Levelled] at h
  | path _ (p :: ps), h, _, rest, hr => by
    obtain ⟨r, hs⟩ := scan_printPath ps (h.2 p List.mem_cons_self) hr.wordless
    rw [print, first_of_scan hs]
    exact ⟨rfl, fun _ => rfl⟩
  | field _ v n, h, hp, rest, hr => by
    rw [literals] at hp
    have hv := first_of_levelled h.1 hp (Apart.space ('.' :: (n.toList ++ rest)))
    rw [print, List.append_assoc]
    exact ⟨hv.1, fun _ => hv.2 h.2.1⟩
  | method _ r n as, h, hp, rest, hr => by
    simp only [literals, List.mem_append] at hp
    have hv := first_of_levelled h.1 (fun v hv => hp v (.inl hv)) (Apart.space
      ('.' :: (n.toList ++ ' ' :: '(' :: ' ' :: (printItems as ++ [')'])) ++ rest))
    rw [print, List.append_assoc]
    exact ⟨hv.1, fun _ => hv.2 h.2.1⟩
  | call _ f as, h, hp, rest, hr => by
    simp only [literals, List.mem_append] at hp
    have hv := first_of_levelled h.1 (fun v hv => hp v (.inl hv))
      (Apart.space ('(' :: ' ' :: (printItems as ++ [')']) ++ rest))
    rw [print, List.append_assoc]
    exact ⟨hv.1, fun _ => hv.2 h.2.1⟩
  | index _ v i, h, hp, rest, hr => by
    simp only [literals, List.mem_append] at hp
    have hv := first_of_levelled h.1 (fun v hv => hp v (.inl hv))
      (Apart.space ('[' :: ' ' :: (i.print ++ [' ', ']']) ++ rest))
    rw [print, List.append_assoc]
    exact ⟨hv.1, fun _ => hv.2 h.2.1⟩
  | tuple _ is, _, _, rest, _ => ⟨rfl, fun _ => rfl⟩
  | list _ is, _, _, rest, _ => ⟨rfl, fun _ => rfl⟩
  | range _ s e i, h, hp, rest, hr => by
    simp only [literals, List.mem_append] at hp
    have hv := first_of_levelled h.1 (fun v hv => hp v (.inl hv)) (Apart.space
      ('.' :: '.' :: ((if i then ['='] else []) ++ ' ' :: e.print) ++ rest))
    rw [print, List.append_assoc]
    exact ⟨hv.1, fun hrank => absurd hrank (by simp [rank])⟩
  | unary _ o e, _, _, rest, hr => by
    refine ⟨?_, fun hrank => absurd hrank (by simp [rank])⟩
    cases o <;> rfl
  | binary _ o l r, h, hp, rest, hr => by
    simp only [literals, List.mem_append] at hp
    have hv := first_of_levelled h.1 (fun v hv => hp v (.inl hv))
      (Apart.space (o.symbol.toList ++ ' ' :: r.print ++ rest))
    rw [print, List.append_assoc]
    refine ⟨hv.1, fun hrank => absurd hrank ?_⟩
    have := o.level_lt
    simp only [rank, BinaryOp.levels] at *
    omega
  | group _ e, _, _, rest, _ => ⟨rfl, fun _ => rfl⟩

theorem first_print {e : Expr} {d : Nat} (h : e.Printable d) {rest : List Char} (hr : Apart rest) :
    (first (e.print ++ rest)).opens ∧
      (7 ≤ e.rank → Read.unaryOp? (first (e.print ++ rest)) = none) :=
  first_of_levelled h.levelled h.plain hr

/-- The next token of the text of an expression is its first one. -/
theorem next_print {e : Expr} {d : Nat} (h : e.Printable d) {rest : List Char} (hr : Apart rest) :
    (next (e.print ++ rest)).opens ∧
      (7 ≤ e.rank → Read.unaryOp? (next (e.print ++ rest)) = none) := by
  have hf := first_print h hr
  rw [next_of_opens hf.1]
  exact hf

end Expr

end Stencil
