import Stencil.Proofs.EmittedCode
import Stencil.Proofs.ExprLevels

/-!
# Meaning of emitted code

The generated language groups the code of an expression as the template groups the expression: each
operation stands in parentheses, and everything else is an atom with links. The one operation
without parentheses of its own is the end of a range that is included, which stands between marks.

* `Expr.meaning`: the tree that an expression of a template stands for.
* `Expr.emits`: its code is split into tokens that are a primary with that tree.
* `CodeExpr.Unchained`: no comparison has more than one operator.
* **`Expr.read_code`**: the code of every expression that is read means what the template says.
-/

namespace Stencil

open Text CodeExpr

namespace Literal

/-- **What a literal stands for.** Numbers that are not finite have no literal in the generated
language, and are made from their names. -/
def meaning : Literal → CodeExpr
  | null => .null
  | bool b => .bool b
  | int n => .int n.natAbs
  | float x =>
    if x.isFinite then .float x else .call (.name "float") [.text (CodePoint.ofString "inf")]
  | text ps => .text ps

/-- **A literal that can be emitted**: an integer without a sign whose digits can be written, or a
number without a sign. -/
def Emittable : Literal → Prop
  | int n => 0 ≤ n ∧ n.natAbs < 10 ^ maxDecimalDigits
  | float x => x.bits.toNat ≤ Binary64.infiniteBits
  | _ => True

variable {v : Literal}

/-- An integer can be written, if it is below a power of ten. -/
theorem isWritable_int (n : Int) :
    (int n).isWritable = true ↔ n.natAbs < 10 ^ maxDecimalDigits := by
  rw [isWritable, decide_eq_true_eq, Nat.pow_eq]

/-- **Literals that are read can be emitted**, if their digits can be written. -/
theorem emittable_of_ofToken (h : Expr.OfToken v) (hw : v.isWritable = true) : v.Emittable := by
  obtain ⟨t, ht⟩ := h
  have hu := Expr.unsigned_of_ofToken ht
  cases v with
  | int n => exact ⟨hu, (isWritable_int n).mp hw⟩
  | float x =>
    unfold ofToken at ht
    split at ht
    · cases hi : ofInt t.text with
      | error f => rw [hi] at ht; cases ht
      | ok n => rw [hi] at ht; cases ht
    · cases ht
      exact Binary64.ofText_le _
    · cases hs : ofString t.position t.text with
      | error f => rw [hs] at ht; cases ht
      | ok ps => rw [hs] at ht; cases ht
    · split at ht
      · cases ht
      · split at ht
        · cases ht
        · split at ht <;> cases ht
    · cases ht
  | _ => trivial

theorem isWritable_digit {n : Int} (h : n.natAbs < 10) : (int n).isWritable = true :=
  (isWritable_int n).mpr (Nat.lt_of_lt_of_le h (Nat.le_self_pow (by decide) 10))

theorem toList_toString (k : Nat) : (toString (k : Int)).toList = Nat.toDigits 10 k := by
  rw [show toString (k : Int) = toString k from rfl, Nat.toString_eq_repr, Nat.repr,
    String.toList_ofList]

/-- **The code of a literal is a primary.** No point may follow digits. -/
theorem emits (h : v.Emittable) : ∃ ts, Emits false v.code ts v.meaning := by
  cases v with
  | null => exact ⟨_, emits_word (by decide) ⟨_, _, rfl, by decide⟩ (by decide) rfl⟩
  | bool b =>
    cases b with
    | true => exact ⟨_, emits_word (by decide) ⟨_, _, rfl, by decide⟩ (by decide) rfl⟩
    | false => exact ⟨_, emits_word (by decide) ⟨_, _, rfl, by decide⟩ (by decide) rfl⟩
  | int n =>
    obtain ⟨k, rfl⟩ := Int.eq_ofNat_of_zero_le h.1
    exact ⟨_, emits_int h.2 (toList_toString k)⟩
  | float x =>
    rw [code, meaning]
    by_cases hfinite : x.isFinite = true
    · rw [if_pos hfinite, if_pos hfinite]
      exact ⟨_, emits_float h hfinite⟩
    · obtain rfl := (Binary64.isFinite_or_infinite h).resolve_left hfinite
      rw [if_neg hfinite, if_neg hfinite]
      exact ⟨_, emits_infinite⟩
  | text ps => exact ⟨_, emits_text ps⟩

end Literal

namespace BinaryOp

/-- **What an operator makes of its operands.** -/
def joined (o : BinaryOp) (l r : CodeExpr) : CodeExpr :=
  match o with
  | or | and => .junction o.symbol [l, r]
  | eq | ne | lt | le | gt | ge => .compare l [(o.symbol, r)]
  | add | sub | mul | div | mod => .binary o.symbol l r

/-- The token of an operator. -/
def token (o : BinaryOp) : CodeToken :=
  match o with
  | or | and => .word o.symbol
  | _ => .op o.symbol

variable {a b : List CodeToken} {e f : CodeExpr}

theorem lexes_symbol (o : BinaryOp) {rest : List Char} :
    CodeToken.Lexes (o.symbol ++ " ").toList [o.token] rest := by
  cases o
  case or | and => exact lexes_operator_word (by decide)
  all_goals exact lexes_spaced (by decide +kernel)

/-- **Two primaries with an operator of templates between them** are its operation. -/
theorem isFull_joined (o : BinaryOp) (ha : IsPrimary a e) (hb : IsPrimary b f) :
    IsFull (a ++ o.token :: b) (o.joined e f) := by
  have hor : CodeExpr.levels = [] ++ .junction "or" :: CodeExpr.levels.drop 1 := rfl
  have hand : CodeExpr.levels = CodeExpr.levels.take 1 ++
      .junction "and" :: CodeExpr.levels.drop 2 := rfl
  have hsum : CodeExpr.levels = CodeExpr.levels.take 8 ++
      .binary ["+", "-"] :: CodeExpr.levels.drop 9 := rfl
  have hproduct : CodeExpr.levels = CodeExpr.levels.take 9 ++
      .binary ["*", "@", "/", "//", "%"] :: CodeExpr.levels.drop 10 := rfl
  cases o
  case or => exact isFull_junction hor (by decide) ha hb
  case and => exact isFull_junction hand (by decide) ha hb
  case eq | ne | lt | le | gt | ge => exact isFull_compare (by decide) ha hb
  case add | sub => exact isFull_binary hsum (by decide) rfl (by decide) ha hb
  case mul | div | mod => exact isFull_binary hproduct (by decide) rfl (by decide) ha hb

end BinaryOp

namespace Expr

mutual

/-- **The tree that an expression stands for**, names taken as they are. -/
def meaning : Expr → CodeExpr
  | literal _ v => v.meaning
  | name _ n => .name n
  | path _ [] => .name ""
  | path _ (n :: ns) => ns.foldl .member (.name n)
  | field _ v n => .member v.meaning n
  | method _ r n as => .call (.member r.meaning n) (meaningAll as)
  | call _ f as => .call f.meaning (meaningAll as)
  | index _ v i => .subscript v.meaning i.meaning
  | tuple _ is => .tuple (meaningAll is)
  | list _ is => .list (meaningAll is)
  | range _ s e inclusive =>
    .call (.name "range")
      [s.meaning, if inclusive then .binary "+" e.meaning (.int 1) else e.meaning]
  | unary _ o e => .unary o.symbol e.meaning
  | binary _ o l r => o.joined l.meaning r.meaning
  | group _ e => e.meaning

/-- The trees that expressions stand for. -/
def meaningAll : List Expr → List CodeExpr
  | [] => []
  | e :: es => e.meaning :: meaningAll es

end

/-- A literal. -/
def isLiteral : Expr → Bool
  | literal .. => true
  | _ => false

variable {v : Expr} {g : CodeExpr}

/-- **The base of a link may have a point after it.** -/
theorem emits_asBase (h : ∃ ts, Emits (!v.isLiteral) v.code ts g) :
    ∃ ts, Emits true (asBase v v.code) ts g := by
  obtain ⟨ts, h⟩ := h
  cases v with
  | literal => exact ⟨_, h.full.paren⟩
  | _ => exact ⟨ts, h⟩

/-- **A path is the access of its parts**, one after the other. -/
theorem emits_path {c : String} {ns : List String} (h : ∃ ts, Emits true c ts g)
    (hns : ∀ n ∈ ns, IsName n) :
    ∃ ts, Emits true (".".intercalate (c :: ns)) ts (ns.foldl .member g) := by
  induction ns generalizing c g with
  | nil => simpa using h
  | cons n ns ih =>
    obtain ⟨ts, h⟩ := h
    have hn := hns n List.mem_cons_self
    have hcode : ".".intercalate (c :: n :: ns) = ".".intercalate ((c ++ "." ++ n) :: ns) := by
      cases ns <;> simp [String.intercalate_cons_cons, String.append_assoc]
    rw [hcode]
    exact ih ⟨_, h.member hn⟩ fun m hm => hns m (List.mem_cons_of_mem _ hm)

/-- The end of a range, one more if it is included. -/
theorem emits_stop {c : String} (h : ∃ p ts, Emits p c ts g) (inclusive : Bool) :
    ∃ ts, EmitsFull (c ++ if inclusive then " + 1" else "") ts
      (if inclusive then .binary "+" g (.int 1) else g) := by
  obtain ⟨p, ts, h⟩ := h
  cases inclusive with
  | false => exact ⟨ts, by simpa using h.full⟩
  | true =>
    have hone : Emits false "1" [.int 1] (.int 1) :=
      emits_int (Nat.one_lt_pow (by decide) (by decide)) rfl
    have hcode : c ++ " + 1" = c ++ " " ++ ("+" ++ " ") ++ "1" := by
      simp only [String.append_assoc]
      rfl
    rw [if_pos rfl, if_pos rfl, hcode]
    exact ⟨_, emits_operation h hone (fun _ => BinaryOp.lexes_symbol .add)
      (BinaryOp.isFull_joined .add h.primary hone.primary)⟩

/-! The code of operations and ranges, grouped as their parts are. -/

section Grouped

variable {p : Nat} {l r : Expr}

theorem code_range {inclusive : Bool} : code (range p l r inclusive) =
    "range" ++ "(" ++ ", ".intercalate
      [l.code, r.code ++ if inclusive then " + 1" else ""] ++ ")" := by
  simp only [code, String.intercalate_cons_cons, String.intercalate_singleton,
    String.append_assoc]
  rfl

theorem code_not : code (unary p .not r) = "(" ++ ("not " ++ r.code) ++ ")" := by
  simp only [code, ← String.append_assoc]
  rfl

theorem code_neg : code (unary p .neg r) = "(" ++ ("-" ++ r.code) ++ ")" := by
  simp only [code, ← String.append_assoc]
  rfl

theorem code_binary {o : BinaryOp} : code (binary p o l r) =
    "(" ++ (l.code ++ " " ++ (o.symbol ++ " ") ++ r.code) ++ ")" := by
  simp only [code, String.append_assoc]

end Grouped

mutual

/-- **The code of a levelled expression is a primary** with the tree that the expression stands for.
The operands of an operation are primaries again, so no level of operators matters. -/
theorem emits : ∀ {e : Expr}, e.Levelled → (∀ v ∈ e.literals, v.Emittable) →
    ∃ ts, Emits (!e.isLiteral) e.code ts e.meaning
  | literal _ v, _, hv => Literal.emits (hv v (List.mem_singleton_self v))
  | name _ _, hl, _ => ⟨_, emits_name hl⟩
  | path _ [], hl, _ => absurd hl.1 (by simp)
  | path _ (n :: _), hl, _ => emits_path ⟨_, emits_name (hl.2 n List.mem_cons_self)⟩ fun m hm =>
      hl.2 m (List.mem_cons_of_mem _ hm)
  | field _ _ _, hl, hv => by
    obtain ⟨_, h⟩ := emits_asBase (emits hl.1 hv)
    exact ⟨_, h.member hl.2.2⟩
  | method _ _ _ _, hl, hv => by
    obtain ⟨hr, has⟩ := List.forall_mem_append.mp hv
    obtain ⟨_, h⟩ := emits_asBase (emits hl.1 hr)
    obtain ⟨_, hs⟩ := emitsAll hl.2.2.2 has
    exact ⟨_, (h.member hl.2.2.1).call hs⟩
  | call _ _ _, hl, hv => by
    obtain ⟨hf, has⟩ := List.forall_mem_append.mp hv
    obtain ⟨_, h⟩ := emits_asBase (emits hl.1 hf)
    obtain ⟨_, hs⟩ := emitsAll hl.2.2.2 has
    exact ⟨_, h.call hs⟩
  | index _ _ _, hl, hv => by
    obtain ⟨hb, hi⟩ := List.forall_mem_append.mp hv
    obtain ⟨_, h⟩ := emits_asBase (emits hl.1 hb)
    obtain ⟨_, h'⟩ := emits hl.2.2 hi
    exact ⟨_, h.subscript h'.full⟩
  | tuple _ [i], hl, hv => by
    obtain ⟨_, h⟩ := emits hl.1 (List.forall_mem_append.mp hv).1
    exact ⟨_, h.full.tuple⟩
  | tuple _ [], _, _ => ⟨_, EmitsAll.nil.tuple (by simp)⟩
  | tuple _ (_ :: _ :: _), hl, hv => by
    obtain ⟨_, hs⟩ := emitsAll hl hv
    exact ⟨_, hs.tuple (by simp [codeAll])⟩
  | list _ _, hl, hv => by
    obtain ⟨_, hs⟩ := emitsAll hl hv
    exact ⟨_, hs.list⟩
  | range _ s e inclusive, hl, hv => by
    obtain ⟨hs, he⟩ := List.forall_mem_append.mp hv
    obtain ⟨_, h⟩ := emits hl.1 hs
    obtain ⟨_, h'⟩ := emits_stop ⟨_, emits hl.2.2.1 he⟩ inclusive
    have hname : IsName "range" := ⟨by decide +kernel, by decide +kernel, by decide +kernel⟩
    rw [code_range]
    -- the end may be an operation, as it stands between a comma and a parenthesis
    exact ⟨_, (emits_name hname).call (.cons h.full (.cons h' .nil))⟩
  | unary _ .not e, hl, hv => by
    obtain ⟨_, h⟩ := emits hl.1 hv
    rw [code_not]
    exact ⟨_, (emitsFull_not h).paren⟩
  | unary _ .neg e, hl, hv => by
    obtain ⟨_, h⟩ := emits hl.1 hv
    rw [code_neg]
    exact ⟨_, (emitsFull_neg h).paren⟩
  | binary _ o l r, hl, hv => by
    obtain ⟨hleft, hright⟩ := List.forall_mem_append.mp hv
    obtain ⟨_, h⟩ := emits hl.1 hleft
    obtain ⟨_, h'⟩ := emits hl.2.2.1 hright
    have hjoined := o.isFull_joined h.primary h'.primary
    rw [code_binary]
    exact ⟨_, (emits_operation h h' (fun _ => o.lexes_symbol) hjoined).paren⟩
  | group _ inner, hl, hv => by
    obtain ⟨_, h⟩ := emits (e := inner) hl hv
    exact ⟨_, h.full.paren⟩

theorem emitsAll : ∀ {es : List Expr}, LevelledAll es → (∀ v ∈ literalsAll es, v.Emittable) →
    ∃ tss, EmitsAll (codeAll es) tss (meaningAll es)
  | [], _, _ => ⟨_, .nil⟩
  | _ :: _, hl, hv => by
    obtain ⟨he, hes⟩ := List.forall_mem_append.mp hv
    obtain ⟨_, h⟩ := emits hl.1 he
    obtain ⟨_, hs⟩ := emitsAll hl.2 hes
    exact ⟨_, .cons h.full hs⟩

end

/-! ## Chains -/

end Expr

namespace CodeExpr

mutual

/-- **No comparison has more than one operator.** -/
def Unchained : CodeExpr → Prop
  | member v _ => v.Unchained
  | call f as => f.Unchained ∧ UnchainedAll as
  | subscript v i => v.Unchained ∧ i.Unchained
  | tuple is => UnchainedAll is
  | list is => UnchainedAll is
  | unary _ e => e.Unchained
  | binary _ l r => l.Unchained ∧ r.Unchained
  | junction _ es => UnchainedAll es
  | compare first [(_, e)] => first.Unchained ∧ e.Unchained
  | compare _ _ => False
  | _ => True

/-- No comparison in any of the trees has more than one operator. -/
def UnchainedAll : List CodeExpr → Prop
  | [] => True
  | e :: es => e.Unchained ∧ UnchainedAll es

end

theorem unchained_foldl_member {e : CodeExpr} (h : e.Unchained) (ns : List String) :
    (ns.foldl member e).Unchained := by
  induction ns generalizing e with
  | nil => exact h
  | cons n ns ih => exact ih h

theorem unchained_joined {l r : CodeExpr} (hl : l.Unchained) (hr : r.Unchained) (o : BinaryOp) :
    (o.joined l r).Unchained := by
  cases o
  case or | and => exact ⟨hl, hr, trivial⟩
  all_goals exact ⟨hl, hr⟩

end CodeExpr

namespace Expr

mutual

/-- **A comparison of templates has one operator**, and so has what it stands for. -/
theorem unchained_meaning : ∀ e : Expr, e.meaning.Unchained
  | literal _ .null | literal _ (.bool _) | literal _ (.int _) | literal _ (.text _) => trivial
  | literal _ (.float x) => by
    rw [meaning, Literal.meaning]
    split
    · trivial
    · exact ⟨trivial, trivial, trivial⟩
  | name _ _ => trivial
  | path _ [] => trivial
  | path _ (n :: ns) => unchained_foldl_member (e := .name n) trivial ns
  | field _ v _ => unchained_meaning v
  | method _ r _ as => ⟨unchained_meaning r, unchained_meaningAll as⟩
  | call _ f as => ⟨unchained_meaning f, unchained_meaningAll as⟩
  | index _ v i => ⟨unchained_meaning v, unchained_meaning i⟩
  | tuple _ is => unchained_meaningAll is
  | list _ is => unchained_meaningAll is
  | range _ s e inclusive => by
    have he := unchained_meaning e
    refine ⟨trivial, unchained_meaning s, ?_, trivial⟩
    cases inclusive with
    | false => exact he
    | true => exact ⟨he, trivial⟩
  | unary _ _ e => unchained_meaning e
  | binary _ o l r => unchained_joined (unchained_meaning l) (unchained_meaning r) o
  | group _ e => unchained_meaning e

theorem unchained_meaningAll : ∀ es : List Expr, UnchainedAll (meaningAll es)
  | [] => trivial
  | e :: es => ⟨unchained_meaning e, unchained_meaningAll es⟩

end

/-! ## Names as they are -/

/-- The outcome of resolving a tree with the given literals. -/
def resolved {α : Type} (vs : List Literal) (a : α) : Except Failure α :=
  if vs.all Literal.isWritable then .ok a else .error .unreadableNumber

/-- Of two trees, the failure of either is that of both. -/
theorem resolved_bind {α β γ : Type} (vs ws : List Literal) (a : α) (b : β) (f : α → β → γ) :
    ((resolved vs a).bind fun a => (resolved ws b).bind fun b => .ok (f a b)) =
      resolved (vs ++ ws) (f a b) := by
  unfold resolved
  rw [List.all_append]
  cases vs.all Literal.isWritable <;> cases ws.all Literal.isWritable <;> rfl

theorem resolved_map {α β : Type} (vs : List Literal) (a : α) (f : α → β) :
    ((resolved vs a).bind fun a => .ok (f a)) = resolved vs (f a) := by
  unfold resolved
  cases vs.all Literal.isWritable <;> rfl

mutual

/-- **Where no name is renamed, a tree stays as it is**, unless some integer cannot be written. -/
theorem resolve_trivial : ∀ e : Expr, e.resolve .trivial = resolved e.literals e
  | literal _ v => by
    rw [resolve, resolved, literals, List.all_cons, List.all_nil, Bool.and_true]
  | name _ _ => rfl
  | path _ [] => rfl
  | path _ (_ :: _) => rfl
  | field _ v n => by
    rw [resolve, resolve_trivial v]
    exact resolved_map _ v (field _ · n)
  | method _ r n as => by
    rw [resolve, resolve_trivial r, resolveAll_trivial as]
    exact resolved_bind _ _ r as (method _ · n ·)
  | call _ f as => by
    rw [resolve, resolve_trivial f, resolveAll_trivial as]
    exact resolved_bind _ _ f as (call _ · ·)
  | index _ v i => by
    rw [resolve, resolve_trivial v, resolve_trivial i]
    exact resolved_bind _ _ v i (index _ · ·)
  | tuple _ is => by
    rw [resolve, resolveAll_trivial is]
    exact resolved_map _ is (tuple _ ·)
  | list _ is => by
    rw [resolve, resolveAll_trivial is]
    exact resolved_map _ is (list _ ·)
  | range _ s e inclusive => by
    rw [resolve, resolve_trivial s, resolve_trivial e]
    -- the end of a range is resolved before its start
    refine (resolved_bind _ _ e s fun e s => range _ s e inclusive).trans ?_
    rw [resolved, resolved, literals, List.all_append, List.all_append, Bool.and_comm]
  | unary _ o e => by
    rw [resolve, resolve_trivial e]
    exact resolved_map _ e (unary _ o ·)
  | binary _ o l r => by
    rw [resolve, resolve_trivial l, resolve_trivial r]
    exact resolved_bind _ _ l r (binary _ o · ·)
  | group _ e => by
    rw [resolve, resolve_trivial e]
    exact resolved_map _ e (group _ ·)

theorem resolveAll_trivial : ∀ es : List Expr,
    resolveAll .trivial es = resolved (literalsAll es) es
  | [] => rfl
  | e :: es => by
    rw [resolveAll, resolve_trivial e, resolveAll_trivial es]
    exact resolved_bind _ _ e es (· :: ·)

end

/-! ## All expressions that are read -/

/-- **An expression that is read** at some place of some text. -/
def IsRead (e : Expr) : Prop :=
  (∃ c c', readExpression c = .ok (e, c')) ∨ ∃ c c', readChain c = .ok (e, c')

theorem IsRead.fits {e : Expr} (h : e.IsRead) : Fits 0 0 e := by
  obtain ⟨c, c', h⟩ | ⟨c, c', h⟩ := h
  · exact fits_of_readExpression h
  · exact (fits_of_readChain h).mono (Nat.zero_le _)

/-- **The code of an expression that is read means what the template says**, whatever it is nested
in: operands are those of the template in the same order, and no comparison is chained. Only an
integer of too many digits has no code. -/
theorem read_code {e : Expr} (h : e.IsRead) :
    (e.resolve .trivial = .error .unreadableNumber ↔ ∃ v ∈ e.literals, v.isWritable = false) ∧
    ((∀ v ∈ e.literals, v.isWritable = true) → e.resolve .trivial = .ok e ∧
      read e.code.toList = some e.meaning ∧ e.meaning.Unchained) := by
  have hfits := h.fits
  constructor
  · rw [resolve_trivial, resolved]
    split
    · rename_i hall
      refine iff_of_false (fun h => by cases h) ?_
      rintro ⟨v, hv, hfalse⟩
      exact Bool.noConfusion (hfalse.symm.trans (List.all_eq_true.mp hall v hv))
    · rename_i hall
      exact iff_of_true rfl (by simpa using hall)
  · intro hw
    obtain ⟨ts, hemits⟩ := emits hfits.levelled fun v hv =>
      Literal.emittable_of_ofToken (hfits.literals v hv) (hw v hv)
    refine ⟨?_, hemits.read, unchained_meaning e⟩
    rw [resolve_trivial, resolved, if_pos (List.all_eq_true.mpr hw)]

/-- Without parentheses the generated language would negate the comparison, and would read the point
as a part of the number. -/
theorem read_code_negatedComparison :
    let e : Expr := .binary 0 .lt (.unary 0 .not (.field 4 (.literal 4 (.int 1)) "y"))
      (.tuple 10 [.index 11 (.path 11 ["a", "b"])
        (.range 16 (.literal 16 (.int 0)) (.name 20 "n") true)])
    readExpression ⟨0, "not 1.y < (a::b[0..=n],)".toList⟩ = .ok (e, ⟨24, []⟩) ∧
      (∀ v ∈ e.literals, v.isWritable = true) ∧ e.resolve .trivial = .ok e ∧
      e.code = "((not (1).y) < (a.b[range(0, n + 1)],))" ∧
      read "((not (1).y) < (a.b[range(0, n + 1)],))".toList =
        some (.compare (.unary "not" (.member (.int 1) "y"))
          [("<", .tuple [.subscript (.member (.name "a") "b")
            (.call (.name "range") [.int 0, .binary "+" (.name "n") (.int 1)])])]) := by
  intro e
  have hread : readExpression ⟨0, "not 1.y < (a::b[0..=n],)".toList⟩ = .ok (e, ⟨24, []⟩) := by
    rfl
  have hw : ∀ v ∈ e.literals, v.isWritable = true := by
    intro v hv
    obtain rfl | rfl : v = .int 1 ∨ v = .int 0 := by simpa [e, literals, literalsAll] using hv
    · exact Literal.isWritable_digit (by decide)
    · exact Literal.isWritable_digit (by decide)
  have hcode : e.code = "((not (1).y) < (a.b[range(0, n + 1)],))" := by decide +kernel
  obtain ⟨hresolve, hmeaning, -⟩ := (read_code (.inl ⟨_, _, hread⟩)).2 hw
  exact ⟨hread, hw, hresolve, hcode, hcode ▸ hmeaning⟩

/-- An integer with more digits than can be written, in a base in which they can be read. -/
def hugeInteger : List Char := '0' :: 'x' :: List.replicate 3572 'f'

/-- **An integer that can be read and has no code.** -/
theorem hugeInteger_has_no_code : ∃ e c', readExpression ⟨0, hugeInteger⟩ = .ok (e, c') ∧
    e.resolve .trivial = .error .unreadableNumber := by
  have h : ((readExpression ⟨0, hugeInteger⟩).toOption.any
      fun r => !r.1.literals.all Literal.isWritable) = true := by decide +kernel
  cases hr : readExpression ⟨0, hugeInteger⟩ with
  | error f => rw [hr] at h; cases h
  | ok r =>
    rw [hr] at h
    have hw : r.1.literals.all Literal.isWritable = false := (Bool.not_eq_true' _).mp h
    refine ⟨r.1, r.2, rfl, ?_⟩
    rw [resolve_trivial, resolved, hw, if_neg Bool.false_ne_true]

end Expr

end Stencil
