import Stencil.Code.Module
import Stencil.Proofs.PrintedTemplate

/-!
# Code without positions

Where a piece of a template stands is used for messages only: the text of the module is the same
wherever the pieces stand.

* `Maps`, `Gen.Maps`: one result is the image of another, or both are failures.
* `Stmt.unplaced`: a statement with its positions set to zero; its lines read the same.
* `Gen.maps_body`: the statements of a body without positions are those of the body, without theirs.
* **`Template.toOption_render_eq`**: templates that differ in positions have the same module, or none.
-/

namespace Stencil

/-! ## Results that correspond -/

/-- **One result is the image of another, or both are errors**, which may differ. -/
inductive Maps {ε α β : Type} (f : α → β) : Except ε α → Except ε β → Prop
  | ok (a : α) : Maps f (.ok a) (.ok (f a))
  | error (e e' : ε) : Maps f (.error e) (.error e')

namespace Maps

variable {ε α β γ δ : Type} {f : α → β} {g : γ → δ}

theorem bind {x : Except ε α} {y : Except ε β} {q : α → Except ε γ} {q' : β → Except ε δ}
    (h : Maps f x y) (hq : ∀ a, Maps g (q a) (q' (f a))) : Maps g (x >>= q) (y >>= q') := by
  cases h with
  | ok a => exact hq a
  | error e e' => exact .error e e'

theorem refl (x : Except ε α) : Maps id x x := by
  cases x with
  | ok a => exact .ok a
  | error e => exact .error e e

theorem toOption {x : Except ε α} {y : Except ε β} (h : Maps f x y) :
    y.toOption = x.toOption.map f := by
  cases h <;> rfl

end Maps

/-! ## Expressions -/

namespace Expr

theorem asBase_unplaced (e : Expr) (c : String) : asBase e.unplaced c = asBase e c := by
  cases e <;> rfl

mutual

theorem code_unplaced : ∀ e : Expr, e.unplaced.code = e.code
  | literal _ _ | name _ _ | path _ _ => rfl
  | field _ v _ => by simp only [unplaced, code, asBase_unplaced, code_unplaced v]
  | method _ r _ as => by
    simp only [unplaced, code, asBase_unplaced, code_unplaced r, codeAll_unplacedAll as]
  | call _ f as => by
    simp only [unplaced, code, asBase_unplaced, code_unplaced f, codeAll_unplacedAll as]
  | index _ v i => by simp only [unplaced, code, asBase_unplaced, code_unplaced v, code_unplaced i]
  | tuple _ [] => rfl
  | tuple _ [e] => by simp only [unplaced, unplacedAll, code, code_unplaced e]
  | tuple _ (e :: e' :: es) => by
    have h := codeAll_unplacedAll (e :: e' :: es)
    simp only [unplacedAll] at h
    simp only [unplaced, unplacedAll, code, h]
  | list _ is => by simp only [unplaced, code, codeAll_unplacedAll is]
  | range _ s e _ => by simp only [unplaced, code, code_unplaced s, code_unplaced e]
  | unary _ .not e => by simp only [unplaced, code, code_unplaced e]
  | unary _ .neg e => by simp only [unplaced, code, code_unplaced e]
  | binary _ _ l r => by simp only [unplaced, code, code_unplaced l, code_unplaced r]
  | group _ e => by simp only [unplaced, code, code_unplaced e]

theorem codeAll_unplacedAll : ∀ es : List Expr, codeAll (unplacedAll es) = codeAll es
  | [] => rfl
  | e :: es => by simp only [unplacedAll, codeAll, code_unplaced e, codeAll_unplacedAll es]

end

mutual

theorem usesStatics_unplaced : ∀ e : Expr, e.unplaced.usesStatics = e.usesStatics
  | literal _ _ | name _ _ | path _ _ => rfl
  | field _ v _ => usesStatics_unplaced v
  | method _ r _ as => congrArg₂ _ (usesStatics_unplaced r) (anyUsesStatics_unplacedAll as)
  | call _ f as => congrArg₂ _ (usesStatics_unplaced f) (anyUsesStatics_unplacedAll as)
  | index _ v i => congrArg₂ _ (usesStatics_unplaced v) (usesStatics_unplaced i)
  | tuple _ is => anyUsesStatics_unplacedAll is
  | list _ is => anyUsesStatics_unplacedAll is
  | range _ s e _ => congrArg₂ _ (usesStatics_unplaced s) (usesStatics_unplaced e)
  | unary _ _ e => usesStatics_unplaced e
  | binary _ _ l r => congrArg₂ _ (usesStatics_unplaced l) (usesStatics_unplaced r)
  | group _ e => usesStatics_unplaced e

theorem anyUsesStatics_unplacedAll : ∀ es : List Expr,
    anyUsesStatics (unplacedAll es) = anyUsesStatics es
  | [] => rfl
  | e :: es => congrArg₂ _ (usesStatics_unplaced e) (anyUsesStatics_unplacedAll es)

end

theorem anyUsesStatics_map_unplaced (es : List Expr) :
    anyUsesStatics (es.map unplaced) = anyUsesStatics es := by
  induction es with
  | nil => rfl
  | cons e es ih => rw [List.map_cons, anyUsesStatics, usesStatics_unplaced, ih, anyUsesStatics]

section Resolve

variable {r : Resolution}

mutual

/-- **Names are resolved alike**, wherever an expression stands. -/
theorem maps_resolve (hr : ∀ parts p, Maps id (r.ofPath parts p) (r.ofPath parts 0)) :
    ∀ e : Expr, Maps unplaced (e.resolve r) (e.unplaced.resolve r)
  | literal p v => by
    simp only [unplaced, resolve]
    split
    · exact .ok (literal p v)
    · exact .error _ _
  | name p n => .ok (name p (r.rename n))
  | path p parts => (hr parts p).bind fun
    | some code => .ok (name p code)
    | none => .ok (path p (r.renameHead parts))
  | field p v n => (maps_resolve hr v).bind fun v => .ok (field p v n)
  | method p v n as => (maps_resolve hr v).bind fun v =>
    (maps_resolveAll hr as).bind fun as => .ok (method p v n as)
  | call p f as => (maps_resolve hr f).bind fun f =>
    (maps_resolveAll hr as).bind fun as => .ok (call p f as)
  | index p v i => (maps_resolve hr v).bind fun v =>
    (maps_resolve hr i).bind fun i => .ok (index p v i)
  | tuple p is => (maps_resolveAll hr is).bind fun is => .ok (tuple p is)
  | list p is => (maps_resolveAll hr is).bind fun is => .ok (list p is)
  | range p s e i => (maps_resolve hr e).bind fun e =>
    (maps_resolve hr s).bind fun s => .ok (range p s e i)
  | unary p o e => (maps_resolve hr e).bind fun e => .ok (unary p o e)
  | binary p o a b => (maps_resolve hr a).bind fun a =>
    (maps_resolve hr b).bind fun b => .ok (binary p o a b)
  | group p e => (maps_resolve hr e).bind fun e => .ok (group p e)

theorem maps_resolveAll (hr : ∀ parts p, Maps id (r.ofPath parts p) (r.ofPath parts 0)) :
    ∀ es : List Expr, Maps unplacedAll (resolveAll r es) (resolveAll r (unplacedAll es))
  | [] => .ok []
  | e :: es => (maps_resolve hr e).bind fun e =>
    (maps_resolveAll hr es).bind fun es => .ok (e :: es)

end

end Resolve

end Expr

/-! ## Patterns -/

namespace Pattern

theorem isCatchAll_unplaced (p : Pattern) : p.unplaced.isCatchAll = p.isCatchAll := by
  cases p <;> rfl

mutual

theorem isIrrefutable_unplaced : ∀ p : Pattern, p.unplaced.isIrrefutable = p.isIrrefutable
  | wildcard _ | binding _ _ | literal _ _ | value _ _ | variant _ _ _ | struct _ _ _ _
  | or _ _ => rfl
  | tuple _ _ (some _) => rfl
  | tuple _ items none => allIrrefutable_unplacedAll items

theorem allIrrefutable_unplacedAll : ∀ ps : List Pattern,
    allIrrefutable (unplacedAll ps) = allIrrefutable ps
  | [] => rfl
  | p :: ps => congrArg₂ _ (isIrrefutable_unplaced p) (allIrrefutable_unplacedAll ps)

end

mutual

theorem names_unplaced : ∀ p : Pattern, p.unplaced.names = p.names
  | wildcard _ | binding _ _ | literal _ _ | value _ _ | or _ [] => rfl
  | tuple _ items _ => namesAll_unplacedAll items
  | variant _ _ items => namesAll_unplacedAll items
  | struct _ _ fields _ => namesFields_unplacedFields fields
  | or _ (p :: _) => names_unplaced p

theorem namesAll_unplacedAll : ∀ ps : List Pattern, namesAll (unplacedAll ps) = namesAll ps
  | [] => rfl
  | p :: ps => congrArg₂ _ (names_unplaced p) (namesAll_unplacedAll ps)

theorem namesFields_unplacedFields : ∀ fs : List (String × Pattern),
    namesFields (unplacedFields fs) = namesFields fs
  | [] => rfl
  | (_, p) :: fs => congrArg₂ _ (names_unplaced p) (namesFields_unplacedFields fs)

end

theorem unplacedAll_eq_map (ps : List Pattern) : unplacedAll ps = ps.map unplaced := by
  induction ps with
  | nil => rfl
  | cons p ps ih => rw [unplacedAll, ih, List.map_cons]

mutual

theorem simplify_unplaced : ∀ p : Pattern, p.unplaced.simplify = p.simplify.unplaced
  | wildcard _ | binding _ _ | literal _ _ | value _ _ => rfl
  | tuple _ items _ => by simp only [unplaced, simplify, simplifyAll_unplacedAll items]
  | variant _ _ items => by simp only [unplaced, simplify, simplifyAll_unplacedAll items]
  | struct _ _ fields _ => by simp only [unplaced, simplify, simplifyFields_unplacedFields fields]
  | or _ alternatives => by
    simp only [unplaced, simplify, simplifyAll_unplacedAll alternatives]
    rw [unplacedAll_eq_map, List.find?_map]
    have hcatch : isCatchAll ∘ unplaced = isCatchAll := funext isCatchAll_unplaced
    rw [hcatch]
    cases (simplifyAll alternatives).find? isCatchAll with
    | none => simp only [Option.map_none, Option.getD_none, unplaced, unplacedAll_eq_map]
    | some p => rfl

theorem simplifyAll_unplacedAll : ∀ ps : List Pattern,
    simplifyAll (unplacedAll ps) = unplacedAll (simplifyAll ps)
  | [] => rfl
  | p :: ps => congrArg₂ _ (simplify_unplaced p) (simplifyAll_unplacedAll ps)

theorem simplifyFields_unplacedFields : ∀ fs : List (String × Pattern),
    simplifyFields (unplacedFields fs) = unplacedFields (simplifyFields fs)
  | [] => rfl
  | (n, p) :: fs =>
    congrArg₂ (fun q qs => (n, q) :: qs) (simplify_unplaced p) (simplifyFields_unplacedFields fs)

end

mutual

theorem code_unplaced : ∀ p : Pattern, p.unplaced.code = p.code
  | wildcard _ | binding _ _ | literal _ _ | value _ _ => rfl
  | tuple _ items _ => by simp only [unplaced, code, codeAll_unplacedAll items]
  | variant _ _ items => by simp only [unplaced, code, codeAll_unplacedAll items]
  | struct _ _ fields _ => by simp only [unplaced, code, codeFields_unplacedFields fields]
  | or _ alternatives => by simp only [unplaced, code, codeAll_unplacedAll alternatives]

theorem codeAll_unplacedAll : ∀ ps : List Pattern, codeAll (unplacedAll ps) = codeAll ps
  | [] => rfl
  | p :: ps => congrArg₂ _ (code_unplaced p) (codeAll_unplacedAll ps)

theorem codeFields_unplacedFields : ∀ fs : List (String × Pattern),
    codeFields (unplacedFields fs) = codeFields fs
  | [] => rfl
  | (n, p) :: fs =>
    congrArg₂ (fun c cs => (n ++ "=" ++ c) :: cs) (code_unplaced p) (codeFields_unplacedFields fs)

end

mutual

theorem target_unplaced : ∀ p : Pattern, p.unplaced.target = p.target
  | wildcard _ | binding _ _ | literal _ _ | value _ _ | variant _ _ _ | struct _ _ _ _
  | or _ _ => rfl
  | tuple _ items _ => congrArg parenthesize (targetAll_unplacedAll items)

theorem targetAll_unplacedAll : ∀ ps : List Pattern, targetAll (unplacedAll ps) = targetAll ps
  | [] => rfl
  | p :: ps => congrArg₂ _ (target_unplaced p) (targetAll_unplacedAll ps)

end

mutual

/-- **The names that a pattern binds are resolved alike**, wherever it stands. -/
theorem maps_resolve (rename : String → String) : ∀ p : Pattern,
    Maps unplaced (p.resolve rename) (p.unplaced.resolve rename)
  | wildcard p => .ok (wildcard p)
  | binding p n => .ok (binding p (rename n))
  | literal p v => by
    simp only [unplaced, resolve]
    split
    · exact .ok (literal p v)
    · exact .error _ _
  | value p path => .ok (value p path)
  | tuple p items rest => (maps_resolveAll rename items).bind fun items => .ok (tuple p items rest)
  | variant p path items =>
    (maps_resolveAll rename items).bind fun items => .ok (variant p path items)
  | struct p path fields o =>
    (maps_resolveFields rename fields).bind fun fields => .ok (struct p path fields o)
  | or p alternatives =>
    (maps_resolveAll rename alternatives).bind fun alternatives => .ok (or p alternatives)

theorem maps_resolveAll (rename : String → String) : ∀ ps : List Pattern,
    Maps unplacedAll (resolveAll rename ps) (resolveAll rename (unplacedAll ps))
  | [] => .ok []
  | p :: ps => (maps_resolve rename p).bind fun p =>
    (maps_resolveAll rename ps).bind fun ps => .ok (p :: ps)

theorem maps_resolveFields (rename : String → String) : ∀ fs : List (String × Pattern),
    Maps unplacedFields (resolveFields rename fs) (resolveFields rename (unplacedFields fs))
  | [] => .ok []
  | (n, p) :: fs => (maps_resolve rename p).bind fun p =>
    (maps_resolveFields rename fs).bind fun fs => .ok ((n, p) :: fs)

end

theorem map_fst_unplacedFields : ∀ fs : List (String × Pattern),
    (unplacedFields fs).map Prod.fst = fs.map Prod.fst
  | [] => rfl
  | (n, _) :: fs => congrArg (n :: ·) (map_fst_unplacedFields fs)

mutual

theorem captures_unplaced : ∀ (p : Pattern) (stores : List String),
    p.unplaced.captures stores = p.captures stores
  | wildcard _, _ | binding _ _, _ | literal _ _, _ | value _ _, _ => rfl
  | tuple _ items _, stores => capturesAll_unplacedAll items stores
  | variant _ _ items, stores => capturesAll_unplacedAll items stores
  | struct _ _ fields _, stores => by
    simp only [unplaced, captures, map_fst_unplacedFields, capturesFields_unplacedFields fields]
  | or _ alternatives, stores => by
    simp only [unplaced, captures, capturesOr_unplacedAll alternatives]

theorem capturesAll_unplacedAll : ∀ (ps : List Pattern) (stores : List String),
    capturesAll stores (unplacedAll ps) = capturesAll stores ps
  | [], _ => rfl
  | p :: ps, stores => by
    simp only [unplacedAll, capturesAll, captures_unplaced p, capturesAll_unplacedAll ps]

theorem capturesFields_unplacedFields : ∀ (fs : List (String × Pattern)) (stores : List String),
    capturesFields stores (unplacedFields fs) = capturesFields stores fs
  | [], _ => rfl
  | (_, p) :: fs, stores => by
    simp only [unplacedFields, capturesFields, captures_unplaced p,
      capturesFields_unplacedFields fs]

theorem capturesOr_unplacedAll : ∀ (ps : List Pattern) (control : Option (List String)),
    capturesOr control (unplacedAll ps) = capturesOr control ps
  | [], _ => rfl
  | or _ (q :: qs) :: ps, control => by
    have h := capturesOr_unplacedAll (q :: qs)
    simp only [unplacedAll] at h
    simp only [unplacedAll, unplaced, capturesOr, h, capturesOr_unplacedAll ps]
  | or _ [] :: ps, _ => by
    simp only [unplacedAll, unplaced, capturesOr, captures, capturesOr_unplacedAll ps]
  | wildcard _ :: ps, _ | binding _ _ :: ps, _ | literal _ _ :: ps, _ | value _ _ :: ps, _ => by
    simp only [unplacedAll, unplaced, capturesOr, captures, capturesOr_unplacedAll ps]
  | tuple _ items _ :: ps, _ | variant _ _ items :: ps, _ => by
    simp only [unplacedAll, unplaced, capturesOr, captures, capturesAll_unplacedAll items,
      capturesOr_unplacedAll ps]
  | struct _ _ fields _ :: ps, _ => by
    simp only [unplacedAll, unplaced, capturesOr, captures, map_fst_unplacedFields,
      capturesFields_unplacedFields fields, capturesOr_unplacedAll ps]

end

end Pattern

/-! ## Statements -/

/-- An operand with its positions set to zero. -/
def Operand.unplaced : Operand → Operand
  | value e => .value e.unplaced
  | made n => .made n

theorem Operand.code_unplaced (o : Operand) : o.unplaced.code = o.code := by
  cases o with
  | value e => exact e.code_unplaced
  | made n => rfl

theorem Operand.expr?_unplaced (o : Operand) : o.unplaced.expr? = o.expr?.map Expr.unplaced := by
  cases o <;> rfl

namespace Stmt

mutual

/-- **A statement with its positions set to zero.** -/
def unplaced : Stmt → Stmt
  | write _ t => .write 0 t
  | interpolate _ raw e => .interpolate 0 raw e.unplaced
  | evaluate _ e => .evaluate 0 e.unplaced
  | call _ target args => .call 0 target (args.map Operand.unplaced)
  | define _ name body => .define 0 name (unplacedAll body)
  | branch _ arms otherwise => .branch 0 (unplacedArms arms) (unplacedOtherwise otherwise)
  | loop _ target e body => .loop 0 target.unplaced e.unplaced (unplacedAll body)
  | select _ subject cases => .select 0 subject.unplaced (unplacedCases cases)

/-- The statements with their positions set to zero. -/
def unplacedAll : List Stmt → List Stmt
  | [] => []
  | s :: ss => s.unplaced :: unplacedAll ss

/-- The arms of a branch with their positions set to zero. -/
def unplacedArms : List (Expr × List Stmt) → List (Expr × List Stmt)
  | [] => []
  | (e, body) :: arms => (e.unplaced, unplacedAll body) :: unplacedArms arms

/-- What is done if no arm is taken, with its positions set to zero. -/
def unplacedOtherwise : Option (List Stmt) → Option (List Stmt)
  | none => none
  | some body => some (unplacedAll body)

/-- Cases with their positions set to zero. -/
def unplacedCases : List (Pattern × Option Expr × List Stmt) →
    List (Pattern × Option Expr × List Stmt)
  | [] => []
  | (pattern, guard, body) :: cases =>
    (pattern.unplaced, guard.map Expr.unplaced, unplacedAll body) :: unplacedCases cases

end

theorem unplacedAll_append (ss ss' : List Stmt) :
    unplacedAll (ss ++ ss') = unplacedAll ss ++ unplacedAll ss' := by
  induction ss with
  | nil => rfl
  | cons s ss ih => rw [List.cons_append, unplacedAll, ih, unplacedAll, List.cons_append]

theorem map_text_orPass {ls ls' : List Line} (h : ls.map Line.text = ls'.map Line.text)
    (i p q : Nat) :
    (orPass i p ls).map Line.text = (orPass i q ls').map Line.text := by
  cases ls with
  | nil =>
    cases ls' with
    | nil => rfl
    | cons l' ls' => cases h
  | cons l ls =>
    cases ls' with
    | nil => cases h
    | cons l' ls' => exact h

mutual

/-- **The lines of a statement read the same without positions.** -/
theorem map_text_lines : ∀ (s : Stmt) (i : Nat),
    (s.unplaced.lines i).map Line.text = (s.lines i).map Line.text
  | write _ _, _ => rfl
  | interpolate _ _ e, _ => by
    simp only [unplaced, lines, List.map, Line.text, Head.code, e.code_unplaced]
  | evaluate _ e, _ => by
    simp only [unplaced, lines, List.map, Line.text, Head.code, e.code_unplaced]
  | call _ _ args, _ => by
    have hargs : Operand.code ∘ Operand.unplaced = Operand.code := funext Operand.code_unplaced
    simp only [unplaced, lines, List.map, Line.text, Head.code, List.map_map, hargs]
  | define p _ body, i => by
    simp only [unplaced, lines, List.map_cons]
    exact congrArg (_ :: ·) (map_text_orPass (map_text_linesAll body (i + 1)) _ _ _)
  | branch p arms otherwise, i => by
    simp only [unplaced, lines, List.map_append, map_text_armLines arms i true 0 p,
      map_text_otherwiseLines otherwise i 0 p]
  | loop p target e body, i => by
    have hbody := map_text_orPass (map_text_linesAll body (i + 1)) (i + 1) 0 p
    simp only [unplaced, lines, List.map_cons, hbody, Line.text, Head.code, e.code_unplaced,
      target.target_unplaced]
  | select p subject cases, i => by
    simp only [unplaced, lines, List.map_cons, map_text_caseLines cases (i + 1) 0 p, Line.text,
      Head.code, subject.code_unplaced]

theorem map_text_linesAll : ∀ (ss : List Stmt) (i : Nat),
    (linesAll i (unplacedAll ss)).map Line.text = (linesAll i ss).map Line.text
  | [], _ => rfl
  | s :: ss, i => by
    simp only [unplacedAll, linesAll, List.map_append, map_text_lines s i, map_text_linesAll ss i]

theorem map_text_armLines : ∀ (arms : List (Expr × List Stmt)) (i : Nat) (first : Bool) (p q : Nat),
    (armLines i p first (unplacedArms arms)).map Line.text =
      (armLines i q first arms).map Line.text
  | [], _, _, _, _ => rfl
  | (e, body) :: arms, i, first, p, q => by
    have hbody := map_text_orPass (map_text_linesAll body (i + 1)) (i + 1) p q
    simp only [unplacedArms, armLines, List.map_append, List.map_cons, hbody,
      map_text_armLines arms i false p q, Line.text, Head.code, e.code_unplaced]

theorem map_text_otherwiseLines : ∀ (o : Option (List Stmt)) (i p q : Nat),
    (otherwiseLines i p (unplacedOtherwise o)).map Line.text =
      (otherwiseLines i q o).map Line.text
  | none, _, _, _ => rfl
  | some body, i, p, q => by
    simp only [unplacedOtherwise, otherwiseLines, List.map_cons]
    exact congrArg (_ :: ·) (map_text_orPass (map_text_linesAll body (i + 1)) _ _ _)

theorem map_text_caseLines : ∀ (cases : List (Pattern × Option Expr × List Stmt)) (i p q : Nat),
    (caseLines i p (unplacedCases cases)).map Line.text = (caseLines i q cases).map Line.text
  | [], _, _, _ => rfl
  | (pattern, guard, body) :: cases, i, p, q => by
    have hbody := map_text_orPass (map_text_linesAll body (i + 1)) (i + 1) p q
    have hhead : (Head.case pattern.unplaced (guard.map Expr.unplaced)).code =
        (Head.case pattern guard).code := by
      cases guard <;> simp only [Head.code, Option.map, pattern.code_unplaced, Expr.code_unplaced]
    simp only [unplacedCases, caseLines, List.map_append, List.map_cons, hbody,
      map_text_caseLines cases i p q, Line.text, hhead]

end

theorem length_linesAll_unplacedAll (ss : List Stmt) (i : Nat) :
    (linesAll i (unplacedAll ss)).length = (linesAll i ss).length := by
  simpa using congrArg List.length (map_text_linesAll ss i)

theorem bodyLength_unplacedAll (body : List Stmt) :
    bodyLength (unplacedAll body) = bodyLength body := by
  simpa [bodyLength] using congrArg List.length (map_text_orPass (map_text_linesAll body 0) 0 0 0)

/-! ### What statements refer to -/

mutual

theorem refs_unplaced : ∀ s : Stmt, s.unplaced.refs = s.refs
  | write _ _ | interpolate _ _ _ | evaluate _ _ => rfl
  | call _ target _ => by cases target <;> rfl
  | define _ _ body => refsAll_unplacedAll body
  | branch _ arms otherwise =>
    congrArg₂ _ (armRefs_unplacedArms arms) (otherwiseRefs_unplacedOtherwise otherwise)
  | loop _ _ _ body => refsAll_unplacedAll body
  | select _ _ cases => caseRefs_unplacedCases cases

theorem refsAll_unplacedAll : ∀ ss : List Stmt, refsAll (unplacedAll ss) = refsAll ss
  | [] => rfl
  | s :: ss => congrArg₂ _ (refs_unplaced s) (refsAll_unplacedAll ss)

theorem armRefs_unplacedArms : ∀ arms : List (Expr × List Stmt),
    armRefs (unplacedArms arms) = armRefs arms
  | [] => rfl
  | (_, body) :: arms => congrArg₂ _ (refsAll_unplacedAll body) (armRefs_unplacedArms arms)

theorem otherwiseRefs_unplacedOtherwise : ∀ o : Option (List Stmt),
    otherwiseRefs (unplacedOtherwise o) = otherwiseRefs o
  | none => rfl
  | some body => refsAll_unplacedAll body

theorem caseRefs_unplacedCases : ∀ cases : List (Pattern × Option Expr × List Stmt),
    caseRefs (unplacedCases cases) = caseRefs cases
  | [] => rfl
  | (_, _, body) :: cases => congrArg₂ _ (refsAll_unplacedAll body) (caseRefs_unplacedCases cases)

end

theorem filterMap_expr?_unplaced (args : List Operand) :
    (args.map Operand.unplaced).filterMap Operand.expr? =
      (args.filterMap Operand.expr?).map Expr.unplaced := by
  rw [List.filterMap_map, List.map_filterMap]
  exact congrArg (List.filterMap · args) (funext Operand.expr?_unplaced)

mutual

theorem exprs_unplaced : ∀ s : Stmt, s.unplaced.exprs = s.exprs.map Expr.unplaced
  | write _ _ | interpolate _ _ _ | evaluate _ _ => rfl
  | call _ _ args => filterMap_expr?_unplaced args
  | define _ _ body => exprsAll_unplacedAll body
  | branch _ arms otherwise => by
    simp only [unplaced, exprs, armExprs_unplacedArms arms,
      otherwiseExprs_unplacedOtherwise otherwise, List.map_append]
  | loop _ _ e body => congrArg (e.unplaced :: ·) (exprsAll_unplacedAll body)
  | select _ subject cases => by
    simp only [unplaced, exprs, caseExprs_unplacedCases cases, Operand.expr?_unplaced,
      List.map_append, Option.toList_map]

theorem exprsAll_unplacedAll : ∀ ss : List Stmt,
    exprsAll (unplacedAll ss) = (exprsAll ss).map Expr.unplaced
  | [] => rfl
  | s :: ss => by
    simp only [unplacedAll, exprsAll, exprs_unplaced s, exprsAll_unplacedAll ss, List.map_append]

theorem armExprs_unplacedArms : ∀ arms : List (Expr × List Stmt),
    armExprs (unplacedArms arms) = (armExprs arms).map Expr.unplaced
  | [] => rfl
  | (e, body) :: arms => by
    simp only [unplacedArms, armExprs, exprsAll_unplacedAll body, armExprs_unplacedArms arms,
      List.map_cons, List.map_append]

theorem otherwiseExprs_unplacedOtherwise : ∀ o : Option (List Stmt),
    otherwiseExprs (unplacedOtherwise o) = (otherwiseExprs o).map Expr.unplaced
  | none => rfl
  | some body => exprsAll_unplacedAll body

theorem caseExprs_unplacedCases : ∀ cases : List (Pattern × Option Expr × List Stmt),
    caseExprs (unplacedCases cases) = (caseExprs cases).map Expr.unplaced
  | [] => rfl
  | (_, guard, body) :: cases => by
    simp only [unplacedCases, caseExprs, exprsAll_unplacedAll body, caseExprs_unplacedCases cases,
      List.map_append, Option.toList_map]

end

mutual

theorem check_unplaced : ∀ (s : Stmt) (loops : Nat), s.unplaced.check loops = s.check loops
  | write _ _, _ | interpolate _ _ _, _ | evaluate _ _, _ | call _ _ _, _ => rfl
  | define _ _ body, _ => congrArg (after 1) (checkAll_unplacedAll body 0)
  | branch p arms otherwise, loops => by
    have hlength : (armLines 0 0 true (unplacedArms arms)).length =
        (armLines 0 p true arms).length := by
      simpa using congrArg List.length (map_text_armLines arms 0 true 0 p)
    simp only [unplaced, check, checkArms_unplacedArms arms, hlength,
      checkOtherwise_unplacedOtherwise otherwise]
  | loop _ _ _ body, loops => by simp only [unplaced, check, checkAll_unplacedAll body]
  | select _ _ cases, loops => congrArg (after 1) (checkCases_unplacedCases cases loops)

theorem checkAll_unplacedAll : ∀ (ss : List Stmt) (loops : Nat),
    checkAll loops (unplacedAll ss) = checkAll loops ss
  | [], _ => rfl
  | s :: ss, loops => by
    have hlength : (s.unplaced.lines 0).length = (s.lines 0).length := by
      simpa using congrArg List.length (map_text_lines s 0)
    simp only [unplacedAll, checkAll, check_unplaced s, checkAll_unplacedAll ss, hlength]

theorem checkArms_unplacedArms : ∀ (arms : List (Expr × List Stmt)) (loops : Nat),
    checkArms loops (unplacedArms arms) = checkArms loops arms
  | [], _ => rfl
  | (_, body) :: arms, loops => by
    simp only [unplacedArms, checkArms, checkAll_unplacedAll body, checkArms_unplacedArms arms,
      bodyLength_unplacedAll]

theorem checkOtherwise_unplacedOtherwise : ∀ (o : Option (List Stmt)) (loops : Nat),
    checkOtherwise loops (unplacedOtherwise o) = checkOtherwise loops o
  | none, _ => rfl
  | some body, loops => checkAll_unplacedAll body loops

theorem checkCases_unplacedCases : ∀ (cases : List (Pattern × Option Expr × List Stmt))
    (loops : Nat), checkCases loops (unplacedCases cases) = checkCases loops cases
  | [], _ => rfl
  | (pattern, _, body) :: cases, loops => by
    simp only [unplacedCases, checkCases, checkPattern, pattern.captures_unplaced,
      checkAll_unplacedAll body, checkCases_unplacedCases cases, bodyLength_unplacedAll]

end

end Stmt

/-! ## Generation -/

namespace Gen

variable {α β γ δ : Type} {f : α → β} {g : γ → δ}

/-- **One generation gives the image of what another gives**, with the same fresh names, or both
fail. -/
def Maps (f : α → β) (m : Gen α) (m' : Gen β) : Prop :=
  ∀ k, Stencil.Maps (Prod.map f id) (m k) (m' k)

theorem maps_pure {a : α} {b : β} (h : f a = b) : Maps f (pure a) (pure b) :=
  fun k => h ▸ .ok (a, k)

theorem maps_refl (m : Gen α) : Maps id m m := fun k => Stencil.Maps.refl (m k)

theorem maps_lift {x : Except Failure α} {y : Except Failure β} (h : Stencil.Maps f x y) :
    Maps f (lift x) (lift y) := fun k => by
  cases h with
  | ok a => exact .ok (a, k)
  | error e e' => exact .error e e'

theorem Maps.bind {m : Gen α} {m' : Gen β} {q : α → Gen γ} {q' : β → Gen δ} (h : Maps f m m')
    (hq : ∀ a, Maps g (q a) (q' (f a))) : Maps g (m >>= q) (m' >>= q') :=
  fun k => (h k).bind fun x => hq x.1 x.2

theorem maps_deeper (i p q : Nat) : Maps id (lift (deeper i p)) (lift (deeper i q)) := by
  refine maps_lift ?_
  unfold deeper
  split
  · exact .ok _
  · exact .error _ _

section Nodes

variable (env : Env)

theorem maps_ofPath (s : Scope) (parts : List String) (p : Nat) :
    Stencil.Maps id ((env.resolution s).ofPath parts p) ((env.resolution s).ofPath parts 0) := by
  simp only [Env.resolution, Env.staticPath]
  split
  · exact .refl _
  · split
    · split
      · split
        · exact .refl _
        · exact .error _ _
      · exact .error _ _
    · exact .refl _

theorem maps_resolve (s : Scope) (e : Expr) :
    Maps Expr.unplaced (lift (e.resolve (env.resolution s)))
      (lift (e.unplaced.resolve (env.resolution s))) :=
  maps_lift (e.maps_resolve (maps_ofPath env s))

theorem maps_guard (s : Scope) (guard : Option Expr) :
    Maps (Option.map Expr.unplaced) (lift (guard.mapM (·.resolve (env.resolution s))))
      (lift ((guard.map Expr.unplaced).mapM (·.resolve (env.resolution s)))) := by
  refine maps_lift ?_
  cases guard with
  | none => exact .ok none
  | some e => exact (e.maps_resolve (maps_ofPath env s)).bind fun e => .ok (some e)

/-- The level of a chain that comes first, or after an arm. -/
theorem maps_level (first : Bool) (i p : Nat) :
    Maps id (lift (if first then .ok i else deeper i p))
      (lift (if first then .ok i else deeper i 0)) := by
  split
  · exact maps_refl _
  · exact maps_deeper i p 0

theorem unplacedAll_flush (p : Nat) (text : String) :
    Stmt.unplacedAll (flush p text) = flush 0 text := by
  unfold flush
  split <;> rfl

theorem unplacedAll_branchOf (p : Nat) (arms : List (Expr × List Stmt))
    (otherwise : Option (List Stmt)) :
    Stmt.unplacedAll (branchOf p (arms, otherwise)) =
      branchOf 0 (Stmt.unplacedArms arms, Stmt.unplacedOtherwise otherwise) := by
  cases arms with
  | nil => cases otherwise <;> rfl
  | cons arm arms => rfl

theorem plain?_unplaced (n : Node) : n.unplaced.plain? = n.plain? := by
  cases n <;> rfl

/-- A pattern binds its names in the same way wherever it stands. -/
theorem bind_unplaced (s : Scope) (p : Pattern) : bind s p.unplaced = bind s p := by
  simp only [bind, p.names_unplaced]

mutual

/-- **The statements of a body without positions** are those of the body, without theirs. -/
theorem maps_body : ∀ (ns : List Node) (s : Scope) (i p : Nat) (pending : String),
    Maps Stmt.unplacedAll (body env s i p pending ns)
      (body env s i 0 pending (Node.unplacedAll ns))
  | [], s, i, p, pending => maps_pure (unplacedAll_flush p pending)
  | n :: ns, s, i, p, pending => by
    simp only [Node.unplacedAll, body, plain?_unplaced]
    split
    · exact maps_body ns s i p _
    · refine (maps_node n s i).bind fun stmts => (maps_body ns s i p "").bind fun rest => ?_
      exact maps_pure (by simp only [Stmt.unplacedAll_append, unplacedAll_flush])

theorem maps_node : ∀ (n : Node) (s : Scope) (i : Nat),
    Maps Stmt.unplacedAll (node env s i n) (node env s i n.unplaced)
  | .text _ _, _, _ => maps_pure rfl
  | .comment _ _, _, _ => maps_pure rfl
  | .value p e raw, s, i => by
    simp only [Node.unplaced, node]
    exact (maps_resolve env s e).bind fun e => maps_pure rfl
  | .branch p arms otherwise, s, i => by
    have hsome : (Node.unplacedOtherwise otherwise).isSome = otherwise.isSome := by
      cases otherwise <;> rfl
    simp only [Node.unplaced, node, hsome]
    refine (maps_chain arms s i true p _ (fun i => maps_alternative otherwise s i p)).bind
      fun (arms, otherwise) => maps_pure (unplacedAll_branchOf p arms otherwise)
  | .loop p pattern iterable nodes, s, i => by
    simp only [Node.unplaced, node, pattern.simplify_unplaced, bind_unplaced,
      Pattern.isIrrefutable_unplaced]
    refine (maps_resolve env s iterable).bind fun iterable =>
      (maps_refl _).bind fun (inner, renamed) => ?_
    dsimp only [id]
    split
    · exact (maps_deeper i p 0).bind fun i => (maps_lift (Pattern.maps_resolve _ _)).bind
        fun target => (maps_body nodes inner i p "").bind fun nodes => maps_pure rfl
    · exact (maps_refl _).bind fun item => (maps_deeper i p 0).bind fun i =>
        (maps_deeper i p 0).bind fun i => (maps_lift (Pattern.maps_resolve _ _)).bind fun case =>
        (maps_deeper i p 0).bind fun i =>
        (maps_body nodes inner i p "").bind fun nodes => maps_pure rfl
  | .cases p subject arms, s, i => by
    have hempty : (Node.unplacedCases arms).isEmpty = arms.isEmpty := by
      cases arms <;> rfl
    simp only [Node.unplaced, node, hempty]
    refine (maps_resolve env s subject).bind fun subject => ?_
    split
    · exact maps_pure rfl
    · exact (maps_deeper i p 0).bind fun i =>
        (maps_cases arms s i p).bind fun cases => maps_pure rfl
  | .call p path args blocks, s, i => by
    simp only [Node.unplaced, node]
    refine (maps_arguments args s i p).bind fun (defs, args) =>
      (maps_contents blocks s i p).bind fun (defs', contents) => maps_pure ?_
    simp only [Stmt.unplacedAll_append, Stmt.unplacedAll, Stmt.unplaced, Prod.map, List.map_append]

theorem maps_alternative : ∀ (o : Option (List Node)) (s : Scope) (i p : Nat),
    Maps Stmt.unplacedAll (alternative env s i p o)
      (alternative env s i 0 (Node.unplacedOtherwise o))
  | none, _, _, _ => maps_pure rfl
  | some nodes, s, i, p => maps_body nodes s i p ""

theorem maps_chain {otherwise otherwise' : Nat → Gen (List Stmt)} :
    ∀ (arms : List (Condition × List Node)) (s : Scope) (i : Nat) (first : Bool) (p : Nat)
      (last : Bool) (_ : ∀ i, Maps Stmt.unplacedAll (otherwise i) (otherwise' i)),
    Maps (Prod.map Stmt.unplacedArms Stmt.unplacedOtherwise)
      (chain env s i first p last otherwise arms)
      (chain env s i first 0 last otherwise' (Node.unplacedArms arms))
  | [], s, i, first, p, last, ho => by
    simp only [Node.unplacedArms, chain]
    split
    · exact (maps_level first i p).bind fun i => (ho i).bind fun stmts => maps_pure rfl
    · exact maps_pure rfl
  | (.holds e, nodes) :: arms, s, i, first, p, last, ho => by
    simp only [Node.unplacedArms, Condition.unplaced, chain]
    exact (maps_resolve env s e).bind fun e => (maps_deeper i p 0).bind fun i' =>
      (maps_body nodes s i' p "").bind fun nodes =>
      (maps_chain arms s i false p last ho).bind fun (arms, stmts) => maps_pure rfl
  | (.matches pattern e, nodes) :: arms, s, i, first, p, last, ho => by
    have hempty : (Node.unplacedArms arms).isEmpty = arms.isEmpty := by
      cases arms <;> rfl
    simp only [Node.unplacedArms, Condition.unplaced, chain, pattern.simplify_unplaced,
      bind_unplaced, Pattern.isCatchAll_unplaced, hempty]
    refine (maps_level first i p).bind fun i => (maps_refl _).bind fun (inner, renamed) =>
      (maps_resolve env s e).bind fun e => (maps_deeper i p 0).bind fun i' =>
      (maps_lift (Pattern.maps_resolve _ _)).bind fun case => (maps_deeper i' p 0).bind fun i' =>
      (maps_body nodes inner i' p "").bind fun nodes => ?_
    split
    · exact maps_pure rfl
    · refine (maps_chain arms s _ true p last ho).bind fun (arms, stmts) => maps_pure ?_
      simp only [Prod.map, Stmt.unplacedArms, Stmt.unplacedOtherwise, Stmt.unplacedAll,
        Stmt.unplaced, Stmt.unplacedCases, unplacedAll_branchOf]
      rfl

theorem maps_cases : ∀ (arms : List (Pattern × Option Expr × List Node)) (s : Scope) (i p : Nat),
    Maps Stmt.unplacedCases (cases env s i p arms) (cases env s i 0 (Node.unplacedCases arms))
  | [], _, _, _ => maps_pure rfl
  | (pattern, guard, nodes) :: arms, s, i, p => by
    simp only [Node.unplacedCases, cases, pattern.simplify_unplaced, bind_unplaced,
      Pattern.isCatchAll_unplaced, Option.isNone_map]
    refine (maps_refl _).bind fun (inner, renamed) =>
      (maps_lift (Pattern.maps_resolve _ _)).bind fun case =>
      (maps_guard env inner guard).bind fun guard' => (maps_deeper i p 0).bind fun i' =>
      (maps_body nodes inner i' p "").bind fun nodes => ?_
    split
    · exact maps_pure rfl
    · exact (maps_cases arms s i p).bind fun rest => maps_pure rfl

theorem maps_arguments : ∀ (args : List (Expr ⊕ List Node)) (s : Scope) (i p : Nat),
    Maps (Prod.map Stmt.unplacedAll (List.map Operand.unplaced)) (arguments env s i p args)
      (arguments env s i 0 (Node.unplacedArguments args))
  | [], _, _, _ => maps_pure rfl
  | .inl e :: args, s, i, p => by
    simp only [Node.unplacedArguments, arguments]
    exact (maps_resolve env s e).bind fun e =>
      (maps_arguments args s i p).bind fun (defs, args) => maps_pure rfl
  | .inr nodes :: args, s, i, p => by
    simp only [Node.unplacedArguments, arguments]
    exact (maps_refl _).bind fun name => (maps_deeper i p 0).bind fun i' =>
      (maps_body nodes s i' p "").bind fun nodes =>
      (maps_arguments args s i p).bind fun (defs, args) => maps_pure rfl

theorem maps_contents : ∀ (blocks : List (List Node)) (s : Scope) (i p : Nat),
    Maps (Prod.map Stmt.unplacedAll (List.map Operand.unplaced)) (contents env s i p blocks)
      (contents env s i 0 (Node.unplacedBlocks blocks))
  | [], _, _, _ => maps_pure rfl
  | nodes :: blocks, s, i, p => by
    simp only [Node.unplacedBlocks, contents]
    exact (maps_refl _).bind fun name => (maps_deeper i p 0).bind fun i' =>
      (maps_body nodes s i' p "").bind fun nodes =>
      (maps_contents blocks s i p).bind fun (defs, args) => maps_pure rfl

end

end Nodes

end Gen

theorem Source.toOption_lift {α : Type} (src : Source) (x : Except Failure α) :
    (src.lift x).toOption = x.toOption := by
  cases x <;> rfl

namespace Template

variable {t u : Template}

theorem maps_compile (stmts : List Stmt) :
    Maps id (t.compile stmts) (u.compile (Stmt.unplacedAll stmts)) := by
  unfold compile
  rw [Stmt.checkAll_unplacedAll]
  cases Stmt.checkAll 0 stmts with
  | ok u => exact .ok u
  | error r => exact .error _ _

section Module

variable (hname : u.toTemplateName = t.toTemplateName) (himports : u.imports = t.imports)
variable (hparams : u.params = t.params)
include hname himports hparams

/-- **The module text is the same without positions.** -/
theorem moduleText_unplacedAll (stmts : List Stmt) :
    u.moduleText (Stmt.unplacedAll stmts) = t.moduleText stmts := by
  have huses : Expr.anyUsesStatics (Stmt.exprsAll (Stmt.unplacedAll stmts)) =
      Expr.anyUsesStatics (Stmt.exprsAll stmts) := by
    rw [Stmt.exprsAll_unplacedAll, Expr.anyUsesStatics_map_unplaced]
  have hlines : Line.join (u.functionLines (Stmt.unplacedAll stmts)) =
      Line.join (t.functionLines stmts) := by
    have hbody := Stmt.map_text_orPass (Stmt.map_text_linesAll stmts 1) 1 0 0
    simp only [Line.join, functionLines, List.map_cons, hbody, hname, hparams]
  simp only [moduleText, headText, headLines, Stencil.moduleImports, importedRefs, secondName,
    hname, himports, hlines, huses, Stmt.refsAll_unplacedAll]

/-- **The module of a template whose body has no positions** is that of the template. -/
theorem toOption_render_of_unplaced (hbody : u.body = Node.unplacedAll t.body)
    (context : Context) : (u.render context).toOption = (t.render context).toOption := by
  have hstmts : Maps Stmt.unplacedAll (t.stmts context) (u.stmts context) := by
    unfold stmts
    rw [hbody, hname, hparams]
    exact (Gen.maps_body _ t.body _ 1 0 "" 0).bind fun (stmts, _) => .ok stmts
  have hmodule : Maps id (t.module? context) (u.module? context) :=
    hstmts.bind fun stmts => (maps_compile stmts).bind fun _ => by
      rw [moduleText_unplacedAll hname himports hparams]
      exact .ok _
  rw [render, render, Source.toOption_lift, Source.toOption_lift, hmodule.toOption, Option.map_id]
  rfl

end Module

/-- **Where the pieces of a template stand does not show in its module.** -/
theorem toOption_render_eq (hname : t.toTemplateName = u.toTemplateName)
    (himports : t.imports = u.imports) (hparams : t.params = u.params)
    (hbody : Node.unplacedAll t.body = Node.unplacedAll u.body) (context : Context) :
    (t.render context).toOption = (u.render context).toOption := by
  let v : Template := { t with body := Node.unplacedAll t.body }
  have ht : (v.render context).toOption = (t.render context).toOption :=
    toOption_render_of_unplaced (t := t) (u := v) rfl rfl rfl rfl context
  have hu : (v.render context).toOption = (u.render context).toOption :=
    toOption_render_of_unplaced (t := u) (u := v) hname himports hparams hbody context
  rw [← ht, hu]

end Template

end Stencil
