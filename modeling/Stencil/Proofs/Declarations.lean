import Stencil.Proofs.ExprLevels
import Stencil.Proofs.PatternGrammar
import Stencil.Proofs.TemplateRoundTrip
import Stencil.Proofs.TextAccount
import Stencil.Proofs.TypeText

/-!
# Declarations

A declaration is read by taking names and the texts of types in turn. Its grammar is stated apart
from the reader: any white space may stand around the names, a comma behind each parameter but the
last and behind that one too, and a type is any text that its grammar allows.

* `Param.Writes`, `Declares`: the texts of a parameter and of the parameters of a declaration.
* `Param.Allowed`, `Param.AllowedAll`: the parameters that a declaration may have.
* **`Template.Read.declares_of_params`**, **`Template.Read.params_of_declares`**: the reader takes
  these texts and no others, and collapses the white space of the types.
* `Template.Read.exists_declares`, `Template.Read.declaration_of_declares`: the same for the reader
  up to the body, `Template.Read.declaration`.
* **`Template.declaration_printed`**: the text that is printed for a declaration is read as the
  parameters that it is printed from. White space was collapsed when their types were read, in string
  literals and behind backslashes as well; they are still texts of types, and white space that is
  collapsed stays as it is.
-/

namespace Stencil

open Text Expr

/-! ## The grammar -/

/-- **The text of a parameter**: its name, a colon and its type, with the white space of the text. -/
inductive Param.Writes : Param → List Char → Prop
  | mk {gap name behind type} : IsGap gap → name? name = some (name, []) → IsGap behind →
    TypeText false type →
    Param.Writes ⟨String.ofList name, String.ofList type⟩ (gap ++ (name ++ (behind ++ ':' :: type)))

/-- **The text of a declaration behind its opening parenthesis**, for parameters with their types
as they are written. -/
inductive Declares : List Param → List Char → Prop
  | done {gap} : IsGap gap → Declares [] (gap ++ [')'])
  | comma {p ps cs more} : p.Writes cs → Declares ps more → Declares (p :: ps) (cs ++ ',' :: more)
  | last {p cs} : p.Writes cs → Declares [p] (cs ++ [')'])

/-- What is written for the parameters of a declaration. -/
theorem Declares.forall_mem {written : List Param} {cs : List Char} (h : Declares written cs) :
    ∀ p ∈ written,
    name? p.name.toList = some (p.name.toList, []) ∧ TypeText false p.type.toList := by
  have hwrites {p : Param} {cs : List Char} (h : p.Writes cs) :
      name? p.name.toList = some (p.name.toList, []) ∧ TypeText false p.type.toList := by
    obtain ⟨-, hname, -, htype⟩ := h
    simpa only [String.toList_ofList] using ⟨hname, htype⟩
  induction h with
  | done => simp
  | comma hp _ ih => exact List.forall_mem_cons.mpr ⟨hwrites hp, ih⟩
  | last hp => simpa using hwrites hp

/-- A parameter with the white space of its type collapsed. -/
def Param.collapsed (p : Param) : Param := { p with type := String.ofList (collapse p.type.toList) }

/-- **A parameter that a declaration may have**: its name is free to use in the code, and its type
is not empty. -/
structure Param.Allowed (p : Param) : Prop where
  not_reserved : isReserved p.name = false
  not_own : ownPrefix.toList.isPrefixOf p.name.toList = false
  typed : p.type ≠ ""

/-- **The parameters that a declaration may have**, with names that differ from each other and from
those before them. -/
structure Param.AllowedAll (seen : List String) (ps : List Param) : Prop where
  allowed : ∀ p ∈ ps, p.Allowed
  unseen : ∀ p ∈ ps, p.name ∉ seen
  nodup : (ps.map Param.name).Nodup

theorem Param.allowedAll_nil (seen : List String) : Param.AllowedAll seen [] :=
  ⟨by simp, by simp, List.nodup_nil⟩

theorem Param.allowedAll_cons {seen : List String} {p : Param} {ps : List Param} :
    Param.AllowedAll seen (p :: ps) ↔
      p.Allowed ∧ p.name ∉ seen ∧ Param.AllowedAll (p.name :: seen) ps := by
  constructor
  · rintro ⟨hallowed, hunseen, hnodup⟩
    obtain ⟨hp, hps⟩ := List.forall_mem_cons.mp hallowed
    obtain ⟨hseen, hrest⟩ := List.forall_mem_cons.mp hunseen
    obtain ⟨hnew, hnodup⟩ := List.nodup_cons.mp hnodup
    refine ⟨hp, hseen, hps, fun q hq hmem => ?_, hnodup⟩
    rcases List.mem_cons.mp hmem with he | hmem
    · exact hnew (he ▸ List.mem_map_of_mem hq)
    · exact hrest q hq hmem
  · rintro ⟨hp, hseen, hps, hunseen, hnodup⟩
    refine ⟨List.forall_mem_cons.mpr ⟨hp, hps⟩, List.forall_mem_cons.mpr ⟨hseen, fun q hq hmem =>
      hunseen q hq (List.mem_cons_of_mem _ hmem)⟩, List.nodup_cons.mpr ⟨fun hmem => ?_, hnodup⟩⟩
    obtain ⟨q, hq, he⟩ := List.mem_map.mp hmem
    exact hunseen q hq (he ▸ List.mem_cons_self)

theorem IsGap.wordless {gap : List Char} (hgap : IsGap gap) (h : Wordless rest) :
    Wordless (gap ++ rest) := by
  cases gap with
  | nil => exact h
  | cons x gap =>
    intro c hc
    cases hc
    exact isWord_of_isBlank (hgap x List.mem_cons_self)

namespace Cursor

/-- Where no white space stands, none is skipped. -/
theorem skipBlank_cons {c : Char} (hc : isBlank c = false) (pos : Nat) (cs : List Char) :
    (⟨pos, c :: cs⟩ : Cursor).skipBlank = ⟨pos, c :: cs⟩ := by
  simp [skipBlank, skipWhile, hc]

/-- White space is skipped. -/
theorem past_skipBlank (c : Cursor) : ∃ gap, c.Past gap c.skipBlank ∧ IsGap gap :=
  ⟨_, c.past_skipWhile isBlank, List.all_eq_true.mp List.all_takeWhile⟩

end Cursor

namespace Template.Read

open Cursor

variable {s pos : Nat} {seen : List String} {c d : Cursor} {cs rest : List Char}
variable {ps written : List Param} {p : Param}

/-! ## Parts of a parameter -/

/-- What may be the name of a parameter. -/
theorem checkParam_ok {name : String} : checkParam name seen pos = .ok () ↔
    isReserved name = false ∧ ownPrefix.toList.isPrefixOf name.toList = false ∧ name ∉ seen := by
  unfold checkParam
  cases isReserved name <;> cases ownPrefix.toList.isPrefixOf name.toList <;> simp

/-- **What is read as a type.** -/
theorem paramType_ok {type : String} : paramType c = .ok (type, d) ↔
    ∃ span, c.Past span d ∧ TypeText false span ∧
      (d.rest.head? = some ',' ∨ d.rest.head? = some ')') ∧
      collapse span ≠ [] ∧ type = String.ofList (collapse span) := by
  obtain ⟨position, cs⟩ := d
  rw [paramType, Except.bind_ok]
  constructor
  · rintro ⟨⟨span, rest⟩, hspan, h⟩
    obtain ⟨hcs, htext, hend⟩ := typeSpan_ok.mp hspan
    dsimp only at h
    split at h
    next => cases h
    next hne =>
      cases h
      exact ⟨span, ⟨hcs, rfl⟩, htext, hend, by simpa using hne, rfl⟩
  · rintro ⟨span, ⟨hcs, hposition⟩, htext, hend, hne, rfl⟩
    refine ⟨(span, cs), typeSpan_ok.mpr ⟨hcs, htext, hend⟩, ?_⟩
    dsimp only
    rw [if_neg (by simpa using hne), ← hposition]
    rfl

/-- The word at the front of a text is all that is taken of it. -/
theorem name?_append {w : List Char} (h : name? w = some (w, [])) {rest : List Char}
    (hrest : Wordless rest) : name? (w ++ rest) = some (w, rest) := by
  obtain ⟨c, cs, rfl, hc, hcs⟩ := exists_cons_of_name? h
  obtain ⟨ht, hd⟩ := takeWhile_run hcs hrest
  rw [List.cons_append, name?, if_pos hc, ht, hd]

/-- A cursor at the end of a parameter, behind the comma if there is one. -/
def afterComma (c : Cursor) : Cursor := if c.startsWith "," then c.skip 1 else c

/-- A comma or parenthesis is no white space. -/
theorem skipBlank_end (h : c.rest.head? = some ',' ∨ c.rest.head? = some ')') :
    c.skipBlank = c := by
  obtain ⟨pos, cs⟩ := c
  rcases cs with - | ⟨x, cs⟩
  · simp at h
  · have hx : isBlank x = false := by
      rcases h with h | h <;> cases h <;> rfl
    exact skipBlank_cons hx pos cs

theorem exists_cons_of_end (h : cs.head? = some ',' ∨ cs.head? = some ')') :
    (∃ r, cs = ',' :: r) ∨ ∃ r, cs = ')' :: r :=
  h.imp (fun h => (List.head?_eq_some_iff.mp h)) fun h => (List.head?_eq_some_iff.mp h)

/-! ## One step of the reader -/

/-- **A parameter is read**, and what follows it after it. -/
theorem params_writes (hp : p.Writes cs) (hallowed : p.collapsed.Allowed) (hseen : p.name ∉ seen)
    (hend : rest.head? = some ',' ∨ rest.head? = some ')') :
    params (s + 1) seen ⟨pos, cs ++ rest⟩ =
      params s (p.name :: seen) (afterComma ⟨pos + cs.length, rest⟩) >>=
        fun x => pure (p.collapsed :: x.1, x.2) := by
  obtain @⟨gap, name, behind, type, hgap, hname, hbehind, htype⟩ := hp
  obtain ⟨x, xs, rfl, hstart, -⟩ := exists_cons_of_name? hname
  have hfirst : (⟨pos, gap ++ (x :: xs ++ (behind ++ ':' :: type)) ++ rest⟩ : Cursor).skipBlank =
      ⟨pos + gap.length, x :: xs ++ (behind ++ ':' :: (type ++ rest))⟩ := by
    rw [List.append_assoc, skipBlank_gap hgap, List.append_assoc, List.append_assoc]
    exact skipBlank_cons (isBlank_of_isWord (isNameStart_iff.mp hstart).1) _ _
  have hclosing : (⟨pos + gap.length, x :: xs ++ (behind ++ ':' :: (type ++ rest))⟩ :
      Cursor).startsWith ")" = false := by
    refine Bool.eq_false_iff.mpr fun h => ?_
    obtain rfl : ')' = x := (List.cons.inj (past_of_startsWith h).1).1.symm
    exact absurd hstart (by decide)
  have hword : name? (x :: xs ++ (behind ++ ':' :: (type ++ rest))) =
      some (x :: xs, behind ++ ':' :: (type ++ rest)) :=
    name?_append hname (hbehind.wordless fun c hc => by cases hc; decide)
  have hcolon (pos : Nat) : (⟨pos, behind ++ ':' :: (type ++ rest)⟩ : Cursor).skipBlank =
      ⟨pos + behind.length, ':' :: (type ++ rest)⟩ := by
    rw [skipBlank_gap hbehind]
    exact skipBlank_cons (by decide) _ _
  have htype (pos : Nat) : paramType ⟨pos, type ++ rest⟩ =
      .ok (String.ofList (collapse type), ⟨pos + type.length, rest⟩) :=
    paramType_ok.mpr
      ⟨type, ⟨rfl, rfl⟩, htype, hend, by simpa [Param.collapsed] using hallowed.typed, rfl⟩
  have hcheck (pos : Nat) : checkParam (String.ofList (x :: xs)) seen pos = .ok () :=
    checkParam_ok.mpr ⟨hallowed.not_reserved, hallowed.not_own, hseen⟩
  rw [params, hfirst]
  dsimp only
  rw [hclosing, if_neg Bool.false_ne_true, hword]
  dsimp only
  rw [hcheck, Except.ok_bind, skip, List.drop_left, hcolon]
  show (paramType ⟨_, type ++ rest⟩ >>= _) = _
  rw [htype, Except.ok_bind]
  dsimp only
  rw [skipBlank_end hend, Param.collapsed, String.toList_ofList]
  have hlength : (gap ++ (x :: xs ++ (behind ++ ':' :: type))).length =
      gap.length + (x :: xs).length + behind.length + 1 + type.length := by
    simp only [List.length_append, List.length_cons]
    omega
  rw [hlength]
  simp only [← Nat.add_assoc]
  rfl

/-- **What is read first** in a declaration: its end, or a parameter. -/
theorem exists_writes_of_params (h : params (s + 1) seen c = .ok (ps, d)) :
    (∃ gap, IsGap gap ∧ ps = [] ∧ c.Past (gap ++ [')']) d) ∨
    ∃ (p : Param) (more : List Param) (cs : List Char) (a : Cursor), ps = p.collapsed :: more ∧
      p.Writes cs ∧ p.collapsed.Allowed ∧ p.name ∉ seen ∧
      c.Past cs a ∧ (a.rest.head? = some ',' ∨ a.rest.head? = some ')') ∧
      params s (p.name :: seen) (afterComma a) = .ok (more, d) := by
  obtain ⟨gap, hblank, hgap⟩ := c.past_skipBlank
  rw [params] at h
  dsimp only at h
  split at h
  next hclosing =>
    cases h
    exact .inl ⟨_, hgap, rfl, hblank.append (past_of_startsWith (s := ")") hclosing)⟩
  next =>
    split at h
    next => cases h
    next word r hname =>
      obtain ⟨⟨⟩, hcheck, h⟩ := Except.bind_ok.mp h
      obtain ⟨hreserved, hown, hseen⟩ := checkParam_ok.mp hcheck
      have hword := (past_skip (takes_name? hname).1).1
      obtain ⟨behind, hbehind, hisGap⟩ := (c.skipBlank.skip word.length).past_skipBlank
      split at h
      next hcolon =>
        obtain ⟨⟨type, a⟩, htype, h⟩ := Except.bind_ok.mp h
        obtain ⟨span, hspan, htext, hend, hne, rfl⟩ := paramType_ok.mp htype
        obtain ⟨⟨more, b⟩, hmore, h⟩ := Except.bind_ok.mp h
        cases h
        dsimp only at hmore
        rw [skipBlank_end hend] at hmore
        have hpast := hblank.append (hword.append (hbehind.append
          ((past_of_startsWith (s := ":") hcolon).append hspan)))
        have hwrites := Param.Writes.mk hgap (name?_again hname) hisGap htext
        refine .inr ⟨_, more, _, a, ?_, hwrites, ⟨hreserved, hown, ?_⟩, hseen, hpast, hend, hmore⟩
        · simp [Param.collapsed]
        · simpa [Param.collapsed] using hne
      next => cases h

/-! ## All parameters -/

/-- The closing parenthesis is read behind white space. -/
theorem params_done {gap : List Char} (hgap : IsGap gap) :
    params (s + 1) seen ⟨pos, gap ++ ')' :: rest⟩ = .ok ([], ⟨pos + gap.length + 1, rest⟩) := by
  rw [params, skipBlank_gap hgap, skipBlank_cons (by decide)]
  rfl

/-- **What is read as parameters** is the text of a declaration, and the white space of the types is
collapsed. -/
theorem declares_of_params (h : params s seen c = .ok (ps, d)) :
    ∃ written cs, c.Past cs d ∧ Declares written cs ∧ ps = written.map Param.collapsed ∧
      Param.AllowedAll seen ps := by
  induction s generalizing seen c ps with
  | zero => cases h
  | succ s ih =>
    obtain ⟨gap, hgap, rfl, hpast⟩ | ⟨p, more, cs, a, rfl, hp, hallowed, hseen, hpast, hend, hmore⟩ :=
      exists_writes_of_params h
    · exact ⟨[], _, hpast, .done hgap, rfl, Param.allowedAll_nil seen⟩
    · obtain ⟨pos, r⟩ := a
      obtain ⟨e, rfl⟩ | ⟨e, rfl⟩ := exists_cons_of_end hend
      · obtain ⟨written, cs', hpast', hdeclares, rfl, hall⟩ := ih hmore
        have hcomma : Past ⟨pos, ',' :: e⟩ [','] ⟨pos + 1, e⟩ := ⟨rfl, rfl⟩
        exact ⟨p :: written, _, hpast.append (hcomma.append hpast'), .comma hp hdeclares, rfl,
          Param.allowedAll_cons.mpr ⟨hallowed, hseen, hall⟩⟩
      · cases s with
        | zero => cases hmore
        | succ s =>
          have hdone : params (s + 1) (p.name :: seen) ⟨pos, [] ++ ')' :: e⟩ = _ :=
            params_done isGap_nil
          cases hdone.symm.trans hmore
          have hclosing : Past ⟨pos, ')' :: e⟩ [')'] ⟨pos + 1, e⟩ := ⟨rfl, rfl⟩
          exact ⟨[p], _, hpast.append hclosing, .last hp, rfl,
            Param.allowedAll_cons.mpr ⟨hallowed, hseen, Param.allowedAll_nil _⟩⟩

/-- **The text of a declaration is read**, whatever follows it. -/
theorem params_of_declares (h : Declares written cs)
    (hall : Param.AllowedAll seen (written.map Param.collapsed)) (hs : written.length < s)
    (pos : Nat) (rest : List Char) :
    params s seen ⟨pos, cs ++ rest⟩ = .ok (written.map Param.collapsed, ⟨pos + cs.length, rest⟩) := by
  induction h generalizing s seen pos with
  | done hgap =>
    obtain ⟨s, rfl⟩ := Nat.exists_eq_succ_of_ne_zero (Nat.ne_of_gt hs)
    rw [List.append_assoc]
    exact (params_done hgap).trans (by simp [Nat.add_assoc])
  | @comma p ps cs more hp _ ih =>
    obtain ⟨s, rfl⟩ := Nat.exists_eq_succ_of_ne_zero (Nat.ne_zero_of_lt hs)
    obtain ⟨hallowed, hseen, hall⟩ := Param.allowedAll_cons.mp hall
    rw [List.append_assoc, params_writes hp hallowed hseen (.inl rfl)]
    show (params s (p.collapsed.name :: seen) ⟨pos + cs.length + 1, more ++ rest⟩ >>= _) = _
    rw [ih hall (Nat.lt_of_succ_lt_succ hs), Except.ok_bind, List.length_append, List.length_cons,
      Nat.add_assoc pos, Nat.add_assoc pos, Nat.add_right_comm cs.length]
    rfl
  | @last p cs hp =>
    obtain ⟨s, rfl⟩ := Nat.exists_eq_succ_of_ne_zero (Nat.ne_zero_of_lt hs)
    obtain ⟨hallowed, hseen, -⟩ := Param.allowedAll_cons.mp hall
    obtain ⟨s, rfl⟩ := Nat.exists_eq_succ_of_ne_zero (Nat.ne_zero_of_lt (Nat.lt_of_succ_lt_succ hs))
    rw [List.append_assoc, params_writes hp hallowed hseen (.inr rfl)]
    show (params (s + 1) (p.name :: seen) ⟨pos + cs.length, [] ++ ')' :: rest⟩ >>= _) = _
    rw [params_done isGap_nil, List.length_append]
    rfl

/-! ## Whole declarations -/

/-- **What stands before the body of a template**: import statements and parameters, and where the
body starts. -/
def declaration (text : List Char) : Except Failure (List String × List Param × Cursor) := do
  let c := Cursor.ofText text 0
  let (imports, c) ← preamble c.steps c
  let (ps, c) ← params c.steps [] (c.skip 2)
  return (imports, ps, c.skipDeclarationEnd)

end Template.Read

/-- **A template is its declaration and its body.** -/
theorem Outline.parse_ok {text : List Char} {o : Outline} : Outline.parse text = .ok o ↔
    ∃ c e, Template.Read.declaration text = .ok (o.imports, o.params, c) ∧
      Template.Read.body c.steps false 0 0 ⟨c.position, []⟩ c = .ok (o.body, e) := by
  obtain ⟨imports, ps, ns⟩ := o
  simp only [parse, Template.Read.declaration, Except.bind_ok]
  constructor
  · rintro ⟨⟨imports, c⟩, hpreamble, ⟨ps, d⟩, hparams, ⟨ns, e⟩, hbody, h⟩
    cases h
    exact ⟨_, e, ⟨_, hpreamble, _, hparams, rfl⟩, hbody⟩
  · rintro ⟨_, e, ⟨⟨imports, c⟩, hpreamble, ⟨ps, d⟩, hparams, h⟩, hbody⟩
    cases h
    exact ⟨_, hpreamble, _, hparams, _, hbody, rfl⟩

namespace Template.Read

open Cursor

variable {text cs rest : List Char} {imports : List String} {ps written : List Param} {d : Cursor}

theorem length_lt_of_declares (h : Declares written cs) : written.length < cs.length := by
  induction h with
  | done => simp
  | comma _ _ ih => simp; omega
  | @last p cs hp =>
    obtain @⟨gap, name, behind, type⟩ := hp
    simp only [List.length_cons, List.length_nil, List.length_append]
    omega

/-- **What is read as a declaration.** -/
theorem exists_declares (h : declaration text = .ok (imports, ps, d)) :
    ∃ c a written cs,
      preamble (Cursor.ofText text 0).steps (Cursor.ofText text 0) = .ok (imports, c) ∧
      c.Past ('@' :: '(' :: cs) a ∧ d = a.skipDeclarationEnd ∧ Declares written cs ∧
      ps = written.map Param.collapsed ∧ Param.AllowedAll [] ps := by
  simp only [declaration, Except.bind_ok] at h
  obtain ⟨⟨imports, c⟩, hpreamble, ⟨ps, a⟩, hparams, h⟩ := h
  cases h
  obtain ⟨written, cs, hpast, hdeclares, hps, hall⟩ := declares_of_params hparams
  have hmark := past_of_startsWith (reaches_preamble hpreamble).2
  exact ⟨c, a, written, cs, hpreamble, hmark.append hpast, rfl, hdeclares, hps, hall⟩

/-- **A declaration is read**, whatever follows it. -/
theorem declaration_of_declares (h : Declares written cs)
    (hall : Param.AllowedAll [] (written.map Param.collapsed)) (rest : List Char) :
    declaration ('@' :: '(' :: (cs ++ rest)) =
      .ok ([], written.map Param.collapsed, (⟨2 + cs.length, rest⟩ : Cursor).skipDeclarationEnd) := by
  have hsteps : written.length < (⟨0, '@' :: '(' :: (cs ++ rest)⟩ : Cursor).steps := by
    have := length_lt_of_declares h
    simp only [steps, List.length_cons, List.length_append]
    omega
  rw [declaration, ofText_zero]
  show (preamble (_ + 1) _ >>= _) = _
  rw [preamble_print, Except.ok_bind]
  show (params _ [] ⟨2, cs ++ rest⟩ >>= _) = _
  rw [params_of_declares h hall hsteps]
  rfl

end Template.Read

/-! ## Printing -/

/-- A parameter as it is printed: its name, a colon, a space and its type. -/
def Param.print (p : Param) : List Char := p.name.toList ++ ':' :: ' ' :: p.type.toList

/-- **The text of a declaration**, the parameters parted by commas. -/
def Template.printDeclaration (ps : List Param) : List Char :=
  '@' :: '(' :: ([',', ' '].intercalate (ps.map Param.print) ++ [')'])

/-- A parameter with the space that is printed before its type. -/
def Param.spaced (p : Param) : Param := { p with type := String.ofList (' ' :: p.type.toList) }

variable {p : Param} {ps : List Param}

/-! ## Reading back -/

/-- Collapsed types are read back from behind a space. -/
theorem Param.collapsed_spaced (p : Param) : p.collapsed.spaced.collapsed = p.collapsed := by
  simp only [spaced, collapsed, String.toList_ofList]
  rw [collapse_blank_collapse (by decide)]

theorem Param.writes_print {gap : List Char} (hgap : IsGap gap)
    (hname : name? p.name.toList = some (p.name.toList, [])) (htype : TypeText false p.type.toList) :
    p.spaced.Writes (gap ++ p.print) := by
  have h := Param.Writes.mk hgap hname isGap_nil (htype.blank (by decide : isBlank ' ' = true))
  rwa [String.ofList_toList] at h

/-- **Printed parameters are the text of a declaration.** -/
theorem declares_print {gap : List Char} (hgap : IsGap gap)
    (hall : ∀ p ∈ ps, name? p.name.toList = some (p.name.toList, []) ∧ TypeText false p.type.toList) :
    Declares (ps.map Param.spaced)
      (gap ++ ([',', ' '].intercalate (ps.map Param.print) ++ [')'])) := by
  induction ps generalizing gap with
  | nil => exact .done hgap
  | cons p ps ih =>
    obtain ⟨⟨hname, htype⟩, hps⟩ := List.forall_mem_cons.mp hall
    have hp := Param.writes_print hgap hname htype
    cases ps with
    | nil =>
      rw [List.map_singleton, List.map_singleton, List.intercalate_singleton, ← List.append_assoc]
      exact .last hp
    | cons q ps =>
      have hrest := Declares.comma hp (ih isGap_space hps)
      simpa [List.intercalate_cons_cons] using hrest

namespace Template

open Read

/-- **Declarations can be printed and read back.** Whatever declaration is read, the names of its
parameters differ, and their types are texts of types that are not empty: brackets outside of string
literals are closed in order, and no comma or closing parenthesis stands outside of brackets. The
declaration that is printed from them is read as the same parameters, whatever text follows it, and
ends behind its closing parenthesis or behind one line end after that. -/
theorem declaration_printed {text : List Char} {imports : List String} {c : Cursor}
    (h : declaration text = .ok (imports, ps, c)) :
    (ps.map Param.name).Nodup ∧ (∀ p ∈ ps, p.type ≠ "" ∧ TypeText false p.type.toList) ∧
    ∀ rest, ∃ gap after, rest = gap ++ after ∧ IsDeclarationEnd gap ∧
      declaration (printDeclaration ps ++ rest) =
        .ok ([], ps, ⟨(printDeclaration ps).length + gap.length, after⟩) := by
  obtain ⟨-, -, written, cs, -, -, -, hdeclares, rfl, hall⟩ := exists_declares h
  have hwritten : ∀ p ∈ written.map Param.collapsed,
      name? p.name.toList = some (p.name.toList, []) ∧ TypeText false p.type.toList := by
    intro p hp
    obtain ⟨q, hq, rfl⟩ := List.mem_map.mp hp
    obtain ⟨hname, htype⟩ := hdeclares.forall_mem q hq
    exact ⟨hname, by simpa only [Param.collapsed, String.toList_ofList] using htype.collapse⟩
  have hspaced : ((written.map Param.collapsed).map Param.spaced).map Param.collapsed =
      written.map Param.collapsed := by
    simp [Param.collapsed_spaced]
  refine ⟨hall.nodup, fun p hp => ⟨(hall.allowed p hp).typed, (hwritten p hp).2⟩, fun rest => ?_⟩
  obtain ⟨gap, ⟨hgap, hposition⟩, hend⟩ := Cursor.past_skipDeclarationEnd
    ⟨(printDeclaration (written.map Param.collapsed)).length, rest⟩
  refine ⟨gap, _, hgap, hend, ?_⟩
  have hprint := declaration_of_declares (declares_print isGap_nil hwritten) (hspaced.symm ▸ hall)
    rest
  rw [hspaced, Nat.add_comm 2] at hprint
  rw [← hposition]
  exact hprint

/-- Comments and imports before parameters with brackets and quotes inside of string literals, a
comma behind the last parameter, and white space in the types. -/
def mixedDeclaration : List Char :=
  ("@import a\n@* b *@ @( xs :\tdict[str,\n  Literal[\"(, \\\\\\\"  ,\"]] , _y:int | None," ++
    "\n) \t\r\n@xs").toList

/-- The parameters that are read in it. -/
def mixedParams : List Param :=
  [⟨"xs", "dict[str, Literal[\"(, \\\\\\\" ,\"]]"⟩, ⟨"_y", "int | None"⟩]

theorem declaration_printed_mixed : ∃ c, declaration mixedDeclaration =
      .ok (["import a"], mixedParams, c) ∧
    (mixedParams.map Param.name).Nodup ∧
    (∀ p ∈ mixedParams, p.type ≠ "" ∧ TypeText false p.type.toList) ∧
    ∀ rest, ∃ gap after, rest = gap ++ after ∧ IsDeclarationEnd gap ∧
      declaration (printDeclaration mixedParams ++ rest) =
        .ok ([], mixedParams, ⟨(printDeclaration mixedParams).length + gap.length, after⟩) := by
  have hread : (match declaration mixedDeclaration with
    | .ok (imports, ps, _) => imports == ["import a"] && ps == mixedParams
    | _ => false) = true := by decide +kernel
  split at hread
  next imports ps c h =>
    rw [Bool.and_eq_true, beq_iff_eq, beq_iff_eq] at hread
    obtain ⟨rfl, rfl⟩ := hread
    exact ⟨c, h, declaration_printed h⟩
  next => cases hread

end Template

end Stencil
