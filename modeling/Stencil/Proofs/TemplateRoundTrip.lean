import Stencil.Proofs.ReadTemplate

/-!
# Printed templates are read back

* `Template.Read.reads_branch`, `Template.Read.reads_loop`, ...: the constructs, each from the
  bodies inside it.
* **`Template.Read.readsBody`**: every printed body is read.
* **`Outline.parse_print`**: reading the text of a template gives its body.
-/

namespace Stencil

open Text Expr

/-! ## Marks between and after blocks -/

namespace Cursor

variable {pos : Nat} {cs : List Char}

theorem elseMark?_brace : (⟨pos, ' ' :: 'e' :: 'l' :: 's' :: 'e' :: ' ' :: '\x7b' :: cs⟩ :
    Cursor).elseMark? = some ⟨pos + 6, '\x7b' :: cs⟩ := rfl

theorem elseMark?_if : (⟨pos, ' ' :: 'e' :: 'l' :: 's' :: 'e' :: ' ' :: 'i' :: 'f' :: ' ' :: cs⟩ :
    Cursor).elseMark? = some ⟨pos + 9, cs⟩ := by
  have hne : (pos + 6 != pos + 5) = true := by simp
  show (⟨pos + 5, ' ' :: 'i' :: 'f' :: ' ' :: cs⟩ : Cursor).afterElse? = _
  rw [afterElse?]
  show (if ((pos + 6 != pos + 5) && true) = true then _ else _) = _
  rw [hne]
  rfl

theorem elseMark?_end (h : Detached cs) : (⟨pos, '\n' :: cs⟩ : Cursor).elseMark? = none := by
  have hfar : (⟨pos, '\n' :: cs⟩ : Cursor).skipBlank.startsWith "@else" = false :=
    (h.char (c := '\n') (by decide) (by decide)).no_else
  have hnear : ((⟨pos, '\n' :: cs⟩ : Cursor).skipWhile isSpaceOrTab).startsWith "else" = false := rfl
  rw [elseMark?]
  simp only [hfar, hnear]
  rfl

theorem blockMark?_block :
    (⟨pos, ' ' :: '\x7b' :: cs⟩ : Cursor).blockMark? = some ⟨pos + 1, '\x7b' :: cs⟩ := rfl

theorem blockMark?_end (h : Detached cs) : (⟨pos, cs⟩ : Cursor).blockMark? = none := by
  have hno : ((⟨pos, cs⟩ : Cursor).skipWhile isSpaceOrTab).startsWith "\x7b" = false := by
    have := h.no_brace
    show ['\x7b'].isPrefixOf (cs.dropWhile isSpaceOrTab) = false
    cases hd : cs.dropWhile isSpaceOrTab with
    | nil => rfl
    | cons c ds =>
      rw [hd] at this
      have hne : c ≠ '\x7b' := by simpa using this
      simp [List.isPrefixOf, hne.symm]
  rw [blockMark?]
  simp only [hno]
  rfl

/-- Where an expression or a pattern starts, no comment does. -/
theorem comment?_of_opens (h : (first cs).opens = true) : (⟨pos, cs⟩ : Cursor).comment? = none := by
  cases cs with
  | nil => rfl
  | cons c cs =>
    have hne : c ≠ '@' := by
      rintro rfl
      cases h
    have hblock : (⟨pos, c :: cs⟩ : Cursor).startsWith "@*" = false := by
      show ['@', '*'].isPrefixOf (c :: cs) = false
      simp [List.isPrefixOf, hne.symm]
    have hline : (⟨pos, c :: cs⟩ : Cursor).startsWith "@//" = false := by
      show ['@', '/', '/'].isPrefixOf (c :: cs) = false
      simp [List.isPrefixOf, hne.symm]
    rw [comment?, hblock, hline]
    rfl

/-- No mark stands where an expression or a pattern starts. -/
theorem not_mark_of_opens (h : (first cs).opens = true) (c : Char)
    (hc : c ∈ ['\x7b', '\x7d', ')', ',']) : (⟨pos, cs⟩ : Cursor).startsWith c.toString = false := by
  cases cs with
  | nil => cases h
  | cons e cs =>
    have hne : c ≠ e := by
      rintro rfl
      simp only [List.mem_cons, List.not_mem_nil, or_false] at hc
      rcases hc with rfl | rfl | rfl | rfl <;> cases h
    simp [startsWith, Char.toString, List.isPrefixOf, hne]

/-- Neither white space nor a comment stands at the start of the text. -/
structure Clean (cs : List Char) : Prop where
  skipBlank : ∀ pos, (⟨pos, cs⟩ : Cursor).skipBlank = ⟨pos, cs⟩
  comment? : ∀ pos, (⟨pos, cs⟩ : Cursor).comment? = none

theorem Clean.of_opens (h : (first cs).opens = true) : Clean cs :=
  ⟨skipBlank_of_opens h, fun _ => comment?_of_opens h⟩

theorem Clean.brace (cs : List Char) : Clean ('\x7d' :: cs) := ⟨fun _ => rfl, fun _ => rfl⟩

theorem skipComments_clean (h : Clean cs) : (⟨pos, cs⟩ : Cursor).skipComments = .ok ⟨pos, cs⟩ := by
  rw [skipComments, steps]
  show skipCommentsIn (16 * (cs.length + 1) + 15 + 1) ⟨pos, cs⟩ = _
  rw [skipCommentsIn]
  simp only [h.skipBlank, h.comment?]

theorem skipComments_space (h : Clean cs) :
    (⟨pos, ' ' :: cs⟩ : Cursor).skipComments = .ok ⟨pos + 1, cs⟩ := by
  rw [skipComments, steps]
  show skipCommentsIn (16 * (cs.length + 2) + 15 + 1) ⟨pos, ' ' :: cs⟩ = _
  rw [skipCommentsIn]
  simp only [skipBlank_space, h.skipBlank, h.comment?]

end Cursor

namespace Template.Read

variable {s d pos : Nat} {cs rest : List Char}

/-! ## Values and comments -/

theorem reads_value {p : Nat} {e : Expr} {raw : Bool} (h : e.Writable)
    (hp : e.isParenthesized = true) : ReadsNode d (.value p e raw) := by
  intro s pos rest hs _
  have hlen : 1 ≤ (Node.value p e raw).print.length := by simp [Node.print]
  obtain ⟨s, rfl⟩ : ∃ k, s = k + 1 := Nat.exists_eq_succ_of_ne_zero (by omega)
  rw [Node.print]
  cases raw with
  | true =>
    obtain ⟨e', pos', he, hu⟩ := readChain_print h.printable hp (pos + 2) rest
    refine ⟨.value pos e' true, pos', ?_, by rw [Node.unplaced, Node.unplaced, hu]⟩
    show (readChain ⟨pos + 2, e.print ++ rest⟩ >>= _) = _
    rw [he]
    rfl
  | false =>
    obtain ⟨e', pos', he, hu⟩ := readChain_print h.printable hp (pos + 1) rest
    refine ⟨.value pos e' false, pos', ?_, by rw [Node.unplaced, Node.unplaced, hu]⟩
    obtain ⟨r, hr⟩ : ∃ r, e.print ++ rest = '(' :: r := by
      cases e with
      | group q i =>
        rw [Expr.print]
        exact ⟨_, rfl⟩
      | tuple q is =>
        rw [Expr.print]
        exact ⟨_, rfl⟩
      | _ => cases hp
    rw [if_neg (by decide), List.nil_append, List.cons_append]
    rw [hr] at he ⊢
    show (readChain ⟨pos + 1, '(' :: r⟩ >>= _) = _
    rw [he]
    rfl

theorem reads_comment {p : Nat} {t : String} (h : ¬ ['*', '@'] <:+: t.toList) :
    ReadsNode d (.comment p t) := by
  intro s pos rest hs _
  have hlen : 2 ≤ (Node.comment p t).print.length := by simp [Node.print]
  obtain ⟨s, rfl⟩ : ∃ k, s = k + 1 := Nat.exists_eq_succ_of_ne_zero (by omega)
  obtain ⟨pos', he⟩ := comment_print h pos rest
  refine ⟨.comment pos t, pos', ?_, rfl⟩
  rw [Node.print, List.cons_append, List.cons_append, List.append_assoc, construct]
  simp only [List.cons_append, List.nil_append, he, String.ofList_toList]
  rfl

/-! ## Branches -/

theorem construct_branch : construct (s + 1) d ⟨pos, '@' :: 'i' :: 'f' :: ' ' :: cs⟩ =
    (branches s d ⟨pos + 4, cs⟩ >>= fun (arms, otherwise, c) =>
      .ok (.branch pos arms otherwise, c.skipNewline)) := rfl

/-- No brace stands where a condition starts. -/
theorem condition_no_brace {c : Condition} (h : c.Writable) (pos : Nat) (hr : Apart rest) :
    (⟨pos, c.print ++ rest⟩ : Cursor).startsWith "\x7b" = false := by
  cases c with
  | holds e => exact Cursor.not_mark_of_opens (first_print h.printable hr).1 '\x7b' (by decide)
  | «matches» p e => rfl

/-- What is known of an arm whose condition and body are read. -/
structure ReadsArm (d : Nat) (arm : Condition × List Node) : Prop where
  condition : arm.1.Writable
  depth : d < maxNesting
  body : ReadsBody (d + 1) arm.2

/-- The last arm of a branch, and what is done if no arm is taken. -/
theorem branches_last {c : Condition} {body : List Node} {otherwise : Option (List Node)}
    (h : ReadsArm d (c, body))
    (ho : ∀ ns, otherwise = some ns → d < maxNesting ∧ ReadsBody (d + 1) ns) (hr : Detached rest)
    (s pos : Nat)
    (hs : 16 * ((Node.printAll body).length + (Node.printOtherwise otherwise).length + 1) ≤ s) :
    ∃ c' body' otherwise' pos', branches (s + 1) d ⟨pos, c.print ++ ' ' :: '\x7b' ::
        (Node.printAll body ++ '\x7d' :: (Node.printOtherwise otherwise ++ '\n' :: rest))⟩ =
        .ok ([(c', body')], otherwise', ⟨pos', '\n' :: rest⟩) ∧
      c'.unplaced = c.unplaced ∧ Node.unplacedAll body' = Node.unplacedAll body ∧
      Node.unplacedOtherwise otherwise' = Node.unplacedOtherwise otherwise := by
  have hbody : ReadsBody (d + 1) body := h.body
  obtain ⟨c', pos₁, hc, huc⟩ := condition_print h.condition pos (Node.printAll body ++
    '\x7d' :: (Node.printOtherwise otherwise ++ '\n' :: rest))
  obtain ⟨body', pos₂, hb, hub⟩ := hbody.block h.depth s (pos₁ + 1)
    (Node.printOtherwise otherwise ++ '\n' :: rest) (by omega)
  rw [branches, hc, Except.ok_bind]
  simp only [block_space, hb, Except.ok_bind]
  cases otherwise with
  | none =>
    refine ⟨c', body', none, pos₂, ?_, huc, hub, rfl⟩
    rw [Node.printOtherwise, List.nil_append, Cursor.elseMark?_end hr]
    rfl
  | some last =>
    obtain ⟨hd, hlast⟩ := ho last rfl
    rw [Node.printOtherwise] at hs ⊢
    simp only [List.length_cons, List.length_append] at hs
    obtain ⟨last', pos₃, hl, hul⟩ := hlast.block hd s (pos₂ + 6) ('\n' :: rest) (by omega)
    refine ⟨c', body', some last', pos₃, ?_, huc, hub,
      by rw [Node.unplacedOtherwise, Node.unplacedOtherwise, hul]⟩
    simp only [List.cons_append, List.append_assoc, List.nil_append, Cursor.elseMark?_brace]
    show (block s d ⟨pos₂ + 6, _⟩ >>= _) = _
    rw [hl]
    rfl

/-- **The arms of a branch are read**, and what is done if no arm is taken. -/
theorem branches_print {arms : List (Condition × List Node)} {otherwise : Option (List Node)}
    (hne : arms ≠ []) (h : ∀ arm ∈ arms, ReadsArm d arm)
    (ho : ∀ ns, otherwise = some ns → d < maxNesting ∧ ReadsBody (d + 1) ns) (hr : Detached rest)
    (s pos : Nat)
    (hs : 16 * ((Node.printArms arms).length + (Node.printOtherwise otherwise).length) ≤ s) :
    ∃ arms' otherwise' pos', branches s d
        ⟨pos, Node.printArms arms ++ (Node.printOtherwise otherwise ++ '\n' :: rest)⟩ =
        .ok (arms', otherwise', ⟨pos', '\n' :: rest⟩) ∧
      Node.unplacedArms arms' = Node.unplacedArms arms ∧
      Node.unplacedOtherwise otherwise' = Node.unplacedOtherwise otherwise := by
  induction arms generalizing s pos with
  | nil => exact absurd rfl hne
  | cons arm arms ih =>
    obtain ⟨c, body⟩ := arm
    have harm := h (c, body) List.mem_cons_self
    have hbody : ReadsBody (d + 1) body := harm.body
    rw [Node.printArms] at hs ⊢
    simp only [List.length_append, List.length_cons] at hs
    obtain ⟨s, rfl⟩ : ∃ k, s = k + 1 := Nat.exists_eq_succ_of_ne_zero (by omega)
    simp only [List.append_assoc, List.cons_append]
    cases arms with
    | nil =>
      obtain ⟨c', body', otherwise', pos', he, huc, hub, huo⟩ :=
        branches_last harm ho hr s pos (by omega)
      refine ⟨[(c', body')], otherwise', pos', he, ?_, huo⟩
      rw [Node.unplacedArms, Node.unplacedArms, huc, hub]
      rfl
    | cons arm' arms =>
      simp only [List.isEmpty_cons, Bool.false_eq_true, if_false, List.length_cons] at hs
      obtain ⟨c', pos₁, hc, huc⟩ := condition_print harm.condition pos (Node.printAll body ++
        '\x7d' :: ' ' :: 'e' :: 'l' :: 's' :: 'e' :: ' ' :: 'i' :: 'f' :: ' ' ::
          (Node.printArms (arm' :: arms) ++ (Node.printOtherwise otherwise ++ '\n' :: rest)))
      obtain ⟨body', pos₂, hb, hub⟩ := hbody.block harm.depth s (pos₁ + 1)
        (' ' :: 'e' :: 'l' :: 's' :: 'e' :: ' ' :: 'i' :: 'f' :: ' ' ::
          (Node.printArms (arm' :: arms) ++ (Node.printOtherwise otherwise ++ '\n' :: rest)))
        (by omega)
      obtain ⟨arms', otherwise', pos₃, ha, hua, huo⟩ := ih (List.cons_ne_nil _ _)
        (fun a ha => h a (List.mem_cons_of_mem _ ha)) s (pos₂ + 9) (by omega)
      -- A brace here would be the body of an `else` and no further arm.
      have hbrace : (⟨pos₂ + 9, Node.printArms (arm' :: arms) ++
          (Node.printOtherwise otherwise ++ '\n' :: rest)⟩ : Cursor).startsWith "\x7b" = false := by
        rw [Node.printArms, List.append_assoc]
        exact condition_no_brace (h arm' (by simp)).condition _ (.space _)
      refine ⟨(c', body') :: arms', otherwise', pos₃, ?_, ?_, huo⟩
      · rw [if_neg (by simp), List.cons_append, List.cons_append, List.cons_append, List.cons_append,
          List.cons_append, List.cons_append, List.cons_append, List.cons_append, List.cons_append,
          branches, hc, Except.ok_bind]
        simp only [block_space, hb, Except.ok_bind, Cursor.elseMark?_if, hbrace]
        simp only [Bool.false_eq_true, if_false, ha, Except.ok_bind]
        rfl
      · rw [Node.unplacedArms, Node.unplacedArms, huc, hub, hua]

theorem reads_branch {p : Nat} {arms : List (Condition × List Node)}
    {otherwise : Option (List Node)} (hne : arms ≠ []) (h : ∀ arm ∈ arms, ReadsArm d arm)
    (ho : ∀ ns, otherwise = some ns → d < maxNesting ∧ ReadsBody (d + 1) ns) :
    ReadsNode d (.branch p arms otherwise) := by
  intro s pos rest hs hr
  rw [Node.print] at hs ⊢
  simp only [List.length_cons, List.length_append, List.length_nil] at hs
  obtain ⟨s, rfl⟩ : ∃ k, s = k + 1 := Nat.exists_eq_succ_of_ne_zero (by omega)
  obtain ⟨arms', otherwise', pos', he, hua, huo⟩ :=
    branches_print hne h ho hr s (pos + 4) (by omega)
  refine ⟨.branch pos arms' otherwise', pos' + 1, ?_, by
    rw [Node.unplaced, Node.unplaced, hua, huo]⟩
  simp only [List.cons_append, List.append_assoc, List.nil_append]
  rw [construct_branch, he]
  rfl

/-! ## Loops -/

theorem atWord_in (pos : Nat) (cs : List Char) :
    (⟨pos, 'i' :: 'n' :: ' ' :: cs⟩ : Cursor).atWord "in" = true := by
  have hw : isWord ' ' = false := by decide
  show (!isWord ' ') = true
  rw [hw]
  rfl

theorem construct_loop : construct (s + 1) d ⟨pos, '@' :: 'f' :: 'o' :: 'r' :: ' ' :: cs⟩ =
    (Pattern.read (⟨pos + 5, cs⟩ : Cursor).skipBlank >>= fun (p, c) =>
      if c.skipBlank.atWord "in" then do
        let (e, c) ← readExpression (c.skipBlank.skip 2)
        let (nodes, c) ← block s d c
        return (.loop pos p e nodes, c.skipNewline)
      else .error (.at .expectedIn c.skipBlank.position)) := rfl

/-- **A loop is read.** -/
theorem reads_loop {p : Nat} {pattern : Pattern} {e : Expr} {ns : List Node} (hp : pattern.Writable)
    (he : e.Writable) (hd : d < maxNesting) (h : ReadsBody (d + 1) ns) :
    ReadsNode d (.loop p pattern e ns) := by
  intro s pos rest hs _
  rw [Node.print] at hs ⊢
  simp only [List.length_cons, List.length_append, List.length_nil] at hs
  obtain ⟨s, rfl⟩ : ∃ k, s = k + 1 := Nat.exists_eq_succ_of_ne_zero (by omega)
  have hopen := Pattern.first_print hp.shaped hp.plain (Apart.space ('i' :: 'n' :: ' ' ::
    (e.print ++ ' ' :: '\x7b' :: (Node.printAll ns ++ '\x7d' :: '\n' :: rest))))
  obtain ⟨pattern', pos₁, hpattern, hup⟩ := Pattern.read_print hp.shaped hp.plain
    (closed_in (e.print ++ ' ' :: '\x7b' :: (Node.printAll ns ++ '\x7d' :: '\n' :: rest))) (pos + 5)
  obtain ⟨e', pos₂, hexpr, hue⟩ := readExpression_space_print he.printable
    (closes_brace (Node.printAll ns ++ '\x7d' :: '\n' :: rest)) (pos₁ + 1 + 2)
  obtain ⟨ns', pos₃, hblock, hun⟩ := h.block hd s (pos₂ + 1) ('\n' :: rest) (by omega)
  refine ⟨.loop pos pattern' e' ns', pos₃ + 1, ?_, by
    rw [Node.unplaced, Node.unplaced, hup, hue, hun]⟩
  simp only [List.cons_append, List.append_assoc, List.nil_append]
  rw [construct_loop, skipBlank_of_opens hopen, hpattern, Except.ok_bind]
  show (if (⟨pos₁ + 1, 'i' :: 'n' :: ' ' :: (e.print ++ ' ' :: '\x7b' ::
    (Node.printAll ns ++ '\x7d' :: '\n' :: rest))⟩ : Cursor).atWord "in" = true then _ else _) = _
  rw [if_pos (atWord_in _ _)]
  show (readExpression ⟨pos₁ + 1 + 2, ' ' :: (e.print ++ ' ' :: '\x7b' ::
    (Node.printAll ns ++ '\x7d' :: '\n' :: rest))⟩ >>= _) = _
  rw [hexpr, Except.ok_bind]
  simp only [block_space, hblock, Except.ok_bind]
  rfl

/-! ## Cases -/

/-- What is known of a case whose parts are read. -/
structure ReadsCase (d : Nat) (arm : Pattern × Option Expr × List Node) : Prop where
  pattern : arm.1.Writable
  guard : ∀ e, arm.2.1 = some e → e.Writable
  depth : d < maxNesting
  body : ReadsBody (d + 1) arm.2.2

/-- No white space and no comment stands before a case or the end of the cases. -/
theorem clean_cases {arms : List (Pattern × Option Expr × List Node)}
    (h : ∀ arm ∈ arms, ReadsCase d arm) (rest : List Char) :
    Cursor.Clean (Node.printCases arms ++ '\x7d' :: rest) := by
  cases arms with
  | nil => exact .brace rest
  | cons arm arms =>
    obtain ⟨p, g, body⟩ := arm
    have hp := (h (p, g, body) List.mem_cons_self).pattern
    rw [Node.printCases, List.append_assoc]
    exact .of_opens (Pattern.first_print hp.shaped hp.plain (.space _))

/-- No comma stands before a case or the end of the cases. -/
theorem no_comma {arms : List (Pattern × Option Expr × List Node)}
    (h : ∀ arm ∈ arms, ReadsCase d arm) :
    (⟨pos, Node.printCases arms ++ '\x7d' :: rest⟩ : Cursor).startsWith "," = false := by
  cases arms with
  | nil => rfl
  | cons arm arms =>
    obtain ⟨p, g, body⟩ := arm
    have hp := (h (p, g, body) List.mem_cons_self).pattern
    rw [Node.printCases, List.append_assoc]
    exact Cursor.not_mark_of_opens (Pattern.first_print hp.shaped hp.plain (.space _)) ','
      (by decide)

theorem cases_space {start : Nat} (h : Cursor.Clean cs) :
    cases s d start ⟨pos, ' ' :: cs⟩ = cases s d start ⟨pos + 1, cs⟩ := by
  cases s with
  | zero => rfl
  | succ s =>
    rw [Read.cases, Read.cases, Cursor.skipComments_space h, Cursor.skipComments_clean h]

theorem skipBlank_guard (g : Option Expr) (pos : Nat) (cs : List Char) :
    (⟨pos, ' ' :: (printGuard g ++ '=' :: '>' :: cs)⟩ : Cursor).skipBlank =
      ⟨pos + 1, printGuard g ++ '=' :: '>' :: cs⟩ := by
  cases g <;> rfl

/-- **The cases of a match are read**, with the brace after them. -/
theorem cases_print (start : Nat) {arms : List (Pattern × Option Expr × List Node)}
    (h : ∀ arm ∈ arms, ReadsCase d arm) (s pos : Nat) (rest : List Char)
    (hs : 16 * (Node.printCases arms).length + 8 ≤ s) :
    ∃ arms' pos', cases s d start ⟨pos, Node.printCases arms ++ '\x7d' :: rest⟩ =
      .ok (arms', ⟨pos', rest⟩) ∧ Node.unplacedCases arms' = Node.unplacedCases arms := by
  induction arms generalizing s pos with
  | nil =>
    obtain ⟨s, rfl⟩ : ∃ k, s = k + 1 := Nat.exists_eq_succ_of_ne_zero (by omega)
    refine ⟨[], pos + 1, ?_, rfl⟩
    rw [Read.cases, Cursor.skipComments_clean (clean_cases h rest)]
    rfl
  | cons arm arms ih =>
    obtain ⟨p, g, body⟩ := arm
    have harm := h (p, g, body) List.mem_cons_self
    have hbody : ReadsBody (d + 1) body := harm.body
    have hp : p.Writable := harm.pattern
    have htail := fun a ha => h a (List.mem_cons_of_mem (p, g, body) ha)
    have hclean := clean_cases htail rest
    have hfirst := clean_cases h rest
    rw [Node.printCases] at hs hfirst ⊢
    simp only [List.length_append, List.length_cons] at hs
    simp only [List.append_assoc, List.cons_append] at hfirst ⊢
    obtain ⟨s, rfl⟩ : ∃ k, s = k + 1 := Nat.exists_eq_succ_of_ne_zero (by omega)
    have hopen := Pattern.first_print hp.shaped hp.plain (Apart.space (printGuard g ++ '=' :: '>' ::
      ' ' :: '\x7b' :: (Node.printAll body ++ '\x7d' :: ' ' :: (Node.printCases arms ++
        '\x7d' :: rest))))
    obtain ⟨p', pos₁, hpattern, hup⟩ := Pattern.read_print hp.shaped hp.plain (closed_guard g
      ('\x7b' :: (Node.printAll body ++ '\x7d' :: ' ' :: (Node.printCases arms ++
        '\x7d' :: rest)))) pos
    obtain ⟨g', pos₂, hguard, hug⟩ := guard_print harm.guard (pos₁ + 1) (' ' :: '\x7b' ::
      (Node.printAll body ++ '\x7d' :: ' ' :: (Node.printCases arms ++ '\x7d' :: rest)))
    obtain ⟨body', pos₃, hblock, hub⟩ := hbody.block harm.depth s (pos₂ + 2 + 1)
      (' ' :: (Node.printCases arms ++ '\x7d' :: rest)) (by omega)
    obtain ⟨arms', pos₄, harms, hua⟩ := ih htail s (pos₃ + 1) (by omega)
    refine ⟨(p', g', body') :: arms', pos₄, ?_, by
      rw [Node.unplacedCases, Node.unplacedCases, hup, hug, hub, hua]⟩
    have hend : (⟨pos, p.print ++ ' ' :: (printGuard g ++ '=' :: '>' :: ' ' :: '\x7b' ::
        (Node.printAll body ++ '\x7d' :: ' ' :: (Node.printCases arms ++ '\x7d' :: rest)))⟩ :
        Cursor).startsWith "\x7d" = false := Cursor.not_mark_of_opens hopen '\x7d' (by decide)
    have hne : (p.print ++ ' ' :: (printGuard g ++ '=' :: '>' :: ' ' :: '\x7b' ::
        (Node.printAll body ++ '\x7d' :: ' ' :: (Node.printCases arms ++ '\x7d' :: rest)))).isEmpty =
        false := by simp
    have harrow : (⟨pos₂, '=' :: '>' :: ' ' :: '\x7b' :: (Node.printAll body ++ '\x7d' :: ' ' ::
        (Node.printCases arms ++ '\x7d' :: rest))⟩ : Cursor).startsWith "=>" = true := rfl
    have hskip : (⟨pos₂, '=' :: '>' :: ' ' :: '\x7b' :: (Node.printAll body ++ '\x7d' :: ' ' ::
        (Node.printCases arms ++ '\x7d' :: rest))⟩ : Cursor).skip 2 = ⟨pos₂ + 2, ' ' :: '\x7b' ::
          (Node.printAll body ++ '\x7d' :: ' ' :: (Node.printCases arms ++ '\x7d' :: rest))⟩ := rfl
    rw [Read.cases, Cursor.skipComments_clean hfirst, Except.ok_bind]
    simp only [hne, hend, Bool.false_eq_true, if_false, hpattern, Except.ok_bind, skipBlank_guard,
      hguard, harrow, if_true, hskip, block_space, hblock, Cursor.skipComments_space hclean,
      no_comma htail, harms]
    rfl

theorem construct_cases :
    construct (s + 1) d ⟨pos, '@' :: 'm' :: 'a' :: 't' :: 'c' :: 'h' :: ' ' :: cs⟩ =
      (readExpression ⟨pos + 7, cs⟩ >>= fun (e, c) =>
        if c.skipBlank.startsWith "\x7b" then do
          let (arms, last) ← cases s (← Template.Read.enter d c.skipBlank.position)
            c.skipBlank.position (c.skipBlank.skip 1)
          return (.cases pos e arms, last.skipNewline)
        else .error (.at .expectedMatchBlock c.skipBlank.position)) := rfl

/-- **A match is read.** -/
theorem reads_cases {p : Nat} {e : Expr} {arms : List (Pattern × Option Expr × List Node)}
    (he : e.Writable) (hd : d < maxNesting) (h : ∀ arm ∈ arms, ReadsCase (d + 1) arm) :
    ReadsNode d (.cases p e arms) := by
  intro s pos rest hs _
  rw [Node.print] at hs ⊢
  simp only [List.length_cons, List.length_append, List.length_nil] at hs
  obtain ⟨s, rfl⟩ : ∃ k, s = k + 1 := Nat.exists_eq_succ_of_ne_zero (by omega)
  obtain ⟨e', pos₁, hexpr, hue⟩ := readExpression_print he.printable
    (closes_brace (' ' :: (Node.printCases arms ++ '\x7d' :: '\n' :: rest))) (pos + 7)
  obtain ⟨arms', pos₂, harms, hua⟩ := cases_print (pos₁ + 1) h s (pos₁ + 3) ('\n' :: rest)
    (by omega)
  refine ⟨.cases pos e' arms', pos₂ + 1, ?_, by rw [Node.unplaced, Node.unplaced, hue, hua]⟩
  simp only [List.cons_append, List.append_assoc, List.nil_append]
  rw [construct_cases, hexpr, Except.ok_bind]
  show (Template.Read.enter d (pos₁ + 1) >>= _) = _
  rw [enter_ok hd, Except.ok_bind]
  show (cases s (d + 1) (pos₁ + 1) ⟨pos₁ + 2, ' ' :: (Node.printCases arms ++
    '\x7d' :: '\n' :: rest)⟩ >>= _) = _
  rw [cases_space (clean_cases h ('\n' :: rest)), harms]
  rfl

/-! ## Calls -/

/-- The text of an argument. -/
def argumentText : Expr ⊕ List Node → List Char
  | .inl e => e.print
  | .inr body => '\x7b' :: (Node.printAll body ++ ['\x7d'])

/-- What is known of an argument that is read. -/
def ReadsArgument (d : Nat) : Expr ⊕ List Node → Prop
  | .inl e => e.Writable
  | .inr body => d < maxNesting ∧ ReadsBody (d + 1) body

theorem argumentTexts_cons (a : Expr ⊕ List Node) (args : List (Expr ⊕ List Node)) :
    Node.argumentTexts (a :: args) = argumentText a :: Node.argumentTexts args := by
  cases a <;> rw [Node.argumentTexts, argumentText]

theorem unplacedArguments_cons (a : Expr ⊕ List Node) (args : List (Expr ⊕ List Node)) :
    Node.unplacedArguments (a :: args) =
      Node.unplacedArguments [a] ++ Node.unplacedArguments args := by
  cases a <;> simp [Node.unplacedArguments]

/-- An argument starts with no white space and no closing parenthesis. -/
theorem argument_start {a : Expr ⊕ List Node} (h : ReadsArgument d a) (hr : Apart rest)
    (pos : Nat) :
    (⟨pos, argumentText a ++ rest⟩ : Cursor).skipBlank = ⟨pos, argumentText a ++ rest⟩ ∧
      (⟨pos, argumentText a ++ rest⟩ : Cursor).startsWith ")" = false := by
  cases a with
  | inl e =>
    have he : e.Writable := h
    have hopen := (first_print he.printable hr).1
    exact ⟨skipBlank_of_opens hopen pos, Cursor.not_mark_of_opens hopen ')' (by decide)⟩
  | inr body => exact ⟨rfl, rfl⟩

/-- **An argument is read.** -/
theorem argument_print {a : Expr ⊕ List Node} (h : ReadsArgument d a) (hr : Expr.Read.Closes rest)
    (s pos : Nat) (hs : 16 * (argumentText a).length + 8 ≤ s) :
    ∃ a' pos', argument s d ⟨pos, argumentText a ++ rest⟩ = .ok (a', ⟨pos', rest⟩) ∧
      Node.unplacedArguments [a'] = Node.unplacedArguments [a] := by
  obtain ⟨s, rfl⟩ : ∃ k, s = k + 1 := Nat.exists_eq_succ_of_ne_zero (by omega)
  cases a with
  | inl e =>
    have he : e.Writable := h
    have hbrace : (⟨pos, argumentText (.inl e) ++ rest⟩ : Cursor).startsWith "\x7b" = false :=
      Cursor.not_mark_of_opens (first_print he.printable hr.apart).1 '\x7b' (by decide)
    obtain ⟨e', pos', hexpr, hu⟩ := readExpression_print he.printable hr pos
    refine ⟨.inl e', pos', ?_, by rw [Node.unplacedArguments, Node.unplacedArguments, hu]; rfl⟩
    rw [argument, hbrace]
    show (readExpression ⟨pos, e.print ++ rest⟩ >>= _) = _
    rw [hexpr]
    rfl
  | inr body =>
    rw [argumentText, List.length_cons, List.length_append] at hs
    obtain ⟨body', pos', hb, hu⟩ := h.2.block h.1 s pos rest (by omega)
    refine ⟨.inr body', pos', ?_, by rw [Node.unplacedArguments, Node.unplacedArguments, hu]; rfl⟩
    rw [argumentText, List.cons_append, List.append_assoc, argument]
    show (block s d ⟨pos, '\x7b' :: (Node.printAll body ++ '\x7d' :: rest)⟩ >>= _) = _
    rw [hb]
    rfl

theorem arguments_space : arguments s d ⟨pos, ' ' :: cs⟩ = arguments s d ⟨pos + 1, cs⟩ := by
  cases s with
  | zero => rfl
  | succ s => rw [arguments, arguments, Cursor.skipBlank_space]

/-- **The arguments of a call are read**, with the parenthesis after them. -/
theorem arguments_print {args : List (Expr ⊕ List Node)} (h : ∀ a ∈ args, ReadsArgument d a)
    (s pos : Nat) (rest : List Char)
    (hs : 16 * (joined (Node.argumentTexts args)).length + 8 ≤ s) :
    ∃ args' pos', arguments s d ⟨pos, joined (Node.argumentTexts args) ++ ')' :: rest⟩ =
      .ok (args', ⟨pos', rest⟩) ∧ Node.unplacedArguments args' = Node.unplacedArguments args := by
  induction args generalizing s pos with
  | nil =>
    obtain ⟨s, rfl⟩ : ∃ k, s = k + 1 := Nat.exists_eq_succ_of_ne_zero (by omega)
    exact ⟨[], pos + 1, rfl, rfl⟩
  | cons a args ih =>
    have ha := h a List.mem_cons_self
    have htail := fun b hb => h b (List.mem_cons_of_mem a hb)
    obtain ⟨s, rfl⟩ : ∃ k, s = k + 1 := Nat.exists_eq_succ_of_ne_zero (by omega)
    rw [argumentTexts_cons] at hs ⊢
    cases args with
    | nil =>
      rw [Node.argumentTexts, Pattern.Read.length_joined_singleton] at hs
      obtain ⟨a', pos', he, hu⟩ := argument_print ha
        (Expr.Read.closes_close (.inl rfl) rest) s pos (by omega)
      obtain ⟨hblank, hclose⟩ := argument_start ha (Apart.space (')' :: rest)) pos
      refine ⟨[a'], pos' + 2, ?_, hu⟩
      rw [Node.argumentTexts, Pattern.Read.joined_singleton, arguments]
      simp only [hblank, hclose, Bool.false_eq_true, if_false, he, Except.ok_bind]
      rfl
    | cons b bs =>
      have hne : Node.argumentTexts (b :: bs) ≠ [] := by
        rw [argumentTexts_cons]
        exact List.cons_ne_nil _ _
      rw [Pattern.Read.length_joined_cons _ hne] at hs
      obtain ⟨a', pos', he, hu⟩ := argument_print ha
        (Expr.Read.closes_comma (joined (Node.argumentTexts (b :: bs)) ++ ')' :: rest)) s pos
        (by omega)
      obtain ⟨hblank, hclose⟩ := argument_start ha (Apart.space (',' :: ' ' ::
        (joined (Node.argumentTexts (b :: bs)) ++ ')' :: rest))) pos
      obtain ⟨args', pos'', hargs, hus⟩ := ih htail s (pos' + 2 + 1) (by omega)
      refine ⟨a' :: args', pos'', ?_, by
        rw [unplacedArguments_cons, hu, hus, ← unplacedArguments_cons]⟩
      rw [Pattern.Read.joined_cons _ hne, arguments]
      simp only [hblank, hclose, Bool.false_eq_true, if_false, he, Except.ok_bind]
      show (arguments s d ⟨pos' + 2, ' ' :: (joined (Node.argumentTexts (b :: bs)) ++
        ')' :: rest)⟩ >>= _) = _
      rw [arguments_space, hargs]
      rfl

/-- **The blocks after a call are read.** -/
theorem blocks_print {blocks : List (List Node)} (hr : Detached rest)
    (h : ∀ body ∈ blocks, d < maxNesting ∧ ReadsBody (d + 1) body) (s pos : Nat)
    (hs : 16 * (Node.printBlocks blocks).length + 8 ≤ s) :
    ∃ blocks' pos', Read.blocks s d ⟨pos, Node.printBlocks blocks ++ rest⟩ =
      .ok (blocks', ⟨pos', rest⟩) ∧ Node.unplacedBlocks blocks' = Node.unplacedBlocks blocks := by
  induction blocks generalizing s pos with
  | nil =>
    obtain ⟨s, rfl⟩ : ∃ k, s = k + 1 := Nat.exists_eq_succ_of_ne_zero (by omega)
    refine ⟨[], pos, ?_, rfl⟩
    rw [Node.printBlocks, List.nil_append, Read.blocks, Cursor.blockMark?_end hr]
    rfl
  | cons body blocks ih =>
    obtain ⟨hd, hbody⟩ := h body List.mem_cons_self
    rw [Node.printBlocks] at hs ⊢
    simp only [List.length_cons, List.length_append] at hs
    obtain ⟨s, rfl⟩ : ∃ k, s = k + 1 := Nat.exists_eq_succ_of_ne_zero (by omega)
    obtain ⟨body', pos', hb, hu⟩ := hbody.block hd s (pos + 1) (Node.printBlocks blocks ++ rest)
      (by omega)
    obtain ⟨blocks', pos'', hbs, hus⟩ := ih (fun b hb => h b (List.mem_cons_of_mem body hb)) s pos'
      (by omega)
    refine ⟨body' :: blocks', pos'', ?_, by
      rw [Node.unplacedBlocks, Node.unplacedBlocks, hu, hus]⟩
    simp only [List.cons_append, List.append_assoc]
    rw [Read.blocks, Cursor.blockMark?_block]
    simp only [hb, Except.ok_bind, hbs]
    rfl

theorem readPath_print {ps : List String} (hne : ps ≠ []) (h : ∀ n ∈ ps, IsName n) (pos : Nat)
    (cs : List Char) : ∃ pos', readPath ⟨pos, printPath ps ++ '(' :: cs⟩ =
      .ok (ps, ⟨pos', '(' :: cs⟩) := by
  match ps, hne with
  | n :: ns, _ =>
    have hlen := Expr.Read.length_le_printPath h
    have hw : Wordless ('(' :: cs) := by
      intro c hc
      cases hc
      decide
    refine Expr.Read.path_print h ?_ hw rfl false pos
    simp only [Cursor.steps, List.length_append, List.length_cons] at hlen ⊢
    omega

theorem construct_call : construct (s + 1) d ⟨pos, '@' :: ':' :: cs⟩ =
    call s d pos ⟨pos + 2, cs⟩ := rfl

/-- **A call is read.** -/
theorem reads_call {p : Nat} {ps : List String} {args : List (Expr ⊕ List Node)}
    {blocks : List (List Node)} (hne : ps ≠ []) (hps : ∀ n ∈ ps, IsName n)
    (ha : ∀ a ∈ args, ReadsArgument d a)
    (hb : ∀ body ∈ blocks, d < maxNesting ∧ ReadsBody (d + 1) body) :
    ReadsNode d (.call p ps args blocks) := by
  intro s pos rest hs hr
  rw [Node.print] at hs ⊢
  simp only [List.length_cons, List.length_append] at hs
  obtain ⟨s, rfl⟩ : ∃ k, s = k + 2 := ⟨s - 2, by omega⟩
  have hend : Detached ((if blocks.isEmpty then [] else ['\n']) ++ rest) := by
    split
    · exact hr
    · exact hr.char (by decide) (by decide)
  obtain ⟨pos₁, hpath⟩ := readPath_print hne hps (pos + 2) (joined (Node.argumentTexts args) ++
    ')' :: (Node.printBlocks blocks ++ ((if blocks.isEmpty then [] else ['\n']) ++ rest)))
  obtain ⟨args', pos₂, hargs, hua⟩ := arguments_print ha s (pos₁ + 1)
    (Node.printBlocks blocks ++ ((if blocks.isEmpty then [] else ['\n']) ++ rest)) (by omega)
  obtain ⟨blocks', pos₃, hblocks, hub⟩ := blocks_print hend hb s pos₂ (by omega)
  have hempty : blocks'.isEmpty = blocks.isEmpty := by
    cases blocks <;> cases blocks' <;> first | rfl | simp [Node.unplacedBlocks] at hub
  refine ⟨.call pos ps args' blocks', if blocks.isEmpty then pos₃ else pos₃ + 1, ?_, by
    rw [Node.unplaced, Node.unplaced, hua, hub]⟩
  simp only [List.cons_append, List.append_assoc]
  rw [construct_call, call, hpath, Except.ok_bind]
  show (arguments s d ⟨pos₁ + 1, joined (Node.argumentTexts args) ++ ')' ::
    (Node.printBlocks blocks ++ ((if blocks.isEmpty then [] else ['\n']) ++ rest))⟩ >>= _) = _
  rw [hargs, Except.ok_bind]
  simp only [hblocks, Except.ok_bind, hempty]
  cases blocks.isEmpty <;> rfl

/-! ## All nodes -/

mutual

/-- **Every printed construct is read.** -/
theorem readsNode : ∀ {n : Node} {d : Nat}, n.Printable d → n.isText = false → ReadsNode d n
  | .text _ _, _, _, ht => by cases ht
  | .value _ _ _, _, h, _ => reads_value h.1 h.2
  | .comment _ _, _, h, _ => reads_comment h
  | .branch _ arms otherwise, _, h, _ =>
    reads_branch h.1 (readsArms h.2.1) (readsOtherwise h.2.2)
  | .loop _ _ _ body, _, h, _ => reads_loop h.1 h.2.1 h.2.2.1 (readsBody h.2.2.2)
  | .cases _ _ arms, _, h, _ => reads_cases h.1 h.2.1 (readsCases h.2.2)
  | .call _ _ args blocks, _, h, _ =>
    reads_call h.1 h.2.1 (readsArguments h.2.2.1) (readsBlocks h.2.2.2)

/-- **Every printed body is read.** -/
theorem readsBody {ns : List Node} {d : Nat} (h : Node.PrintableAll d ns) : ReadsBody d ns :=
  reads_body h (readsNodes h)

theorem readsNodes : ∀ {ns : List Node} {d : Nat}, Node.PrintableAll d ns →
    ∀ n ∈ ns, n.isText = false → ReadsNode d n
  | [], _, _, _, hm, _ => by cases hm
  | n :: ns, _, h, m, hm, ht => by
    rw [Node.PrintableAll] at h
    rcases List.mem_cons.mp hm with heq | hm
    · rw [heq] at ht ⊢
      exact readsNode h.1 ht
    · exact readsNodes h.2.1 m hm ht

theorem readsArms : ∀ {arms : List (Condition × List Node)} {d : Nat}, Node.PrintableArms d arms →
    ∀ arm ∈ arms, ReadsArm d arm
  | [], _, _, _, hm => by cases hm
  | (c, body) :: arms, _, h, arm, hm => by
    rcases List.mem_cons.mp hm with heq | hm
    · rw [heq]
      exact ⟨h.1, h.2.1, readsBody h.2.2.1⟩
    · exact readsArms h.2.2.2 arm hm

theorem readsOtherwise : ∀ {otherwise : Option (List Node)} {d : Nat},
    Node.PrintableOtherwise d otherwise →
    ∀ ns, otherwise = some ns → d < maxNesting ∧ ReadsBody (d + 1) ns
  | none, _, _, _, heq => by cases heq
  | some body, _, h, ns, heq => by
    rw [← Option.some.inj heq]
    exact ⟨h.1, readsBody h.2⟩

theorem readsCases : ∀ {arms : List (Pattern × Option Expr × List Node)} {d : Nat},
    Node.PrintableCases d arms → ∀ arm ∈ arms, ReadsCase d arm
  | [], _, _, _, hm => by cases hm
  | (p, g, body) :: arms, _, h, arm, hm => by
    rcases List.mem_cons.mp hm with heq | hm
    · rw [heq]
      exact ⟨h.1, h.2.1, h.2.2.1, readsBody h.2.2.2.1⟩
    · exact readsCases h.2.2.2.2 arm hm

theorem readsArguments : ∀ {args : List (Expr ⊕ List Node)} {d : Nat},
    Node.PrintableArguments d args → ∀ a ∈ args, ReadsArgument d a
  | [], _, _, _, hm => by cases hm
  | .inl e :: args, _, h, a, hm => by
    rcases List.mem_cons.mp hm with heq | hm
    · rw [heq]
      exact h.1
    · exact readsArguments h.2 a hm
  | .inr body :: args, _, h, a, hm => by
    rcases List.mem_cons.mp hm with heq | hm
    · rw [heq]
      exact ⟨h.1, readsBody h.2.1⟩
    · exact readsArguments h.2.2 a hm

theorem readsBlocks : ∀ {blocks : List (List Node)} {d : Nat}, Node.PrintableBlocks d blocks →
    ∀ body ∈ blocks, d < maxNesting ∧ ReadsBody (d + 1) body
  | [], _, _, _, hm => by cases hm
  | body :: blocks, _, h, b, hm => by
    rcases List.mem_cons.mp hm with heq | hm
    · rw [heq]
      exact ⟨h.1, readsBody h.2.1⟩
    · exact readsBlocks h.2.2 b hm

end

end Template.Read

/-! ## Whole templates -/

namespace Template.Read

theorem preamble_print {s : Nat} {cs : List Char} :
    preamble (s + 1) ⟨0, '@' :: '(' :: cs⟩ = .ok ([], ⟨0, '@' :: '(' :: cs⟩) := rfl

theorem params_print {s : Nat} {cs : List Char} :
    params (s + 1) [] ⟨2, ')' :: cs⟩ = .ok ([], ⟨3, cs⟩) := rfl

end Template.Read

/-- **Reading the text of a template gives its body**, positions aside. -/
theorem Outline.parse_print {ns : Body} (h : Node.PrintableAll 0 ns) :
    ∃ o, Outline.parse (Template.print ns) = .ok o ∧ o.imports = [] ∧ o.params = [] ∧
      Node.unplacedAll o.body = Node.unplacedAll ns := by
  obtain ⟨ns', pos, hb, hu⟩ := Template.Read.readsBody h false
    (⟨4, Node.printAll ns⟩ : Cursor).steps 4 ⟨4, []⟩ []
    (by simp only [Cursor.steps]; omega) rfl (.inl rfl)
  rw [List.append_nil] at hb
  refine ⟨⟨[], [], ns'⟩, ?_, rfl, rfl, hu⟩
  rw [Outline.parse, Cursor.ofText_zero, Template.print]
  show (Template.Read.preamble (_ + 1) ⟨0, '@' :: '(' :: ')' :: '\n' :: Node.printAll ns⟩ >>= _) = _
  rw [Template.Read.preamble_print, Except.ok_bind]
  show (Template.Read.params (_ + 1) [] ⟨2, ')' :: '\n' :: Node.printAll ns⟩ >>= _) = _
  rw [Template.Read.params_print, Except.ok_bind]
  show (Template.Read.body (⟨4, Node.printAll ns⟩ : Cursor).steps false 0 0 ⟨4, []⟩
    ⟨4, Node.printAll ns⟩ >>= _) = _
  rw [hb]
  rfl

/-- A branch between texts with marks, one of which looks like its `else`. -/
def markedTexts : Body :=
  [.text 0 "@if", .branch 0 [(.holds (.name 0 "x"), [.text 0 "\x7d"])] none, .text 0 "else"]

theorem writable_name : (Expr.name 0 "x").Writable := by
  have hread : (match readExpression ⟨0, ['x']⟩ with
    | .ok (.name 0 n, _) => n == "x"
    | _ => false) = true := by decide +kernel
  refine ⟨.inl ⟨⟨0, ['x']⟩, ?_⟩, fun v hv => by cases hv⟩
  split at hread
  · rename_i n c h
    rw [beq_iff_eq] at hread
    exact ⟨c, hread ▸ h⟩
  · cases hread

theorem Outline.parse_print_markedTexts : Node.PrintableAll 0 markedTexts ∧
    ∃ o, Outline.parse (Template.print markedTexts) = .ok o ∧ o.imports = [] ∧ o.params = [] ∧
      Node.unplacedAll o.body = Node.unplacedAll markedTexts := by
  have h : Node.PrintableAll 0 markedTexts := by
    simp only [markedTexts, Node.PrintableAll, Node.Printable, Node.PrintableArms,
      Node.PrintableOtherwise, Condition.Writable]
    refine ⟨by decide, ⟨⟨by simp, ⟨writable_name, by decide, ⟨by decide, trivial, ?_⟩, trivial⟩,
      trivial⟩, ⟨by decide, trivial, ?_⟩, ?_⟩, ?_⟩ <;> simp [Node.isText]
  exact ⟨h, Outline.parse_print h⟩

end Stencil
