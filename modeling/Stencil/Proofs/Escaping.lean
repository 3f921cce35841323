import Mathlib.Data.List.Chain
import Stencil.Render.Value

/-!
# What escaping keeps and removes

* `Render.unescape`: an escaped text read from left to right; `Render.IsRun`: text that stays as it
  is.
* `Render.join_piecesFrom`, `Render.isChain_piecesFrom`: what the writes of a text are.
* **`Render.escape_faithful`**: escaped text is safe and can be read back, in one piece or in many.
-/

namespace Stencil.Render

/-- **The text that an escaped text stands for**: each entity is replaced by its character, from
left to right. -/
def unescape : List Char → List Char
  | '&' :: 'a' :: 'm' :: 'p' :: ';' :: cs => '&' :: unescape cs
  | '&' :: 'l' :: 't' :: ';' :: cs => '<' :: unescape cs
  | '&' :: 'g' :: 't' :: ';' :: cs => '>' :: unescape cs
  | '&' :: 'q' :: 'u' :: 'o' :: 't' :: ';' :: cs => '"' :: unescape cs
  | '&' :: '#' :: 'x' :: '2' :: '7' :: ';' :: cs => '\'' :: unescape cs
  | c :: cs => c :: unescape cs
  | [] => []

/-- A write in which nothing had to be replaced. -/
def IsRun (w : String) : Prop := ∀ c ∈ w.toList, entity? c = none

/-- A write that replaces a character. -/
def IsEntity (w : String) : Prop := ∃ c, entity? c = some w

/-- Not both writes are runs. -/
def Apart (v w : String) : Prop := ¬ (IsRun v ∧ IsRun w)

variable {c : Char} {e s : String} {cs : List Char}

/-! ## Entities -/

theorem entity?_eq_some : entity? c = some e ↔
    c = '&' ∧ e = "&amp;" ∨ c = '<' ∧ e = "&lt;" ∨ c = '>' ∧ e = "&gt;" ∨ c = '"' ∧ e = "&quot;" ∨
      c = '\'' ∧ e = "&#x27;" := by
  unfold entity?
  split <;> simp_all [eq_comm]

/-- A character without an entity means nothing in markup. -/
theorem not_mem_of_entity?_eq_none (h : entity? c = none) : c ∉ ['&', '<', '>', '"', '\''] := by
  intro hc
  simp only [List.mem_cons, List.not_mem_nil, or_false] at hc
  rcases hc with rfl | rfl | rfl | rfl | rfl <;> cases h

/-- **An entity starts with an ampersand** and holds nothing else that means something in markup. -/
theorem toList_entity (h : entity? c = some e) :
    ∃ tail, e.toList = '&' :: tail ∧ ∀ a ∈ tail, entity? a = none := by
  rcases entity?_eq_some.mp h with ⟨-, rfl⟩ | ⟨-, rfl⟩ | ⟨-, rfl⟩ | ⟨-, rfl⟩ | ⟨-, rfl⟩
  · exact ⟨"amp;".toList, rfl, List.forall_iff_forall_mem.mp ⟨rfl, rfl, rfl, rfl⟩⟩
  · exact ⟨"lt;".toList, rfl, List.forall_iff_forall_mem.mp ⟨rfl, rfl, rfl⟩⟩
  · exact ⟨"gt;".toList, rfl, List.forall_iff_forall_mem.mp ⟨rfl, rfl, rfl⟩⟩
  · exact ⟨"quot;".toList, rfl, List.forall_iff_forall_mem.mp ⟨rfl, rfl, rfl, rfl, rfl⟩⟩
  · exact ⟨"#x27;".toList, rfl, List.forall_iff_forall_mem.mp ⟨rfl, rfl, rfl, rfl, rfl⟩⟩

theorem IsEntity.not_isRun (h : IsEntity e) : ¬ IsRun e := by
  obtain ⟨c, hc⟩ := h
  obtain ⟨tail, htail, -⟩ := toList_entity hc
  intro hrun
  have hand := hrun '&' (htail ▸ List.mem_cons_self)
  cases hand

theorem IsEntity.ne_empty (h : IsEntity e) : e ≠ "" := by
  rintro rfl
  exact h.not_isRun fun c hc => by cases hc

theorem escapeChar_of_some (h : entity? c = some e) : escapeChar c = e.toList := by
  rw [escapeChar, h]

theorem escapeChar_of_none (h : entity? c = none) : escapeChar c = [c] := by
  rw [escapeChar, h]

/-! ## The writes of a text -/

theorem toList_join_cons (w : String) (ws : List String) :
    (String.join (w :: ws)).toList = w.toList ++ (String.join ws).toList := by
  rw [String.join_cons, String.toList_append]

theorem toList_join_run (cs : List Char) (ws : List String) :
    (String.join (run cs ++ ws)).toList = cs ++ (String.join ws).toList := by
  unfold run
  split
  · rename_i hempty
    rw [List.isEmpty_iff.mp hempty]
    rfl
  · rw [List.singleton_append, toList_join_cons, String.toList_ofList]

/-- **The writes of a text make up the escaped text.** -/
theorem join_piecesFrom (before cs : List Char) :
    (String.join (piecesFrom before cs)).toList = before.reverse ++ cs.flatMap escapeChar := by
  induction cs generalizing before with
  | nil =>
    have hrun := toList_join_run before.reverse []
    rw [List.append_nil] at hrun
    exact hrun
  | cons c cs ih =>
    rw [piecesFrom, List.flatMap_cons]
    split
    · rename_i e he
      rw [toList_join_run, toList_join_cons, ih, escapeChar_of_some he]
      rfl
    · rename_i hnone
      rw [ih, escapeChar_of_none hnone, List.reverse_cons, List.append_assoc]

/-- A run that is written, if there is any. -/
theorem mem_run {before : List Char} {w : String} (hbefore : ∀ c ∈ before, entity? c = none)
    (h : w ∈ run before.reverse) : w ≠ "" ∧ IsRun w := by
  unfold run at h
  split at h
  · cases h
  · rename_i hempty
    rw [List.mem_singleton] at h
    subst h
    refine ⟨fun he => hempty ?_, fun c hc => hbefore c ?_⟩
    · rw [String.ofList_eq_empty_iff.mp he]
      rfl
    · rwa [String.toList_ofList, List.mem_reverse] at hc

/-- A run may stand before writes of which the first is no run. -/
theorem isChain_run_append (cs : List Char) {ws : List String} (hws : ws.IsChain Apart)
    (hhead : ∀ w ∈ ws.head?, ¬ IsRun w) : (run cs ++ ws).IsChain Apart := by
  unfold run
  split
  · exact hws
  · exact List.IsChain.cons hws fun w hw hrun => hhead w hw hrun.2

/-- **Every write is an entity or a run that is not empty**, and no run follows a run. -/
theorem isChain_piecesFrom {before : List Char} (hbefore : ∀ c ∈ before, entity? c = none)
    (cs : List Char) :
    (∀ w ∈ piecesFrom before cs, w ≠ "" ∧ (IsRun w ∨ IsEntity w)) ∧
      (piecesFrom before cs).IsChain Apart := by
  induction cs generalizing before with
  | nil =>
    have hlast := isChain_run_append before.reverse .nil (by simp)
    rw [List.append_nil] at hlast
    exact ⟨fun w hw => (mem_run hbefore hw).imp_right .inl, hlast⟩
  | cons c cs ih =>
    rw [piecesFrom]
    split
    · rename_i e he
      have hentity : IsEntity e := ⟨c, he⟩
      obtain ⟨hwrites, hrest⟩ := ih (List.forall_mem_nil _)
      refine ⟨fun w hw => ?_, isChain_run_append _ ?_ ?_⟩
      · rcases List.mem_append.mp hw with hw | hw
        · exact (mem_run hbefore hw).imp_right .inl
        · rcases List.mem_cons.mp hw with rfl | hw
          · exact ⟨hentity.ne_empty, .inr hentity⟩
          · exact hwrites w hw
      · exact List.IsChain.cons hrest fun _ _ hrun => hentity.not_isRun hrun.1
      · rintro w ⟨⟩
        exact hentity.not_isRun
    · rename_i hnone
      exact ih (List.forall_mem_cons.mpr ⟨hnone, hbefore⟩)

/-! ## The escaped text -/

/-- An escaped text holds no quotation mark and no angle bracket. -/
theorem not_mem_flatMap_escapeChar {a : Char} (ha : a ∈ ['<', '>', '"', '\'']) (cs : List Char) :
    a ∉ cs.flatMap escapeChar := by
  intro hmem
  obtain ⟨c, -, hc⟩ := List.mem_flatMap.mp hmem
  have hspecial : ¬ entity? a = none ∧ a ≠ '&' := by
    simp only [List.mem_cons, List.not_mem_nil, or_false] at ha
    rcases ha with rfl | rfl | rfl | rfl <;> decide
  cases he : entity? c with
  | none =>
    rw [escapeChar_of_none he, List.mem_singleton] at hc
    exact hspecial.1 (hc ▸ he)
  | some e =>
    obtain ⟨tail, htail, hplain⟩ := toList_entity he
    rw [escapeChar_of_some he, htail, List.mem_cons] at hc
    exact hc.elim hspecial.2 fun hc => hspecial.1 (hplain a hc)

/-- **Every ampersand of an escaped text starts an entity.** -/
theorem entity_of_ampersand {left right : List Char}
    (h : cs.flatMap escapeChar = left ++ '&' :: right) :
    ∃ e, IsEntity e ∧ e.toList <+: '&' :: right := by
  induction cs generalizing left with
  | nil => simp at h
  | cons c cs ih =>
    rw [List.flatMap_cons] at h
    rcases List.append_eq_append_iff.mp h with ⟨l, rfl, hl⟩ | ⟨l, hl, hright⟩
    · exact ih hl
    · cases l with
      | nil => exact ih (hright.symm.trans (List.nil_append _).symm)
      | cons a l =>
        obtain ⟨rfl, rfl⟩ := List.cons.inj hright
        -- the ampersand stands in what is written for `c`
        cases he : entity? c with
        | none =>
          have hmem : '&' ∈ escapeChar c := by
            rw [hl]
            exact List.mem_append_right _ List.mem_cons_self
          rw [escapeChar_of_none he, List.mem_singleton] at hmem
          rw [← hmem] at he
          cases he
        | some e =>
          obtain ⟨tail, htail, hplain⟩ := toList_entity he
          rw [escapeChar_of_some he, htail] at hl
          cases left with
          | nil =>
            refine ⟨e, ⟨c, he⟩, ?_⟩
            rw [htail, hl]
            exact List.prefix_append _ _
          | cons b left =>
            have hmem : '&' ∈ tail := by
              rw [(List.cons.inj hl).2]
              exact List.mem_append_right _ List.mem_cons_self
            cases hplain '&' hmem

/-- What does not start with an ampersand is read as it is. -/
theorem unescape_cons (h : c ≠ '&') (cs : List Char) : unescape (c :: cs) = c :: unescape cs := by
  conv_lhs => unfold unescape
  split <;> simp_all

/-- **Reading undoes escaping**, whatever entities the text itself spells out. -/
theorem unescape_flatMap_escapeChar (cs : List Char) : unescape (cs.flatMap escapeChar) = cs := by
  induction cs with
  | nil => rfl
  | cons c cs ih =>
    rw [List.flatMap_cons]
    cases he : entity? c with
    | none =>
      have hc : c ≠ '&' := fun hc => not_mem_of_entity?_eq_none he (hc ▸ List.mem_cons_self)
      rw [escapeChar_of_none he, List.singleton_append, unescape_cons hc, ih]
    | some e =>
      rw [escapeChar_of_some he]
      rcases entity?_eq_some.mp he with
        ⟨rfl, rfl⟩ | ⟨rfl, rfl⟩ | ⟨rfl, rfl⟩ | ⟨rfl, rfl⟩ | ⟨rfl, rfl⟩
      all_goals
        conv_rhs => rw [← ih]
        rfl

/-- **Escaping is safe, can be undone, and does not depend on how a text is written.** The writes of
a text make up the escaped text; each is an entity or a run of characters that stay as they are,
none is empty and no run follows a run. The escaped text holds no quotation mark and no angle
bracket, each ampersand in it starts an entity, and reading the entities from left to right gives
the text back. A text is escaped part by part. -/
theorem escape_faithful (s : String) :
    String.join (pieces s) = escape s ∧
    (∀ w ∈ pieces s, w ≠ "" ∧ (IsRun w ∨ IsEntity w)) ∧
    (pieces s).IsChain Apart ∧
    (∀ a ∈ ['<', '>', '"', '\''], a ∉ (escape s).toList) ∧
    (∀ left right, (escape s).toList = left ++ '&' :: right →
      ∃ e, IsEntity e ∧ e.toList <+: '&' :: right) ∧
    String.ofList (unescape (escape s).toList) = s ∧
    ∀ t, escape (s ++ t) = escape s ++ escape t := by
  have htext (t : String) : (escape t).toList = t.toList.flatMap escapeChar := String.toList_ofList
  obtain ⟨hwrites, hchain⟩ := isChain_piecesFrom (List.forall_mem_nil _) s.toList
  refine ⟨?_, hwrites, hchain, fun a ha => ?_, fun left right h => ?_, ?_, fun t => ?_⟩
  · rw [String.ext_iff, htext, pieces, join_piecesFrom]
    rfl
  · rw [htext]
    exact not_mem_flatMap_escapeChar ha _
  · rw [htext] at h
    exact entity_of_ampersand h
  · rw [htext, unescape_flatMap_escapeChar, String.ofList_toList]
  · rw [String.ext_iff, String.toList_append, htext, htext, htext, String.toList_append,
      List.flatMap_append]

end Stencil.Render
