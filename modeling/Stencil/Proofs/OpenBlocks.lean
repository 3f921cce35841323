import Stencil.Proofs.TemplateCalls

/-!
# Blocks that are open

The functions that read bodies count the blocks and matches they are in. What happens while a text
is read, be it read to its end or refused, is a list of moments: a function is called, or a brace of
a block or a match is met or closed. The count is the number of braces met so far and not yet
closed, as a call that succeeds closes what it has opened.

* `Template.Read.Moment`, `Template.Read.Call.moments`: the moments of a call.
* `Template.Read.Counts`: moments at which the count is right.
* `Template.Read.tooDeep_iff`: a call fails as its blocks are too deep if it meets such a brace.
* `Node.levelsAll`: how deep blocks are nested in a body.
* `Template.Read.peak_moments`: the nesting of what is read is the highest count.
* **`Outline.counts_open_blocks`**: the count, the limit, and the failure.
-/

namespace Stencil

open Text Expr

/-! ## The nesting of a body -/

namespace Node

mutual

/-- **How deep blocks are nested in a node**: a match counts as one, and each of its arms as another
one inside it. -/
def levels : Node → Nat
  | .text _ _ | .value _ _ _ | .comment _ _ => 0
  | .branch _ arms otherwise => max (armLevels arms) (otherwiseLevels otherwise)
  | .loop _ _ _ body => 1 + levelsAll body
  | .cases _ _ arms => 1 + caseLevels arms
  | .call _ _ args blocks => max (argumentLevels args) (blockLevels blocks)

/-- How deep blocks are nested in a body: as deep as in one of its nodes. -/
def levelsAll : List Node → Nat
  | [] => 0
  | n :: ns => max n.levels (levelsAll ns)

/-- How deep blocks are nested in arms. -/
def armLevels : List (Condition × List Node) → Nat
  | [] => 0
  | (_, body) :: arms => max (1 + levelsAll body) (armLevels arms)

/-- How deep blocks are nested in what is done if no arm is taken. -/
def otherwiseLevels : Option (List Node) → Nat
  | none => 0
  | some body => 1 + levelsAll body

/-- How deep blocks are nested in cases. -/
def caseLevels : List (Pattern × Option Expr × List Node) → Nat
  | [] => 0
  | (_, _, body) :: arms => max (1 + levelsAll body) (caseLevels arms)

/-- How deep blocks are nested in arguments. -/
def argumentLevels : List (Expr ⊕ List Node) → Nat
  | [] => 0
  | .inl _ :: args => argumentLevels args
  | .inr body :: args => max (1 + levelsAll body) (argumentLevels args)

/-- How deep blocks are nested in blocks. -/
def blockLevels : List (List Node) → Nat
  | [] => 0
  | body :: blocks => max (1 + levelsAll body) (blockLevels blocks)

end

/-- **Siblings do not add up.** -/
theorem levelsAll_append (ns ms : List Node) :
    levelsAll (ns ++ ms) = max (levelsAll ns) (levelsAll ms) := by
  induction ns with
  | nil => simp [levelsAll]
  | cons n ns ih => rw [List.cons_append, levelsAll, levelsAll, ih, Nat.max_assoc]

end Node

namespace Template.Read

/-! ## Moments -/

/-- **A moment of reading a body**, with the number of blocks that is counted at it: a function is
called, or a brace opens a block or a match, or the brace that has opened one is closed. -/
inductive Moment where
  | call (depth : Nat)
  | opens (depth position : Nat)
  | closes (depth position : Nat)
  deriving DecidableEq, Repr

namespace Moment

/-- The number of blocks that is counted. -/
def depth : Moment → Nat
  | call d | opens d _ | closes d _ => d

/-- The number of braces that have been met. -/
def opened (ms : List Moment) : Nat := ms.countP fun | opens .. => true | _ => false

/-- The number of braces that have been closed. -/
def closed (ms : List Moment) : Nat := ms.countP fun | closes .. => true | _ => false

/-- The highest number of blocks that a brace of a list leads to. -/
def peak : List Moment → Nat
  | [] => 0
  | opens d _ :: ms => max (d + 1) (peak ms)
  | _ :: ms => peak ms

variable (ms ms' : List Moment)

@[simp] theorem opened_append : opened (ms ++ ms') = opened ms + opened ms' := List.countP_append

@[simp] theorem closed_append : closed (ms ++ ms') = closed ms + closed ms' := List.countP_append

@[simp] theorem peak_append : peak (ms ++ ms') = max (peak ms) (peak ms') := by
  induction ms with
  | nil => simp [peak]
  | cons m ms ih => cases m <;> simp [peak, ih, Nat.max_assoc]

theorem peak_le {ms : List Moment} {n : Nat} (h : ∀ d p, opens d p ∈ ms → d < n) :
    peak ms ≤ n := by
  induction ms with
  | nil => exact Nat.zero_le _
  | cons m ms ih =>
    have hrest := ih fun d p hm => h d p (List.mem_cons_of_mem _ hm)
    cases m with
    | opens d p => exact Nat.max_le.mpr ⟨h d p (List.mem_cons_self ..), hrest⟩
    | _ => exact hrest

end Moment

open Moment

/-- **The count is right at each of the moments**, with `d` blocks open before them. -/
def Counts : Nat → List Moment → Prop
  | _, [] => True
  | d, .call d' :: ms => d' = d ∧ Counts d ms
  | d, .opens d' _ :: ms => d' = d ∧ Counts (d + 1) ms
  | d, .closes d' _ :: ms => d' = d ∧ 0 < d ∧ Counts (d - 1) ms

theorem Counts.append {d d' : Nat} {ms ms' : List Moment} (h : Counts d ms)
    (hd : d + opened ms = d' + closed ms) (h' : Counts d' ms') : Counts d (ms ++ ms') := by
  induction ms generalizing d with
  | nil =>
    obtain rfl : d = d' := hd
    exact h'
  | cons m ms ih =>
    cases m with
    | call e => exact ⟨h.1, ih h.2 (by simpa [opened, closed] using hd)⟩
    | opens e p =>
      refine ⟨h.1, ih h.2 ?_⟩
      simp only [opened, closed, List.countP_cons] at hd ⊢
      simp at hd
      omega
    | closes e p =>
      obtain ⟨rfl, hpos, h⟩ := h
      refine ⟨rfl, hpos, ih h ?_⟩
      simp only [opened, closed, List.countP_cons] at hd ⊢
      simp at hd
      omega

/-- **The count is the number of braces that have been met and not yet closed.** -/
theorem Counts.depth_eq {d : Nat} {before after : List Moment} {m : Moment}
    (h : Counts d (before ++ m :: after)) : m.depth + closed before = d + opened before := by
  induction before generalizing d with
  | nil => cases m <;> exact h.1
  | cons n before ih =>
    cases n with
    | call e => simpa [opened, closed] using ih h.2
    | opens e p =>
      have := ih h.2
      simp [opened, closed] at this ⊢
      omega
    | closes e p =>
      obtain ⟨rfl, hpos, h⟩ := h
      have := ih h
      simp [opened, closed] at this ⊢
      omega

namespace Call

/-- The brace that a call opens itself, as a moment. -/
def opening (t : Call) : List Moment :=
  match t.brace? with
  | some p => [.opens t.depth p]
  | none => []

/-- The end of what a call has opened itself, as a moment: a call that fails does not close it. -/
def closing (s : Nat) (t : Call) : List Moment :=
  match t.brace?, t.run s with
  | some p, .ok _ => [.closes (t.depth + 1) p]
  | some _, .error _ => []
  | none, _ => []

/-- **The moments of a call** in a number of steps. -/
def moments : Nat → Call → List Moment
  | 0, _ => []
  | s + 1, t =>
    .call t.depth :: (t.opening ++ ((t.starts s).flatMap (moments s) ++ t.closing (s + 1)))

/-- The call returns something. -/
def Succeeds (s : Nat) (t : Call) : Prop := ∃ a, t.run s = .ok a

variable {s p : Nat} {t u : Call}

theorem mem_opening {m : Moment} :
    m ∈ t.opening ↔ ∃ p, t.brace? = some p ∧ m = .opens t.depth p := by
  unfold opening
  cases t.brace? <;> simp

theorem of_mem_closing {m : Moment} (hm : m ∈ t.closing s) :
    ∃ p, t.brace? = some p ∧ t.Succeeds s ∧ m = .closes (t.depth + 1) p := by
  unfold closing at hm
  split at hm
  · rename_i p a hbrace hrun
    exact ⟨p, hbrace, ⟨a, hrun⟩, List.mem_singleton.mp hm⟩
  · cases hm
  · cases hm

/-- The calls that a call makes succeed if it does. -/
theorem Succeeds.starts (h : t.Succeeds (s + 1)) (hu : u ∈ t.starts s) : u.Succeeds s := by
  obtain ⟨a, ha⟩ := h
  cases hrun : u.run s with
  | ok b => exact ⟨b, hrun⟩
  | error f =>
    have hfails := fails_of_starts hu (run_error_iff.mp hrun)
    rw [run_error_iff.mpr hfails] at ha
    cases ha

/-! ### The brace of a call -/

/-- What a match looks like. -/
theorem match_of_brace? {d : Nat} {c : Cursor} (h : (construct d c).brace? = some p) : ∃ a v b,
    c.comment? = none ∧ ¬ (c.skip 1).startsWith ":" = true ∧ ¬ (c.skip 1).startsWith "!" = true ∧
      (c.skip 1).keyword? = some (.match, a) ∧ readExpression a = .ok (v, b) ∧
      b.skipBlank.startsWith "\x7b" = true ∧ b.skipBlank.position = p := by
  simp only [brace?] at h
  split at h
  · cases h
  · rename_i hcomment
    split at h
    · cases h
    · split at h
      · cases h
      · split at h
        · rename_i a hword
          split at h
          · rename_i v b hv
            split at h
            · exact ⟨a, v, b, hcomment, ‹_›, ‹_›, hword, hv, ‹_›, Option.some.inj h⟩
            · cases h
          · cases h
        · cases h

/-- **A brace that is one too many is refused.** -/
theorem run_of_brace? (h : t.brace? = some p) (hd : ¬ t.depth < maxNesting) :
    t.run (s + 1) = .error (.at (.blocksTooDeep maxNesting) p) := by
  have henter : enter t.depth p = .error (.at (.blocksTooDeep maxNesting) p) := if_neg hd
  cases t with
  | block d c =>
    simp only [brace?] at h
    split at h
    · rename_i hopening
      obtain rfl := Option.some.inj h
      simp only [depth] at henter
      simp only [run, Read.block, if_pos hopening, henter]
      rfl
    · cases h
  | construct d c =>
    obtain ⟨a, v, b, hcomment, hcolon, hbang, hword, hv, hopening, rfl⟩ := match_of_brace? h
    simp only [depth] at henter
    simp only [run, Read.construct, hcomment, if_neg hcolon, if_neg hbang, hword, hv,
      Except.ok_bind, if_pos hopening, henter]
    rfl
  | _ => cases h

/-- Going one block deeper is allowed up to the limit. -/
theorem lt_of_enter {d d' : Nat} (h : enter d p = .ok d') : d < maxNesting ∧ d' = d + 1 := by
  unfold enter at h
  split at h
  · exact ⟨‹_›, (Except.ok.inj h).symm⟩
  · cases h

/-- **A call counts one block more than its caller** if the caller has opened one. -/
theorem depth_of_starts (hu : u ∈ t.starts s) : (t.brace? = none ∧ u.depth = t.depth) ∨
    (∃ p, t.brace? = some p) ∧ t.depth < maxNesting ∧ u.depth = t.depth + 1 := by
  cases t with
  | body | branches | cases | call | arguments | argument | blocks =>
    left
    simp only [starts] at hu
    grind [mem_after, depth, brace?]
  | block d c =>
    right
    simp only [starts] at hu
    split at hu
    · rename_i hopening
      obtain ⟨d', hd, hu⟩ := mem_after.mp hu
      obtain rfl := List.mem_singleton.mp hu
      exact ⟨⟨_, if_pos hopening⟩, lt_of_enter hd⟩
    · cases hu
  | construct d c =>
    simp only [starts] at hu
    split at hu
    · cases hu
    · rename_i hcomment
      simp only [brace?, hcomment]
      split at hu
      · rename_i hcolon
        obtain rfl := List.mem_singleton.mp hu
        exact .inl ⟨if_pos hcolon, rfl⟩
      · rename_i hcolon
        rw [if_neg hcolon]
        split at hu
        · cases hu
        · rename_i hbang
          rw [if_neg hbang]
          split at hu
          · rename_i hword
            obtain rfl := List.mem_singleton.mp hu
            exact .inl ⟨by rw [hword], rfl⟩
          · rename_i hword
            obtain ⟨⟨q, b⟩, -, hu⟩ := mem_after.mp hu
            simp only at hu
            split at hu
            · obtain ⟨⟨v, g⟩, -, hu⟩ := mem_after.mp hu
              obtain rfl := List.mem_singleton.mp hu
              exact .inl ⟨by rw [hword], rfl⟩
            · cases hu
          · rename_i hword
            obtain ⟨⟨v, b⟩, hv, hu⟩ := mem_after.mp hu
            simp only at hu
            split at hu
            · rename_i hopening
              obtain ⟨d', hd, hu⟩ := mem_after.mp hu
              obtain rfl := List.mem_singleton.mp hu
              exact .inr ⟨⟨b.skipBlank.position, by simp [hword, hv, hopening]⟩,
                lt_of_enter hd⟩
            · cases hu
          · cases hu

/-! ### The count -/

/-- The calls that come after a reading succeed but for the last one. -/
theorem pairwise_after {α : Type} {r : Except Failure α} {k : α → List Call}
    (h : ∀ a, r = .ok a → (k a).Pairwise fun v _ => v.Succeeds s) :
    (after r k).Pairwise fun v _ => v.Succeeds s := by
  cases r with
  | ok a => exact h a rfl
  | error f => exact .nil

/-- A call whose result decides on the calls after it. -/
theorem pairwise_cons_after {α : Type} {r : Except Failure α} {k : α → List Call}
    (h : ∀ a, r = .ok a → t.Succeeds s ∧ (k a).Pairwise fun v _ => v.Succeeds s) :
    (t :: after r k).Pairwise fun v _ => v.Succeeds s := by
  cases r with
  | ok a =>
    obtain ⟨ht, hk⟩ := h a rfl
    exact .cons (fun _ _ => ht) hk
  | error f => exact List.pairwise_singleton ..

/-- **A call is made when those before it have succeeded.** -/
theorem pairwise_starts (s : Nat) (t : Call) : (t.starts s).Pairwise fun v _ => v.Succeeds s := by
  have hone {u : Call} : [u].Pairwise fun v _ => v.Succeeds s := List.pairwise_singleton ..
  cases t with
  | body =>
    simp only [starts]
    split
    · exact hone
    · split
      · exact pairwise_cons_after fun a ha => ⟨⟨a, ha⟩, hone⟩
      · exact .nil
  | block =>
    simp only [starts]
    split
    · exact pairwise_after fun _ _ => hone
    · exact .nil
  | construct =>
    simp only [starts]
    split
    · exact .nil
    · split
      · exact hone
      · split
        · exact .nil
        · split
          · exact hone
          · refine pairwise_after fun _ _ => ?_
            split
            · exact pairwise_after fun _ _ => hone
            · exact .nil
          · refine pairwise_after fun _ _ => ?_
            split
            · exact pairwise_after fun _ _ => hone
            · exact .nil
          · exact .nil
  | branches =>
    refine pairwise_after fun _ _ => pairwise_cons_after fun a ha => ⟨⟨a, ha⟩, ?_⟩
    simp only
    split
    · exact .nil
    · split <;> exact hone
  | cases =>
    refine pairwise_after fun _ _ => ?_
    split
    · exact .nil
    · split
      · exact .nil
      · refine pairwise_after fun _ _ => pairwise_after fun _ _ => ?_
        simp only
        split
        · exact pairwise_cons_after fun a ha => ⟨⟨a, ha⟩, pairwise_after fun _ _ => hone⟩
        · exact .nil
  | call =>
    refine pairwise_after fun _ _ => ?_
    simp only
    split
    · exact pairwise_cons_after fun a ha => ⟨⟨a, ha⟩, hone⟩
    · exact .nil
  | arguments =>
    simp only [starts]
    split
    · exact .nil
    · refine pairwise_cons_after fun a ha => ⟨⟨a, ha⟩, ?_⟩
      split
      · exact hone
      · exact .nil
  | argument =>
    simp only [starts]
    split
    · exact hone
    · exact .nil
  | blocks =>
    simp only [starts]
    split
    · exact .nil
    · exact pairwise_cons_after fun a ha => ⟨⟨a, ha⟩, hone⟩

/-- What has been opened in several calls is closed in them. -/
theorem opened_flatMap {us : List Call}
    (h : ∀ u ∈ us, opened (u.moments s) = closed (u.moments s)) :
    opened (us.flatMap (moments s)) = closed (us.flatMap (moments s)) := by
  induction us with
  | nil => rfl
  | cons u us ih =>
    rw [List.forall_mem_cons] at h
    rw [List.flatMap_cons, opened_append, closed_append, h.1, ih h.2]

/-- The count is right in calls one after the other, all but the last of which succeed. -/
theorem counts_flatMap {d : Nat} {us : List Call} (hus : us.Pairwise fun v _ => v.Succeeds s)
    (h : ∀ u ∈ us, Counts d (u.moments s) ∧
      (u.Succeeds s → opened (u.moments s) = closed (u.moments s))) :
    Counts d (us.flatMap (moments s)) := by
  induction us with
  | nil => trivial
  | cons u us ih =>
    rw [List.forall_mem_cons] at h
    rw [List.pairwise_cons] at hus
    rw [List.flatMap_cons]
    cases us with
    | nil =>
      rw [List.flatMap_nil, List.append_nil]
      exact h.1.1
    | cons v us =>
      have hu := h.1.2 (hus.1 v (List.mem_cons_self ..))
      exact h.1.1.append (by rw [hu]) (ih hus.2 h.2)

/-- **The count is right at each moment of a call, and a call that succeeds closes what it has
opened.** -/
theorem counts_moments (s : Nat) (t : Call) : Counts t.depth (t.moments s) ∧
    (t.Succeeds s → opened (t.moments s) = closed (t.moments s)) := by
  induction s generalizing t with
  | zero => exact ⟨trivial, fun _ => rfl⟩
  | succ s ih =>
    have hclosed (ht : t.Succeeds (s + 1)) : opened ((t.starts s).flatMap (moments s)) =
        closed ((t.starts s).flatMap (moments s)) :=
      opened_flatMap fun u hu => (ih u).2 (ht.starts hu)
    rw [moments]
    cases hbrace : t.brace? with
    | none =>
      have hinner : Counts t.depth ((t.starts s).flatMap (moments s)) := by
        refine counts_flatMap (pairwise_starts s t) fun u hu => ?_
        rcases depth_of_starts hu with ⟨-, hd⟩ | ⟨⟨p, hp⟩, -⟩
        · rw [← hd]
          exact ih u
        · rw [hbrace] at hp
          cases hp
      simp only [opening, closing, hbrace, List.nil_append, List.append_nil]
      exact ⟨⟨rfl, hinner⟩, hclosed⟩
    | some p =>
      have hinner : Counts (t.depth + 1) ((t.starts s).flatMap (moments s)) := by
        refine counts_flatMap (pairwise_starts s t) fun u hu => ?_
        rcases depth_of_starts hu with ⟨hp, -⟩ | ⟨-, -, hd⟩
        · rw [hbrace] at hp
          cases hp
        · rw [← hd]
          exact ih u
      simp only [opening, closing, hbrace, List.singleton_append]
      cases hrun : t.run (s + 1) with
      | error f =>
        simp only [List.append_nil]
        refine ⟨⟨rfl, rfl, hinner⟩, fun ⟨a, ha⟩ => ?_⟩
        rw [hrun] at ha
        cases ha
      | ok a =>
        have hclosed := hclosed ⟨a, hrun⟩
        have hcounts := hinner.append (by rw [hclosed])
          (show Counts (t.depth + 1) [.closes (t.depth + 1) p] from ⟨rfl, Nat.succ_pos _, trivial⟩)
        refine ⟨⟨rfl, rfl, hcounts⟩, fun _ => ?_⟩
        simp only [opened, closed] at hclosed
        simp [opened, closed, hclosed]

/-- **No more blocks are counted than are allowed.** -/
theorem depth_le {m : Moment} (ht : t.depth ≤ maxNesting) (hm : m ∈ t.moments s) :
    m.depth ≤ maxNesting := by
  induction s generalizing t with
  | zero => cases hm
  | succ s ih =>
    rw [moments, List.mem_cons, List.mem_append, List.mem_append] at hm
    rcases hm with rfl | hm | hm | hm
    · exact ht
    · obtain ⟨p, -, rfl⟩ := mem_opening.mp hm
      exact ht
    · obtain ⟨u, hu, hm⟩ := List.mem_flatMap.mp hm
      refine ih ?_ hm
      rcases depth_of_starts hu with ⟨-, hd⟩ | ⟨-, hlt, hd⟩ <;> omega
    · obtain ⟨p, hbrace, ⟨a, hrun⟩, rfl⟩ := of_mem_closing hm
      by_contra hgt
      rw [run_of_brace? hbrace (by simp only [Moment.depth] at hgt; omega)] at hrun
      cases hrun

/-- **What opens a block or a match is a brace of the text.** -/
theorem getElem?_of_opens {text : List Char} {d : Nat} (hin : t.cursor.In text) (hat : t.AtMark)
    (hm : .opens d p ∈ t.moments s) : text[p]? = some '\x7b' := by
  have hbrace {c : Cursor} (hc : c.In text) (h : c.startsWith "\x7b" = true) :
      text[c.position]? = some '\x7b' := hc.getElem? (Cursor.past_of_startsWith h)
  induction s generalizing t with
  | zero => cases hm
  | succ s ih =>
    simp only [moments, List.mem_cons, List.mem_append, reduceCtorEq, false_or] at hm
    rcases hm with hm | hm | hm
    · obtain ⟨q, hq, hm⟩ := mem_opening.mp hm
      obtain ⟨-, rfl⟩ := Moment.opens.inj hm
      cases t with
      | block d c =>
        simp only [brace?] at hq
        split at hq
        · obtain rfl := Option.some.inj hq
          exact hbrace (hin.reaches c.reaches_skipBlank) ‹_›
        · cases hq
      | construct d c =>
        obtain ⟨a, v, b, -, -, -, hword, hv, hopening, rfl⟩ := match_of_brace? hq
        obtain ⟨e, -, hpast⟩ := Cursor.past_keyword? hword
        have hmark := (Cursor.past_of_startsWith (s := "@") hat).reaches
        exact hbrace (hin.reaches (hmark.trans (hpast.reaches.trans
          ((ends_of_readExpression hv).reaches.trans b.reaches_skipBlank)))) hopening
      | _ => cases hq
    · obtain ⟨u, hu, hm⟩ := List.mem_flatMap.mp hm
      have hfollows := follows_of_starts hat hu
      exact ih (hin.reaches hfollows.reaches) hfollows.atMark hm
    · obtain ⟨q, -, -, hm⟩ := of_mem_closing hm
      cases hm

/-! ### The failure -/

/-- **A call fails as its blocks are too deep if it meets the brace of one that is**, and only
then. -/
theorem tooDeep_iff {limit : Nat} : t.run s = .error (.at (.blocksTooDeep limit) p) ↔
    limit = maxNesting ∧ ∃ d, ¬ d < maxNesting ∧ .opens d p ∈ t.moments s := by
  induction s generalizing t with
  | zero =>
    have hzero : t.run 0 = .error .outOfSteps := by cases t <;> rfl
    rw [hzero]
    simp [moments]
  | succ s ih =>
    rw [moments]
    constructor
    · intro h
      rcases Reader.raises_or_starts (R := reader) h with hraises | ⟨u, hu, hfails⟩
      · rcases hraises with hordinary | ⟨q, hbrace, hd, heq⟩
        · exact hordinary.elim
        · cases heq
          refine ⟨rfl, t.depth, hd, ?_⟩
          exact List.mem_cons_of_mem _ (List.mem_append_left _ (mem_opening.mpr ⟨p, hbrace, rfl⟩))
      · obtain ⟨hlimit, d, hd, hm⟩ := ih.mp hfails
        refine ⟨hlimit, d, hd, ?_⟩
        have hinner := List.mem_flatMap.mpr ⟨u, hu, hm⟩
        exact List.mem_cons_of_mem _ (List.mem_append_right _ (List.mem_append_left _ hinner))
    · rintro ⟨rfl, d, hd, hm⟩
      simp only [List.mem_cons, List.mem_append, reduceCtorEq, false_or] at hm
      rcases hm with hm | hm | hm
      · obtain ⟨q, hbrace, hm⟩ := mem_opening.mp hm
        obtain ⟨rfl, rfl⟩ := Moment.opens.inj hm
        exact run_of_brace? hbrace hd
      · obtain ⟨u, hu, hm⟩ := List.mem_flatMap.mp hm
        have hfails := ih.mpr ⟨rfl, d, hd, hm⟩
        exact run_error_iff.mpr (fails_of_starts hu (run_error_iff.mp hfails))
      · obtain ⟨q, -, -, hm⟩ := of_mem_closing hm
        cases hm

/-! ### The nesting of what is read -/

/-- How deep blocks are nested in what a call returns, what it opens itself included. -/
def levels : (t : Call) → t.Outcome → Nat
  | body .., (ns, _) => Node.levelsAll ns
  | block .., (ns, _) => 1 + Node.levelsAll ns
  | construct .., (n, _) => n.levels
  | branches .., (arms, otherwise, _) => max (Node.armLevels arms) (Node.otherwiseLevels otherwise)
  | cases .., (arms, _) => Node.caseLevels arms
  | call .., (n, _) => n.levels
  | arguments .., (args, _) => Node.argumentLevels args
  | argument .., (arg, _) => Node.argumentLevels [arg]
  | blocks .., (bs, _) => Node.blockLevels bs

theorem levelsAll_nodes (pending : Pending) : Node.levelsAll pending.nodes = 0 := by
  unfold Pending.nodes
  split <;> simp [Node.levelsAll, Node.levels]

/-- The highest count in a call that opens nothing itself. -/
theorem peak_moments_of_none (h : t.brace? = none) :
    peak (t.moments (s + 1)) = peak ((t.starts s).flatMap (moments s)) := by
  simp [moments, opening, closing, h, peak]

/-- The highest count in a call that opens a block or a match. -/
theorem peak_moments_of_some (h : t.brace? = some p) :
    peak (t.moments (s + 1)) = max (t.depth + 1) (peak ((t.starts s).flatMap (moments s))) := by
  have hclosing : peak (t.closing (s + 1)) = 0 := by
    unfold closing
    split <;> rfl
  simp [moments, opening, h, peak, hclosing]

section Peak

variable {d braces start : Nat} {inBlock : Bool} {pending : Pending} {c c' : Cursor}
variable {n : Node} {ns : Body}
variable (ih : ∀ t a, run s t = .ok a → max t.depth (peak (t.moments s)) = t.depth + t.levels a)
include ih

theorem peak_body (h : Read.body (s + 1) inBlock d braces pending c = .ok (ns, c')) :
    max d (peak ((body inBlock d braces pending c).moments (s + 1))) = d + Node.levelsAll ns := by
  rw [peak_moments_of_none rfl]
  rw [Read.body] at h
  simp only [starts] at h ⊢
  cases hescaped : (c.skip (Cursor.plainRun inBlock braces c.rest).1.length).escaped? with
  | some ch =>
    simp only [hescaped, List.flatMap_singleton] at h ⊢
    exact ih (.body ..) (ns, c') h
  | none =>
    simp only [hescaped] at h ⊢
    split at h
    · rename_i hat
      obtain ⟨⟨n, e⟩, hn, h⟩ := Except.bind_ok.mp h
      obtain ⟨⟨ms, e'⟩, hms, h⟩ := Except.bind_ok.mp h
      cases h
      have hnode := ih (.construct ..) (n, e) hn
      have hrest := ih (.body ..) (ms, e') hms
      simp only [depth, levels] at hnode hrest
      simp only [if_pos hat, hn, after, List.flatMap_cons, List.flatMap_nil, List.append_nil,
        peak_append, Node.levelsAll_append, levelsAll_nodes, Node.levelsAll]
      omega
    · rename_i hat
      cases h
      simp [hat, peak, levelsAll_nodes]

theorem peak_block (h : Read.block (s + 1) d c = .ok (ns, c')) :
    max d (peak ((block d c).moments (s + 1))) = d + (1 + Node.levelsAll ns) := by
  rw [Read.block] at h
  simp only at h
  split at h
  · rename_i hopening
    have hbrace : (block d c).brace? = some c.skipBlank.position := if_pos hopening
    obtain ⟨d', hd, h⟩ := Except.bind_ok.mp h
    obtain ⟨⟨ms, close⟩, hms, h⟩ := Except.bind_ok.mp h
    simp only at h
    split at h
    · cases h
      have hbody := ih (.body ..) (ns, close) hms
      obtain ⟨-, hd'⟩ := lt_of_enter hd
      rw [peak_moments_of_some hbrace]
      simp only [depth, levels] at hbody hd' ⊢
      simp only [starts, if_pos hopening, hd, after, List.flatMap_singleton]
      omega
    · cases h
  · cases h

theorem peak_branches {arms : List (Condition × Body)} {otherwise : Option Body}
    (h : Read.branches (s + 1) d c = .ok (arms, otherwise, c')) :
    max d (peak ((branches d c).moments (s + 1))) =
      d + max (Node.armLevels arms) (Node.otherwiseLevels otherwise) := by
  rw [peak_moments_of_none rfl]
  rw [Read.branches] at h
  obtain ⟨⟨cond, e⟩, hcond, h⟩ := Except.bind_ok.mp h
  obtain ⟨⟨ns, g⟩, hns, h⟩ := Except.bind_ok.mp h
  have hblock := ih (.block ..) (ns, g) hns
  simp only [depth, levels] at hblock
  simp only at h
  cases hmark : g.elseMark? with
  | none =>
    simp only [hmark] at h
    cases h
    simp only [starts, hcond, hns, after, hmark, List.flatMap_singleton, Node.armLevels,
      Node.otherwiseLevels]
    omega
  | some next =>
    simp only [hmark] at h
    split at h
    · rename_i hbrace
      obtain ⟨⟨last, i⟩, hlast, h⟩ := Except.bind_ok.mp h
      cases h
      have hotherwise := ih (.block ..) (last, i) hlast
      simp only [depth, levels] at hotherwise
      simp only [starts, hcond, hns, after, hmark, if_pos hbrace, List.flatMap_cons,
        List.flatMap_nil, List.append_nil, peak_append, Node.armLevels, Node.otherwiseLevels]
      omega
    · rename_i hbrace
      obtain ⟨⟨more, o, i⟩, hmore, h⟩ := Except.bind_ok.mp h
      cases h
      have hbranches := ih (.branches ..) (more, o, i) hmore
      simp only [depth, levels] at hbranches
      simp only [starts, hcond, hns, after, hmark, if_neg hbrace, List.flatMap_cons,
        List.flatMap_nil, List.append_nil, peak_append, Node.armLevels]
      omega

theorem peak_cases {arms : List (Pattern × Option Expr × Body)}
    (h : Read.cases (s + 1) d start c = .ok (arms, c')) :
    max d (peak ((cases d start c).moments (s + 1))) = d + Node.caseLevels arms := by
  rw [peak_moments_of_none rfl]
  rw [Read.cases] at h
  obtain ⟨e, he, h⟩ := Except.bind_ok.mp h
  split at h
  · cases h
  · rename_i hend
    split at h
    · rename_i hclose
      cases h
      simp [starts, he, after, hend, hclose, peak, Node.caseLevels]
    · rename_i hclose
      obtain ⟨⟨p, b⟩, hp, h⟩ := Except.bind_ok.mp h
      obtain ⟨⟨guard, g⟩, hguard, h⟩ := Except.bind_ok.mp h
      simp only at h
      split at h
      · rename_i harrow
        obtain ⟨⟨ns, i⟩, hns, h⟩ := Except.bind_ok.mp h
        obtain ⟨j, hj, h⟩ := Except.bind_ok.mp h
        obtain ⟨⟨more, k⟩, hmore, h⟩ := Except.bind_ok.mp h
        cases h
        have hblock := ih (.block ..) (ns, i) hns
        have hcases := ih (.cases ..) (more, k) hmore
        simp only [depth, levels] at hblock hcases
        simp only [starts, he, after, if_neg hend, if_neg hclose, hp, hguard, if_pos harrow, hns,
          hj, List.flatMap_cons, List.flatMap_nil, List.append_nil, peak_append, Node.caseLevels]
        omega
      · cases h

theorem peak_blocks {bs : List Body} (h : Read.blocks (s + 1) d c = .ok (bs, c')) :
    max d (peak ((blocks d c).moments (s + 1))) = d + Node.blockLevels bs := by
  rw [peak_moments_of_none rfl]
  rw [Read.blocks] at h
  cases hmark : c.blockMark? with
  | none =>
    simp only [hmark] at h
    cases h
    simp [starts, hmark, peak, Node.blockLevels]
  | some next =>
    simp only [hmark] at h
    obtain ⟨⟨ns, e⟩, hns, h⟩ := Except.bind_ok.mp h
    obtain ⟨⟨more, g⟩, hmore, h⟩ := Except.bind_ok.mp h
    cases h
    have hblock := ih (.block ..) (ns, e) hns
    have hblocks := ih (.blocks ..) (more, g) hmore
    simp only [depth, levels] at hblock hblocks
    simp only [starts, hmark, hns, after, List.flatMap_cons, List.flatMap_nil, List.append_nil,
      peak_append, Node.blockLevels]
    omega

theorem peak_argument {arg : Expr ⊕ Body} (h : Read.argument (s + 1) d c = .ok (arg, c')) :
    max d (peak ((argument d c).moments (s + 1))) = d + Node.argumentLevels [arg] := by
  rw [peak_moments_of_none rfl]
  rw [Read.argument] at h
  split at h
  · rename_i hbrace
    obtain ⟨⟨ns, e⟩, hns, h⟩ := Except.bind_ok.mp h
    cases h
    have hblock := ih (.block ..) (ns, c') hns
    simp only [depth, levels] at hblock
    simp only [starts, if_pos hbrace, List.flatMap_singleton, Node.argumentLevels]
    omega
  · rename_i hbrace
    obtain ⟨⟨v, e⟩, hv, h⟩ := Except.bind_ok.mp h
    cases h
    simp [starts, hbrace, peak, Node.argumentLevels]

theorem peak_arguments {args : List (Expr ⊕ Body)}
    (h : Read.arguments (s + 1) d c = .ok (args, c')) :
    max d (peak ((arguments d c).moments (s + 1))) = d + Node.argumentLevels args := by
  rw [peak_moments_of_none rfl]
  rw [Read.arguments] at h
  simp only at h
  split at h
  · rename_i hclose
    cases h
    simp [starts, hclose, peak, Node.argumentLevels]
  · rename_i hclose
    obtain ⟨⟨arg, e⟩, harg, h⟩ := Except.bind_ok.mp h
    have hargument := ih (.argument ..) (arg, e) harg
    simp only [depth, levels] at hargument
    simp only at h
    split at h
    · rename_i hcomma
      obtain ⟨⟨more, g⟩, hmore, h⟩ := Except.bind_ok.mp h
      cases h
      have harguments := ih (.arguments ..) (more, g) hmore
      have hcons : Node.argumentLevels (arg :: more) =
          max (Node.argumentLevels [arg]) (Node.argumentLevels more) := by
        cases arg <;> simp [Node.argumentLevels]
      simp only [depth, levels] at harguments
      simp only [starts, if_neg hclose, harg, after, if_pos hcomma, List.flatMap_cons,
        List.flatMap_nil, List.append_nil, peak_append, hcons]
      omega
    · rename_i hcomma
      split at h
      · cases h
        simp only [starts, if_neg hclose, harg, after, if_neg hcomma, List.flatMap_singleton]
        exact hargument
      · cases h

theorem peak_call (h : Read.call (s + 1) d start c = .ok (n, c')) :
    max d (peak ((call d start c).moments (s + 1))) = d + n.levels := by
  rw [peak_moments_of_none rfl]
  rw [Read.call] at h
  obtain ⟨⟨path, e⟩, hpath, h⟩ := Except.bind_ok.mp h
  simp only at h
  split at h
  · rename_i hparen
    obtain ⟨⟨args, g⟩, hargs, h⟩ := Except.bind_ok.mp h
    obtain ⟨⟨bs, i⟩, hbs, h⟩ := Except.bind_ok.mp h
    cases h
    have harguments := ih (.arguments ..) (args, g) hargs
    have hblocks := ih (.blocks ..) (bs, i) hbs
    simp only [depth, levels] at harguments hblocks
    simp only [starts, hpath, after, if_pos hparen, hargs, List.flatMap_cons, List.flatMap_nil,
      List.append_nil, peak_append, Node.levels]
    omega
  · cases h

theorem peak_construct (h : Read.construct (s + 1) d c = .ok (n, c')) :
    max d (peak ((construct d c).moments (s + 1))) = d + n.levels := by
  rw [Read.construct] at h
  simp only at h
  cases hcomment : c.comment? with
  | some comment =>
    simp only [hcomment] at h
    obtain ⟨⟨text, e⟩, hc, h⟩ := Except.bind_ok.mp h
    cases h
    rw [peak_moments_of_none (by simp only [brace?, hcomment])]
    simp [starts, hcomment, peak, Node.levels]
  | none =>
    simp only [hcomment] at h
    split at h
    · rename_i hcolon
      have hcall := ih (.call ..) (n, c') h
      rw [peak_moments_of_none (by simp only [brace?, hcomment, if_pos hcolon])]
      simp only [starts, hcomment, if_pos hcolon, List.flatMap_singleton]
      exact hcall
    · rename_i hcolon
      split at h
      · rename_i hbang
        obtain ⟨⟨v, e⟩, hv, h⟩ := Except.bind_ok.mp h
        cases h
        rw [peak_moments_of_none (by simp only [brace?, hcomment, if_neg hcolon, if_pos hbang])]
        simp [starts, hcomment, hcolon, hbang, peak, Node.levels]
      · rename_i hbang
        split at h
        · rename_i a hword
          obtain ⟨⟨arms, otherwise, e⟩, harms, h⟩ := Except.bind_ok.mp h
          cases h
          have hbranches := ih (.branches ..) (arms, otherwise, e) harms
          rw [peak_moments_of_none (by
            simp only [brace?, hcomment, if_neg hcolon, if_neg hbang, hword])]
          simp only [starts, hcomment, if_neg hcolon, if_neg hbang, hword, List.flatMap_singleton]
          exact hbranches
        · rename_i a hword
          obtain ⟨⟨p, e⟩, hp, h⟩ := Except.bind_ok.mp h
          simp only at h
          split at h
          · rename_i hin
            obtain ⟨⟨v, g⟩, hv, h⟩ := Except.bind_ok.mp h
            obtain ⟨⟨ns, i⟩, hns, h⟩ := Except.bind_ok.mp h
            cases h
            have hblock := ih (.block ..) (ns, i) hns
            rw [peak_moments_of_none (by
              simp only [brace?, hcomment, if_neg hcolon, if_neg hbang, hword])]
            simp only [starts, hcomment, if_neg hcolon, if_neg hbang, hword, hp, after, if_pos hin,
              hv, List.flatMap_singleton]
            exact hblock
          · cases h
        · rename_i a hword
          obtain ⟨⟨v, e⟩, hv, h⟩ := Except.bind_ok.mp h
          simp only at h
          split at h
          · rename_i hopening
            obtain ⟨d', hd, h⟩ := Except.bind_ok.mp h
            obtain ⟨⟨arms, last⟩, harms, h⟩ := Except.bind_ok.mp h
            cases h
            have hcases := ih (.cases ..) (arms, last) harms
            obtain ⟨-, hd'⟩ := lt_of_enter hd
            have hbrace : (construct d c).brace? = some e.skipBlank.position := by
              simp only [brace?, hcomment, if_neg hcolon, if_neg hbang, hword, hv, if_pos hopening]
            rw [peak_moments_of_some hbrace]
            simp only [depth, levels] at hcases ⊢
            simp only [starts, hcomment, if_neg hcolon, if_neg hbang, hword, hv, after,
              if_pos hopening, hd, List.flatMap_singleton, Node.levels]
            omega
          · cases h
        · rename_i hword
          rw [peak_moments_of_none (by
            simp only [brace?, hcomment, if_neg hcolon, if_neg hbang, hword])]
          split at h
          · cases h
          · split at h
            · obtain ⟨⟨v, e⟩, hv, h⟩ := Except.bind_ok.mp h
              cases h
              simp [starts, hcomment, hcolon, hbang, hword, peak, Node.levels]
            · cases h

end Peak

/-- **The nesting of what is read is the highest count.** -/
theorem peak_moments {a : t.Outcome} (h : t.run s = .ok a) :
    max t.depth (peak (t.moments s)) = t.depth + t.levels a := by
  induction s generalizing t with
  | zero => cases t <;> cases h
  | succ s ih =>
    have ih t a (h : run s t = .ok a) := ih h
    cases t with
    | body => exact peak_body ih h
    | block => exact peak_block ih h
    | construct => exact peak_construct ih h
    | branches => exact peak_branches ih h
    | cases => exact peak_cases ih h
    | call => exact peak_call ih h
    | arguments => exact peak_arguments ih h
    | argument => exact peak_argument ih h
    | blocks => exact peak_blocks ih h

end Call

end Template.Read

/-! ## Whole texts -/

namespace Outline

open Template Template.Read Template.Read.Moment Cursor

/-- **The moments of reading a text**: those of its body, if there is one. -/
def moments (text : List Char) : List Moment :=
  match preamble (Cursor.ofText text 0).steps (Cursor.ofText text 0) with
  | .error _ => []
  | .ok (_, c) =>
    match Read.params c.steps [] (c.skip 2) with
    | .error _ => []
    | .ok (_, d) =>
      let c := d.skipDeclarationEnd
      Call.moments c.steps (.body false 0 0 ⟨c.position, []⟩ c)

/-- A text is refused before its body, or all depends on its body. -/
theorem moments_eq (text : List Char) :
    (moments text = [] ∧ ∃ f : Failure, f.IsOrdinary ∧ parse text = .error f) ∨
    ∃ imports ps c, c.In text ∧
      moments text = Call.moments c.steps (.body false 0 0 ⟨c.position, []⟩ c) ∧
      parse text = (Read.body c.steps false 0 0 ⟨c.position, []⟩ c).map
        fun b => ⟨imports, ps, b.1⟩ := by
  unfold moments
  cases hpreamble : preamble (Cursor.ofText text 0).steps (Cursor.ofText text 0) with
  | error f =>
    have hf := failsOnly_iff.mp (ordinary_preamble _) f hpreamble
    exact .inl ⟨rfl, f, hf, fails_first hpreamble⟩
  | ok found =>
    obtain ⟨imports, c⟩ := found
    obtain ⟨hstart, hmark⟩ := reaches_preamble hpreamble
    have hdeclaration := (past_of_startsWith hmark).reaches
    simp only
    cases hparams : Read.params c.steps [] (c.skip 2) with
    | error f =>
      have hsteps : (c.skip 2).steps ≤ c.steps := by
        have hle : (c.skip 2).rest.length ≤ c.rest.length := hdeclaration.length_le
        unfold steps
        omega
      have hf := failsOnly_iff.mp (ordinary_params hsteps) f hparams
      exact .inl ⟨rfl, f, hf, fails_second hpreamble (fails_first hparams)⟩
    | ok found =>
      obtain ⟨ps, d⟩ := found
      obtain ⟨_, hpast⟩ := past_params hparams
      have hin : d.skipDeclarationEnd.In text :=
        (hstart.trans hdeclaration).trans (hpast.reaches.trans d.reaches_skipDeclarationEnd)
      refine .inr ⟨imports, ps, d.skipDeclarationEnd, hin, rfl, ?_⟩
      rw [parse]
      simp only [hpreamble, hparams, Except.ok_bind]
      cases Read.body d.skipDeclarationEnd.steps false 0 0 _ d.skipDeclarationEnd <;> rfl

variable {text : List Char} {o : Outline} {m : Moment} {limit p d : Nat}

/-- The count is right at each moment of reading a text. -/
theorem counts_moments (text : List Char) : Counts 0 (moments text) := by
  obtain ⟨hnone, -⟩ | ⟨imports, ps, c, -, hmoments, -⟩ := moments_eq text
  · rw [hnone]
    trivial
  · rw [hmoments]
    exact (Call.counts_moments c.steps (.body false 0 0 ⟨c.position, []⟩ c)).1

theorem depth_le (hm : m ∈ moments text) : m.depth ≤ maxNesting := by
  obtain ⟨hnone, -⟩ | ⟨imports, ps, c, -, hmoments, -⟩ := moments_eq text
  · rw [hnone] at hm
    cases hm
  · rw [hmoments] at hm
    exact Call.depth_le (Nat.zero_le _) hm

theorem getElem?_of_opens (hm : .opens d p ∈ moments text) : text[p]? = some '\x7b' := by
  obtain ⟨hnone, -⟩ | ⟨imports, ps, c, hin, hmoments, -⟩ := moments_eq text
  · rw [hnone] at hm
    cases hm
  · rw [hmoments] at hm
    exact Call.getElem?_of_opens (t := .body false 0 0 ⟨c.position, []⟩ c) hin trivial hm

/-- **A text is refused for its nesting if a brace is met that is one too many**, and only then. -/
theorem tooDeep_iff : parse text = .error (.at (.blocksTooDeep limit) p) ↔
    limit = maxNesting ∧ ∃ d, ¬ d < maxNesting ∧ .opens d p ∈ moments text := by
  obtain ⟨hnone, f, hf, hparse⟩ | ⟨imports, ps, c, -, hmoments, hparse⟩ := moments_eq text
  · rw [hnone, hparse]
    refine ⟨fun h => ?_, fun ⟨_, _, _, hm⟩ => (by cases hm)⟩
    cases h
    exact hf.elim
  · let t := Call.body false 0 0 ⟨c.position, []⟩ c
    have hbody : t.run c.steps = .error (.at (.blocksTooDeep limit) p) ↔
        limit = maxNesting ∧ ∃ d, ¬ d < maxNesting ∧ .opens d p ∈ t.moments c.steps :=
      Call.tooDeep_iff
    rw [hmoments, ← hbody, hparse, Call.run]
    cases Read.body c.steps false 0 0 ⟨c.position, []⟩ c with
    | ok b => exact ⟨fun h => (by cases h), fun h => (by cases h)⟩
    | error f => exact ⟨fun h => (by cases h; rfl), fun h => (by cases h; rfl)⟩

/-- The nesting of a body that is read is the highest count. -/
theorem levels_eq (h : parse text = .ok o) : Node.levelsAll o.body = peak (moments text) := by
  obtain ⟨-, f, -, hparse⟩ | ⟨imports, ps, c, -, hmoments, hparse⟩ := moments_eq text
  · rw [hparse] at h
    cases h
  · rw [hparse] at h
    cases hbody : Read.body c.steps false 0 0 ⟨c.position, []⟩ c with
    | error f =>
      rw [hbody] at h
      cases h
    | ok b =>
      rw [hbody] at h
      cases h
      have hpeak := Call.peak_moments (s := c.steps) (t := .body false 0 0 ⟨c.position, []⟩ c) hbody
      simp only [Call.depth, Call.levels] at hpeak
      simp only [hmoments]
      omega

/-- **The count of open blocks.** At each moment of reading a text the number of blocks that is
counted is the number of the braces of blocks and matches that have been met so far and not yet
closed; each of them is a brace of the text. A call that succeeds has closed what it has opened, so
that siblings do not add up, neither in the count nor in the nesting of a body. The nesting of a
body that is read is the highest count, and at most the limit. A text is refused for its nesting, at
a brace, if and only if so many blocks are open before the brace as are allowed. -/
theorem counts_open_blocks (text : List Char) :
    (∀ before m after, moments text = before ++ m :: after →
      m.depth + closed before = opened before) ∧
      (∀ d p, .opens d p ∈ moments text → text[p]? = some '\x7b') ∧
      (∀ s t, Call.Succeeds s t → opened (t.moments s) = closed (t.moments s)) ∧
      (∀ ns ms, Node.levelsAll (ns ++ ms) = max (Node.levelsAll ns) (Node.levelsAll ms)) ∧
      (∀ o, parse text = .ok o →
        Node.levelsAll o.body = peak (moments text) ∧ Node.levelsAll o.body ≤ maxNesting) ∧
      ∀ limit p, parse text = .error (.at (.blocksTooDeep limit) p) ↔ limit = maxNesting ∧
        ∃ before d after, moments text = before ++ .opens d p :: after ∧
          opened before = closed before + maxNesting := by
  have hdepth {before after : List Moment} {m : Moment} (h : moments text = before ++ m :: after) :
      m.depth + closed before = opened before := by
    have hcounts := counts_moments text
    rw [h] at hcounts
    rw [hcounts.depth_eq, Nat.zero_add]
  refine ⟨fun _ _ _ => hdepth, fun _ _ => getElem?_of_opens, fun s t => (Call.counts_moments s t).2,
    Node.levelsAll_append, fun o ho => ?_, fun limit p => ?_⟩
  · have hlevels := levels_eq ho
    refine ⟨hlevels, hlevels ▸ peak_le fun d p hm => ?_⟩
    by_contra hd
    rw [tooDeep_iff.mpr ⟨rfl, d, hd, hm⟩] at ho
    cases ho
  · rw [tooDeep_iff]
    refine and_congr_right fun _ =>
      ⟨fun ⟨d, hd, hm⟩ => ?_, fun ⟨before, d, after, h, hopened⟩ => ?_⟩
    · obtain ⟨before, after, h⟩ := List.append_of_mem hm
      have hle : d ≤ maxNesting := depth_le hm
      have heq : d + closed before = opened before := hdepth h
      exact ⟨before, d, after, h, by omega⟩
    · have heq : d + closed before = opened before := hdepth h
      exact ⟨d, by omega, h ▸ List.mem_append_right _ (List.mem_cons_self ..)⟩

/-- A body, its construct, the branch and its block; the body of the block, and the body behind. -/
example : moments "@()@if a \x7bx\x7d".toList = [.call 0, .call 0, .call 0, .call 0, .opens 0 9,
    .call 1, .closes 1 9, .call 0] := by decide +kernel

end Outline

end Stencil
