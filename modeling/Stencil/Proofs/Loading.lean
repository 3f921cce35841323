import Mathlib.Logic.Relation

/-!
# Loading modules

Modules are loaded depth first: an import of a module that has not been started runs its imports
first, and an import of one that is still running fails.

* `Loading`: the modules that are running and those that are loaded; `Loading.step` runs one import.
* `Loading.Sound`: what every step keeps. The modules that run wait for each other, and what is
  loaded stands after all that it imports.
* **`Loading.unblocked_iff`**: no import fails exactly if no module that is reached imports itself,
  directly or through others.
-/

namespace Stencil

open Relation

variable {α : Type}

/-- **Modules while they are loaded**: those that run, innermost first and each with the imports it
has still to do, and those that are loaded, latest first. -/
structure Loading (α : Type) where
  running : List (α × List α)
  loaded : List α
  deriving DecidableEq, Repr

/-- One module imports another. -/
def Imports (imports : α → List α) (m i : α) : Prop := i ∈ imports m

namespace Loading

section Step

variable [DecidableEq α] (imports : α → List α)

/-- What is loaded when a module has just been started. -/
def start (m : α) : Loading α := ⟨[(m, imports m)], []⟩

/-- The module is still running. -/
def isRunning (s : Loading α) (m : α) : Bool := (s.running.map Prod.fst).contains m

/-- The module that is still running although it is imported next. -/
def blocked? (s : Loading α) : Option α :=
  match s.running with
  | (_, i :: _) :: _ => if s.isRunning i then some i else none
  | _ => none

/-- **One step**: the innermost module does its next import, or it is loaded if there is none. There
is no step if the module it imports is still running, or if no module runs. -/
def step (s : Loading α) : Option (Loading α) :=
  match s.running with
  | [] => none
  | (m, []) :: outer => some ⟨outer, m :: s.loaded⟩
  | (m, i :: is) :: outer =>
    if s.isRunning i then none
    else if i ∈ s.loaded then some ⟨(m, is) :: outer, s.loaded⟩
    else some ⟨(i, imports i) :: (m, is) :: outer, s.loaded⟩

/-- What is loaded after some steps, or as soon as there is none. -/
def run : Nat → Loading α → Loading α
  | 0, s => s
  | n + 1, s =>
    match s.step imports with
    | some s' => run n s'
    | none => s

/-- **The states that steps lead to.** -/
def Reaches : Loading α → Loading α → Prop := ReflTransGen fun s s' => s.step imports = some s'

variable {imports}

theorem reaches_run (n : Nat) (s : Loading α) : Reaches imports s (run imports n s) := by
  induction n generalizing s with
  | zero => exact .refl
  | succ n ih =>
    rw [run]
    split
    · exact .head ‹_› (ih _)
    · exact .refl

theorem isRunning_iff {s : Loading α} {m : α} :
    s.isRunning m ↔ ∃ is, (m, is) ∈ s.running := by
  simp [isRunning]

/-- **What a step does.** -/
theorem step_cases {s s' : Loading α} (h : s.step imports = some s') :
    (∃ m outer, s.running = (m, []) :: outer ∧ s' = ⟨outer, m :: s.loaded⟩) ∨
    (∃ m i is outer, s.running = (m, i :: is) :: outer ∧ i ∈ s.loaded ∧
      s' = ⟨(m, is) :: outer, s.loaded⟩) ∨
    ∃ m i is outer, s.running = (m, i :: is) :: outer ∧ ¬ s.isRunning i ∧ i ∉ s.loaded ∧
      s' = ⟨(i, imports i) :: (m, is) :: outer, s.loaded⟩ := by
  unfold step at h
  split at h
  · cases h
  · cases h
    exact .inl ⟨_, _, ‹_›, rfl⟩
  · rename_i m i is outer hr
    split at h
    · cases h
    · split at h
      · cases h
        exact .inr (.inl ⟨m, i, is, outer, hr, ‹_›, rfl⟩)
      · cases h
        exact .inr (.inr ⟨m, i, is, outer, hr, ‹_›, ‹_›, rfl⟩)

/-- There is a step until nothing runs, unless the next import is of a module that runs. -/
theorem exists_step {s : Loading α} (hr : s.running ≠ []) (hb : s.blocked? = none) :
    ∃ s', s.step imports = some s' := by
  obtain ⟨running, loaded⟩ := s
  match running, hr with
  | (m, []) :: outer, _ => exact ⟨_, rfl⟩
  | (m, i :: is) :: outer, _ =>
    have hi : ¬ (isRunning ⟨(m, i :: is) :: outer, loaded⟩ i) := by
      intro hi
      simp [blocked?, hi] at hb
    by_cases hl : i ∈ loaded
    · exact ⟨_, by simp only [step, hi, hl, if_true]; rfl⟩
    · exact ⟨_, by simp only [step, hi, hl, if_false]; rfl⟩

end Step

/-! ## What loading keeps -/

section Sound

variable (imports : α → List α)

/-- Modules that run and wait for the one given: each imports the one before it, and has done its
other imports or has still to do them. -/
def Waits (loaded : List α) : α → List (α × List α) → Prop
  | _, [] => True
  | i, (m, is) :: outer =>
    i ∈ imports m ∧ is ⊆ imports m ∧ (∀ x ∈ imports m, x ∈ loaded ∨ x = i ∨ x ∈ is) ∧
      Waits loaded m outer

/-- Each module stands before all that it imports. -/
def Ordered : List α → Prop
  | [] => True
  | m :: loaded => (∀ i ∈ imports m, i ∈ loaded) ∧ Ordered loaded

/-- The modules that run: the innermost one has done its imports or has still to do them, and the
others wait. -/
def Stacked (loaded : List α) : List (α × List α) → Prop
  | [] => True
  | (m, is) :: outer =>
    is ⊆ imports m ∧ (∀ x ∈ imports m, x ∈ loaded ∨ x ∈ is) ∧ Waits imports loaded m outer

/-- **What is true at every time** while modules are loaded from a first one. -/
structure Sound (root : α) (s : Loading α) : Prop where
  ordered : Ordered imports s.loaded
  stacked : Stacked imports s.loaded s.running
  root_mem : root ∈ s.loaded ∨ ∃ is, (root, is) ∈ s.running
  reached : ∀ m is, (m, is) ∈ s.running → ReflTransGen (Imports imports) root m

variable {imports}

theorem Waits.mono {loaded loaded' : List α} (hl : loaded ⊆ loaded') {m : α}
    {outer : List (α × List α)} (h : Waits imports loaded m outer) :
    Waits imports loaded' m outer := by
  induction outer generalizing m with
  | nil => trivial
  | cons frame outer ih =>
    obtain ⟨hm, his, hx, ho⟩ := h
    exact ⟨hm, his, fun x hmem => (hx x hmem).imp_left (hl ·), ih ho⟩

/-- A module that waits imports the one it waits for, directly or through others. -/
theorem Waits.transGen {loaded : List α} {i m : α} {is : List α} {outer : List (α × List α)}
    (h : Waits imports loaded i outer) (hm : (m, is) ∈ outer) :
    TransGen (Imports imports) m i := by
  induction outer generalizing i with
  | nil => cases hm
  | cons frame outer ih =>
    obtain ⟨hi, -, -, ho⟩ := h
    rcases List.mem_cons.mp hm with rfl | hm
    · exact .single hi
    · exact (ih ho hm).tail hi

theorem Ordered.closed {loaded : List α} (h : Ordered imports loaded) {m i : α}
    (hm : m ∈ loaded) (hi : i ∈ imports m) : i ∈ loaded := by
  induction loaded with
  | nil => cases hm
  | cons a loaded ih =>
    rcases List.mem_cons.mp hm with rfl | hm
    · exact List.mem_cons_of_mem _ (h.1 i hi)
    · exact List.mem_cons_of_mem _ (ih h.2 hm)

theorem Ordered.closed_of_reaches {loaded : List α} (h : Ordered imports loaded) {m i : α}
    (hm : m ∈ loaded) (hi : ReflTransGen (Imports imports) m i) : i ∈ loaded := by
  induction hi with
  | refl => exact hm
  | tail _ he ih => exact h.closed ih he

/-- **What is loaded in order lies on no cycle.** -/
theorem Ordered.acyclic {loaded : List α} (h : Ordered imports loaded) {m : α}
    (hm : m ∈ loaded) : ¬ TransGen (Imports imports) m m := by
  induction loaded generalizing m with
  | nil => cases hm
  | cons a loaded ih =>
    rcases List.mem_cons.mp hm with rfl | hm
    · -- the cycle goes through a module that was loaded before
      intro hc
      obtain ⟨i, hi, hrest⟩ := TransGen.head'_iff.mp hc
      have hmem : m ∈ loaded := h.2.closed_of_reaches (h.1 i hi) hrest
      exact ih h.2 hmem hc
    · exact ih h.2 hm

variable {root : α}

theorem sound_start [DecidableEq α] (imports : α → List α) (root : α) :
    Sound imports root (start imports root) where
  ordered := trivial
  stacked := ⟨fun _ h => h, fun _ h => .inr h, trivial⟩
  root_mem := .inr ⟨_, List.mem_singleton_self _⟩
  reached m is h := by
    rw [start, List.mem_singleton] at h
    cases h
    exact .refl

section Steps

variable {loaded : List α} {m i : α} {is : List α} {outer : List (α × List α)}

/-- The innermost module has done all its imports. -/
theorem Sound.finish (hs : Sound imports root ⟨(m, []) :: outer, loaded⟩) :
    Sound imports root ⟨outer, m :: loaded⟩ := by
  obtain ⟨hord, ⟨-, hx, hw⟩, hroot, hreach⟩ := hs
  have hm : ∀ i ∈ imports m, i ∈ loaded := fun i hi => (hx i hi).resolve_right (by simp)
  have hl : loaded ⊆ m :: loaded := List.subset_cons_self _ _
  refine ⟨⟨hm, hord⟩, ?_, ?_, fun n is h => hreach n is (List.mem_cons_of_mem _ h)⟩
  · cases outer with
    | nil => trivial
    | cons frame outer =>
      obtain ⟨-, his', hx', hw'⟩ := hw
      refine ⟨his', fun x hmem => ?_, hw'.mono hl⟩
      rcases hx' x hmem with hd | rfl | hd
      · exact .inl (hl hd)
      · exact .inl List.mem_cons_self
      · exact .inr hd
  · rcases hroot with hd | ⟨is, hd⟩
    · exact .inl (hl hd)
    · rcases List.mem_cons.mp hd with hd | hd
      · cases hd
        exact .inl List.mem_cons_self
      · exact .inr ⟨is, hd⟩

/-- The next import is of a module that is loaded. -/
theorem Sound.skip (hs : Sound imports root ⟨(m, i :: is) :: outer, loaded⟩) (hi : i ∈ loaded) :
    Sound imports root ⟨(m, is) :: outer, loaded⟩ := by
  obtain ⟨hord, ⟨his, hx, hw⟩, hroot, hreach⟩ := hs
  refine ⟨hord, ⟨List.subset_of_cons_subset his, fun x hmem => ?_, hw⟩, ?_, ?_⟩
  · rcases hx x hmem with hd | hd
    · exact .inl hd
    · rcases List.mem_cons.mp hd with rfl | hd
      · exact .inl hi
      · exact .inr hd
  · refine hroot.imp_right fun ⟨is', hd⟩ => ?_
    rcases List.mem_cons.mp hd with hd | hd
    · cases hd
      exact ⟨is, List.mem_cons_self⟩
    · exact ⟨is', List.mem_cons_of_mem _ hd⟩
  · intro n is' hd
    rcases List.mem_cons.mp hd with hd | hd
    · cases hd
      exact hreach m _ List.mem_cons_self
    · exact hreach n is' (List.mem_cons_of_mem _ hd)

/-- The next import starts a module. -/
theorem Sound.enter (hs : Sound imports root ⟨(m, i :: is) :: outer, loaded⟩) :
    Sound imports root ⟨(i, imports i) :: (m, is) :: outer, loaded⟩ := by
  obtain ⟨hord, ⟨his, hx, hw⟩, hroot, hreach⟩ := hs
  have hi : i ∈ imports m := his List.mem_cons_self
  refine ⟨hord, ⟨fun _ h => h, fun _ h => .inr h, hi, List.subset_of_cons_subset his, ?_, hw⟩,
    ?_, ?_⟩
  · intro x hmem
    refine (hx x hmem).imp_right fun hd => ?_
    exact List.mem_cons.mp hd
  · refine hroot.imp_right fun ⟨is', hd⟩ => ?_
    rcases List.mem_cons.mp hd with hd | hd
    · cases hd
      exact ⟨is, List.mem_cons_of_mem _ List.mem_cons_self⟩
    · exact ⟨is', List.mem_cons_of_mem _ (List.mem_cons_of_mem _ hd)⟩
  · intro n is' hd
    have hm := hreach m _ List.mem_cons_self
    rcases List.mem_cons.mp hd with hd | hd
    · cases hd
      exact hm.tail hi
    · rcases List.mem_cons.mp hd with hd | hd
      · cases hd
        exact hm
      · exact hreach n is' (List.mem_cons_of_mem _ hd)

end Steps

/-- The modules that run belong to all lists with the first one that are closed under imports. -/
theorem Sound.mem_of_running {s : Loading α} (hs : Sound imports root s) {all : List α}
    (hall : ∀ m ∈ all, imports m ⊆ all) (hroot : root ∈ all) {m : α} {is : List α}
    (hm : (m, is) ∈ s.running) : m ∈ all := by
  have hreach := hs.reached m is hm
  clear hm
  induction hreach with
  | refl => exact hroot
  | tail _ he ih => exact hall _ ih he

variable [DecidableEq α]

/-- **A step keeps what is true of loading.** -/
theorem Sound.step {s s' : Loading α} (hs : Sound imports root s)
    (h : s.step imports = some s') : Sound imports root s' := by
  obtain ⟨running, loaded⟩ := s
  obtain ⟨m, outer, rfl, rfl⟩ | ⟨m, i, is, outer, rfl, hi, rfl⟩ | ⟨m, i, is, outer, rfl, -, -, rfl⟩ :=
    step_cases h
  · exact hs.finish
  · exact hs.skip hi
  · exact hs.enter

/-- **A run keeps what is true of loading.** -/
theorem Sound.reaches {s s' : Loading α} (hs : Sound imports root s)
    (h : Reaches imports s s') : Sound imports root s' := by
  induction h with
  | refl => exact hs
  | tail _ hstep ih => exact ih.step hstep

/-- **An import that fails closes a cycle** through the module that it imports. -/
theorem Sound.cycle {s : Loading α} (hs : Sound imports root s) {i : α}
    (h : s.blocked? = some i) :
    ReflTransGen (Imports imports) root i ∧ TransGen (Imports imports) i i := by
  unfold blocked? at h
  split at h
  · rename_i m i' is outer hr
    split at h
    · cases h
      rename_i hi
      obtain ⟨is', hmem⟩ := isRunning_iff.mp hi
      refine ⟨hs.reached i is' hmem, ?_⟩
      have hst := hs.stacked
      rw [hr] at hst hmem
      have him : Imports imports m i := hst.1 List.mem_cons_self
      rcases List.mem_cons.mp hmem with he | hmem
      · cases he
        exact .single him
      · exact (hst.2.2.transGen hmem).tail him
    · cases h
  · cases h

end Sound

/-! ## Loading comes to an end -/

section End

variable [DecidableEq α] {imports : α → List α} {root : α}

/-- The modules of a list that have not been started. -/
def unstarted (all : List α) (s : Loading α) : List α :=
  all.filter fun m => !s.isRunning m && !s.loaded.contains m

/-- The imports that are still to be done by the modules that run. -/
def work (s : Loading α) : Nat := s.running.foldr (fun frame n => frame.2.length + 1 + n) 0

/-- **A step makes progress**: it starts a module, or there is less to do. -/
theorem step_progress {all : List α} (hall : ∀ m ∈ all, imports m ⊆ all) (hroot : root ∈ all)
    {s s' : Loading α} (hs : Sound imports root s) (h : s.step imports = some s') :
    Prod.Lex (· < ·) (· < ·) ((unstarted all s').length, s'.work)
      ((unstarted all s).length, s.work) := by
  have hsound := hs.step h
  obtain ⟨m, outer, hr, rfl⟩ | ⟨m, i, is, outer, hr, hi, rfl⟩ | ⟨m, i, is, outer, hr, hi, hl, rfl⟩ :=
    step_cases h
  · have hsame : unstarted all ⟨outer, m :: s.loaded⟩ = unstarted all s := by
      refine List.filter_congr fun x _ => ?_
      by_cases hx : x = m
      · simp [isRunning, hr, hx]
      · simp [isRunning, hr, hx, beq_eq_false_iff_ne.mpr hx]
    rw [hsame]
    exact .right _ (by simp [work, hr])
  · have hsame : unstarted all ⟨(m, is) :: outer, s.loaded⟩ = unstarted all s :=
      List.filter_congr fun x _ => by simp [isRunning, hr]
    rw [hsame]
    exact .right _ (by simp [work, hr])
  · -- the module that is started was not started before
    have hmem : i ∈ all := hsound.mem_of_running hall hroot List.mem_cons_self
    have hsub : unstarted all ⟨(i, imports i) :: (m, is) :: outer, s.loaded⟩ =
        (unstarted all s).filter (· != i) := by
      rw [unstarted, unstarted, List.filter_filter]
      refine List.filter_congr fun x _ => ?_
      by_cases hx : x = i
      · simp [isRunning, hx]
      · simp [isRunning, hr, bne, beq_eq_false_iff_ne.mpr hx, Bool.and_assoc]
    refine .left _ _ ?_
    rw [hsub]
    refine List.length_filter_lt_length_iff_exists.mpr ⟨i, ?_, by simp⟩
    simp [unstarted, hmem, hi, hl]

/-- Loading ends: all is loaded, or an import fails. -/
theorem exists_end {all : List α} (hall : ∀ m ∈ all, imports m ⊆ all) (hroot : root ∈ all)
    (s : Loading α) (hs : Sound imports root s) :
    ∃ s', Reaches imports s s' ∧ (s'.running = [] ∨ s'.blocked? ≠ none) := by
  by_cases hr : s.running = []
  · exact ⟨s, .refl, .inl hr⟩
  by_cases hb : s.blocked? = none
  · obtain ⟨s₁, h₁⟩ : ∃ s₁, s.step imports = some s₁ := exists_step hr hb
    have hlt := step_progress hall hroot hs h₁
    obtain ⟨s', hreach, hend⟩ := exists_end hall hroot s₁ (hs.step h₁)
    exact ⟨s', .head h₁ hreach, hend⟩
  · exact ⟨s, .refl, .inr hb⟩
termination_by ((unstarted all s).length, s.work)
decreasing_by exact hlt

/-- If no import fails, all that is reached is loaded, in order. -/
theorem exists_loaded {all : List α} (hall : ∀ m ∈ all, imports m ⊆ all) (hroot : root ∈ all)
    (h : ∀ s, Reaches imports (start imports root) s → s.blocked? = none) :
    ∃ s, Reaches imports (start imports root) s ∧ s.running = [] ∧ Ordered imports s.loaded ∧
      ∀ m, ReflTransGen (Imports imports) root m → m ∈ s.loaded := by
  obtain ⟨s, hs, hend⟩ := exists_end hall hroot _ (sound_start imports root)
  have hsound := (sound_start imports root).reaches hs
  have hempty : s.running = [] := hend.resolve_right (fun hb => hb (h s hs))
  have hmem : root ∈ s.loaded := by
    refine hsound.root_mem.resolve_right ?_
    rw [hempty]
    rintro ⟨_, ⟨⟩⟩
  exact ⟨s, hs, hempty, hsound.ordered, fun m hm => hsound.ordered.closed_of_reaches hmem hm⟩

/-- **No import fails exactly if no module that is reached lies on a cycle of imports.** -/
theorem unblocked_iff {all : List α} (hall : ∀ m ∈ all, imports m ⊆ all) (hroot : root ∈ all) :
    (∀ s, Reaches imports (start imports root) s → s.blocked? = none) ↔
      ∀ m, ReflTransGen (Imports imports) root m → ¬ TransGen (Imports imports) m m := by
  constructor
  · intro h m hm
    obtain ⟨s, -, -, hord, hmem⟩ := exists_loaded hall hroot h
    exact hord.acyclic (hmem m hm)
  · intro h s hs
    cases hb : s.blocked? with
    | none => rfl
    | some i =>
      obtain ⟨hi, hc⟩ := ((sound_start imports root).reaches hs).cycle hb
      exact absurd hc (h i hi)

end End

end Loading

end Stencil
