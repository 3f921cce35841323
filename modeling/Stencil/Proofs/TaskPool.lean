import Mathlib.Logic.Relation
import Stencil.Build.Task
import Stencil.Proofs.Result
import Stencil.Proofs.Sorting

/-!
# Tasks in a pool

The workers of a pool take tasks and finish them in any order, while the outcomes are collected in
the order of the tasks. The collecting ends at the first fault; tasks that wait are then given up,
and those that run are waited for.

* `Pool.Step`: what workers and the collector do; `Pool.Reaches`: a run of the pool.
* `inTurn`: the outcomes of tasks that are run one after the other, up to the first fault.
* `Pool.Sound`: what every step keeps; `Pool.todo`: what every step lessens.
* `report`: what is logged and given for outcomes that were collected.
* `Judged`: what has to be logged and given, said of the outcomes alone.
* **`collects_judged`**: a pool comes to an end, and neither the number of its workers nor the order
  in which tasks are finished can be seen.
-/

namespace Stencil.Build

open Relation

variable {α : Type}

/-! ## The pool -/

/-- **A pool at work.** Tasks are known by their places in the list of all tasks. -/
structure Pool (α : Type) where
  /-- Tasks that no worker has taken. -/
  waiting : List Nat
  /-- Tasks that a worker is at. -/
  running : List Nat
  /-- The outcomes of tasks that are finished. -/
  finished : List (Nat × Outcome α)
  /-- The outcomes that are collected, in the order of the tasks. -/
  collected : List (Outcome α)
  /-- The fault that has ended the collecting. -/
  fault : Option Fault

namespace Pool

/-- A pool that has got its tasks. -/
def start (tasks : List (Outcome α)) : Pool α := ⟨List.range tasks.length, [], [], [], none⟩

/-- **A step of a pool**: a worker that is free takes any task that waits, a worker finishes its
task, or the outcome of the next task is collected as soon as it is there. A fault ends the
collecting, and then tasks that still wait are given up one by one. -/
inductive Step (workers : Nat) (tasks : List (Outcome α)) (p : Pool α) : Pool α → Prop
  | take {i : Nat} (hi : i ∈ p.waiting) (hfree : p.running.length < workers) :
      Step workers tasks p { p with waiting := p.waiting.erase i, running := i :: p.running }
  | finish {i : Nat} {o : Outcome α} (hi : i ∈ p.running) (ho : tasks[i]? = some o) :
      Step workers tasks p { p with running := p.running.erase i, finished := (i, o) :: p.finished }
  | collect {o : Outcome α} (hgoing : p.fault = none)
      (ho : p.finished.lookup p.collected.length = some o) (hok : o.fault? = none) :
      Step workers tasks p { p with collected := p.collected ++ [o] }
  | abort {o : Outcome α} {f : Fault} (hgoing : p.fault = none)
      (ho : p.finished.lookup p.collected.length = some o) (hfault : o.fault? = some f) :
      Step workers tasks p { p with fault := some f }
  | giveUp {i : Nat} (hi : i ∈ p.waiting) (hended : p.fault.isSome) :
      Step workers tasks p { p with waiting := p.waiting.erase i }

/-- **The pools that steps lead to.** -/
def Reaches (workers : Nat) (tasks : List (Outcome α)) : Pool α → Pool α → Prop :=
  ReflTransGen (Step workers tasks)

/-- All is collected or given up, and no worker is at a task. -/
def Done (tasks : List (Outcome α)) (p : Pool α) : Prop :=
  p.waiting = [] ∧ p.running = [] ∧ (p.fault.isSome ∨ p.collected.length = tasks.length)

/-- What has been collected, or the fault. -/
def result (p : Pool α) : Except Fault (List (Outcome α)) :=
  match p.fault with
  | some f => .error f
  | none => .ok p.collected

end Pool

/-- **The outcomes of tasks that are run one after the other**, up to the first fault. -/
def inTurn : List (Outcome α) → Except Fault (List (Outcome α))
  | [] => .ok []
  | o :: tasks =>
    match o.fault? with
    | some f => .error f
    | none => (inTurn tasks).map (o :: ·)

/-- **How outcomes are collected**: by a pool that comes to its end, if there are several workers
and several tasks, and otherwise in turn. -/
inductive Collects (workers : Nat) (tasks : List (Outcome α)) :
    Except Fault (List (Outcome α)) → Prop
  | pool {p : Pool α} (hmany : 1 < workers ∧ 1 < tasks.length)
      (hreach : Pool.Reaches workers tasks (.start tasks) p) (hdone : p.Done tasks) :
      Collects workers tasks p.result
  | inTurn (hfew : ¬ (1 < workers ∧ 1 < tasks.length)) : Collects workers tasks (inTurn tasks)

/-- **What is logged and given for outcomes that were collected.** -/
def report : Except Fault (List (Outcome α)) → List LogLine × Except Error (List α)
  | .error f => ([], .error (.fault f))
  | .ok outcomes =>
    match failures outcomes with
    | [] => ([], .ok (outcomes.filterMap Outcome.value?))
    | first :: others => (failureLines (first :: others), .error first.2)

/-! ## What steps keep -/

namespace Pool

variable {workers : Nat} {tasks : List (Outcome α)} {p q : Pool α}

/-- **What is true of a pool at every time.** -/
structure Sound (tasks : List (Outcome α)) (p : Pool α) : Prop where
  /-- No task is lost before the collecting is ended. -/
  kept : p.fault = none → ∀ i < tasks.length,
    i ∈ p.waiting ∨ i ∈ p.running ∨ ∃ o, p.finished.lookup i = some o
  running_lt : ∀ i ∈ p.running, i < tasks.length
  waiting_lt : ∀ i ∈ p.waiting, i < tasks.length
  finished_eq : ∀ i o, p.finished.lookup i = some o → tasks[i]? = some o
  collected_eq : p.collected = tasks.take p.collected.length
  collected_ok : ∀ o ∈ p.collected, o.fault? = none
  fault_eq : ∀ f ∈ p.fault, ∃ o, tasks[p.collected.length]? = some o ∧ o.fault? = some f

theorem sound_start (tasks : List (Outcome α)) : Sound tasks (start tasks) where
  kept _ i hi := .inl (List.mem_range.mpr hi)
  running_lt i hi := by cases hi
  waiting_lt i hi := List.mem_range.mp hi
  finished_eq i o h := by cases h
  collected_eq := rfl
  collected_ok o ho := by cases ho
  fault_eq f hf := by cases hf

/-- **Every step keeps a pool sound.** -/
theorem Sound.step (hp : Sound tasks p) (h : Step workers tasks p q) : Sound tasks q := by
  cases h with
  | @take i hi hfree =>
    refine ⟨fun hgoing j hj => ?_, fun j hj => ?_, fun j hj => ?_, hp.finished_eq,
      hp.collected_eq, hp.collected_ok, hp.fault_eq⟩
    · rcases hp.kept hgoing j hj with hw | hr | hf
      · by_cases hji : j = i
        · exact .inr (.inl (hji ▸ List.mem_cons_self))
        · exact .inl ((List.mem_erase_of_ne hji).mpr hw)
      · exact .inr (.inl (List.mem_cons_of_mem _ hr))
      · exact .inr (.inr hf)
    · rcases List.mem_cons.mp hj with rfl | hj
      · exact hp.waiting_lt j hi
      · exact hp.running_lt j hj
    · exact hp.waiting_lt j (List.mem_of_mem_erase hj)
  | @finish i o hi ho =>
    refine ⟨fun hgoing j hj => ?_, fun j hj => hp.running_lt j (List.mem_of_mem_erase hj),
      hp.waiting_lt, fun j o' hj => ?_, hp.collected_eq, hp.collected_ok, hp.fault_eq⟩
    · by_cases hji : j = i
      · exact .inr (.inr ⟨o, by rw [hji, List.lookup_cons_self]⟩)
      · rcases hp.kept hgoing j hj with hw | hr | ⟨o', hf⟩
        · exact .inl hw
        · exact .inr (.inl ((List.mem_erase_of_ne hji).mpr hr))
        · exact .inr (.inr ⟨o', by rw [List.lookup_cons, beq_eq_false_iff_ne.mpr hji, hf]⟩)
    · rw [List.lookup_cons] at hj
      split at hj
      · rename_i hji
        rw [beq_iff_eq.mp hji, ho, hj]
      · exact hp.finished_eq j o' hj
  | @collect o hgoing ho hok =>
    have htask := hp.finished_eq _ o ho
    refine ⟨hp.kept, hp.running_lt, hp.waiting_lt, hp.finished_eq, ?_, fun o' ho' => ?_,
      fun f hf => ?_⟩
    · obtain ⟨hlt, hget⟩ := List.getElem?_eq_some_iff.mp htask
      rw [List.length_append, List.length_singleton, List.take_succ_eq_append_getElem hlt, hget,
        ← hp.collected_eq]
    · rcases List.mem_append.mp ho' with ho' | ho'
      · exact hp.collected_ok o' ho'
      · rwa [List.mem_singleton.mp ho']
    · rw [hgoing] at hf
      cases hf
  | @abort o f hgoing ho hfault =>
    refine ⟨fun hgoing => (nomatch hgoing), hp.running_lt, hp.waiting_lt, hp.finished_eq,
      hp.collected_eq, hp.collected_ok, fun f' hf' => ?_⟩
    cases hf'
    exact ⟨o, hp.finished_eq _ o ho, hfault⟩
  | @giveUp i hi hended =>
    refine ⟨fun hgoing => ?_, hp.running_lt,
      fun j hj => hp.waiting_lt j (List.mem_of_mem_erase hj), hp.finished_eq, hp.collected_eq,
      hp.collected_ok, hp.fault_eq⟩
    have hnone : p.fault = none := hgoing
    rw [hnone] at hended
    cases hended

theorem Sound.reaches (hp : Sound tasks p) (h : Reaches workers tasks p q) : Sound tasks q := by
  induction h with
  | refl => exact hp
  | tail _ hstep ih => exact ih.step hstep

theorem Sound.length_collected_le (hp : Sound tasks p) :
    p.collected.length ≤ tasks.length := by
  have h := congrArg List.length hp.collected_eq
  rw [List.length_take] at h
  omega

/-! ## The end of a run -/

/-- **What a pool has still to do**: a task that waits has to be taken and finished. -/
def todo (tasks : List (Outcome α)) (p : Pool α) : Nat :=
  2 * p.waiting.length + p.running.length + (tasks.length - p.collected.length) +
    (if p.fault.isSome then 0 else 1)

/-- **Every step lessens what is to be done.** -/
theorem Sound.todo_lt (hp : Sound tasks p) (h : Step workers tasks p q) :
    q.todo tasks < p.todo tasks := by
  cases h with
  | @take i hi hfree =>
    have hlength := List.length_erase_of_mem hi
    have hpos := List.length_pos_of_mem hi
    simp only [todo, List.length_cons, hlength]
    omega
  | @finish i o hi ho =>
    have hlength := List.length_erase_of_mem hi
    have hpos := List.length_pos_of_mem hi
    simp only [todo, hlength]
    omega
  | @collect o hgoing ho hok =>
    obtain ⟨hlt, -⟩ := List.getElem?_eq_some_iff.mp (hp.finished_eq _ o ho)
    simp only [todo, List.length_append, List.length_singleton]
    omega
  | @abort o f hgoing ho hfault =>
    simp only [todo, hgoing, Option.isSome_some, Option.isSome_none, if_true,
      Bool.false_eq_true, if_false]
    omega
  | @giveUp i hi hended =>
    have hlength := List.length_erase_of_mem hi
    have hpos := List.length_pos_of_mem hi
    simp only [todo, hlength]
    omega

/-- **There is a step until all is done.** -/
theorem Sound.exists_step (hp : Sound tasks p) (hworkers : 1 ≤ workers) (h : ¬ p.Done tasks) :
    ∃ q, Step workers tasks p q := by
  rcases hrunning : p.running with _ | ⟨i, is⟩
  · rcases hwaiting : p.waiting with _ | ⟨i, is⟩
    · have hgoing : p.fault = none := by
        by_contra hfault
        exact h ⟨hwaiting, hrunning, .inl (Option.isSome_iff_ne_none.mpr hfault)⟩
      have hmore : p.collected.length < tasks.length :=
        Nat.lt_of_le_of_ne hp.length_collected_le fun hall => h ⟨hwaiting, hrunning, .inr hall⟩
      -- The next task neither waits nor runs: its outcome is there.
      obtain ⟨o, ho⟩ : ∃ o, p.finished.lookup p.collected.length = some o := by
        simpa [hwaiting, hrunning] using hp.kept hgoing _ hmore
      cases hfault : o.fault? with
      | none => exact ⟨_, .collect hgoing ho hfault⟩
      | some f => exact ⟨_, .abort hgoing ho hfault⟩
    · exact ⟨_, .take (hwaiting ▸ List.mem_cons_self) (by rw [hrunning]; exact hworkers)⟩
  · have hi : i ∈ p.running := hrunning ▸ List.mem_cons_self
    exact ⟨_, .finish hi (List.getElem?_eq_getElem (hp.running_lt i hi))⟩

/-- A pool can be brought to its end. -/
theorem Sound.exists_done (hp : Sound tasks p) (hworkers : 1 ≤ workers) :
    ∃ q, Reaches workers tasks p q ∧ q.Done tasks := by
  induction htodo : p.todo tasks using Nat.strongRecOn generalizing p with
  | _ n ih =>
    by_cases hdone : p.Done tasks
    · exact ⟨p, .refl, hdone⟩
    · obtain ⟨q, hstep⟩ := hp.exists_step hworkers hdone
      obtain ⟨q', hreach, hdone'⟩ := ih _ (htodo ▸ hp.todo_lt hstep) (hp.step hstep) rfl
      exact ⟨q', .head hstep hreach, hdone'⟩

/-- **No pool goes on for ever.** -/
theorem Sound.exists_end {run : Nat → Pool α} (h : Sound tasks (run 0)) :
    ∃ n, ¬ Step workers tasks (run n) (run (n + 1)) := by
  by_contra hno
  have hstep (n : Nat) : Step workers tasks (run n) (run (n + 1)) :=
    not_not.mp (not_exists.mp hno n)
  have hrun (n : Nat) : Sound tasks (run n) ∧ (run n).todo tasks + n ≤ (run 0).todo tasks := by
    induction n with
    | zero => exact ⟨h, Nat.le_refl _⟩
    | succ n ih =>
      have hlt := ih.1.todo_lt (hstep n)
      exact ⟨ih.1.step (hstep n), by omega⟩
  have := (hrun ((run 0).todo tasks + 1)).2
  omega

end Pool

/-! ## What is collected -/

section Collected

variable {workers : Nat} {tasks : List (Outcome α)} {o : Outcome α} {f : Fault}

theorem inTurn_of_ok (h : ∀ o ∈ tasks, o.fault? = none) : inTurn tasks = .ok tasks := by
  induction tasks with
  | nil => rfl
  | cons o tasks ih =>
    rw [inTurn, h o List.mem_cons_self, ih fun o' ho' => h o' (List.mem_cons_of_mem _ ho')]
    rfl

theorem inTurn_of_fault {before after : List (Outcome α)} (h : ∀ b ∈ before, b.fault? = none)
    (hfault : o.fault? = some f) : inTurn (before ++ o :: after) = .error f := by
  induction before with
  | nil => rw [List.nil_append, inTurn, hfault]
  | cons b before ih =>
    rw [List.cons_append, inTurn, h b List.mem_cons_self,
      ih fun b' hb' => h b' (List.mem_cons_of_mem _ hb')]
    rfl

/-- **A pool that is done has collected what running the tasks in turn collects.** -/
theorem Pool.Sound.result_eq {p : Pool α} (hp : p.Sound tasks) (h : p.Done tasks) :
    p.result = inTurn tasks := by
  rw [result]
  cases hfault : p.fault with
  | some f =>
    obtain ⟨o, ho, hof⟩ := hp.fault_eq f hfault
    obtain ⟨hlt, hget⟩ := List.getElem?_eq_some_iff.mp ho
    have hsplit : p.collected ++ o :: tasks.drop (p.collected.length + 1) = tasks := by
      rw [← hget, ← List.drop_eq_getElem_cons hlt]
      conv_lhs => arg 1; rw [hp.collected_eq]
      exact List.take_append_drop _ _
    rw [← hsplit, inTurn_of_fault hp.collected_ok hof]
  | none =>
    have hall : p.collected.length = tasks.length := by
      simpa [hfault] using h.2.2
    have heq : p.collected = tasks := by
      rw [hp.collected_eq, hall, List.take_length]
    rw [inTurn_of_ok (heq ▸ hp.collected_ok), heq]

/-- **Whatever the way, the same outcomes are collected.** -/
theorem eq_inTurn_of_collects {r : Except Fault (List (Outcome α))}
    (h : Collects workers tasks r) : r = inTurn tasks := by
  cases h with
  | pool _ hreach hdone => exact ((Pool.sound_start tasks).reaches hreach).result_eq hdone
  | inTurn _ => rfl

theorem exists_collects (hworkers : 1 ≤ workers) (tasks : List (Outcome α)) :
    ∃ r, Collects workers tasks r := by
  by_cases hmany : 1 < workers ∧ 1 < tasks.length
  · obtain ⟨p, hreach, hdone⟩ := (Pool.sound_start tasks).exists_done hworkers
    exact ⟨_, .pool hmany hreach hdone⟩
  · exact ⟨_, .inTurn hmany⟩

/-- The outcomes are judged as they are collected. -/
theorem report_inTurn (tasks : List (Outcome α)) : report (inTurn tasks) = gather tasks := by
  rw [gather]
  cases hfault : tasks.findSome? Outcome.fault? with
  | none => rw [inTurn_of_ok (List.findSome?_eq_none_iff.mp hfault)]; rfl
  | some f =>
    obtain ⟨before, o, after, rfl, hof, hbefore⟩ := List.findSome?_eq_some_iff.mp hfault
    rw [inTurn_of_fault hbefore hof]
    rfl

end Collected

/-! ## What is logged and given -/

/-- **The failures of tasks in the order in which they are logged**: by key, and by place where keys
are equal. -/
structure Ranked (tasks : List (Outcome α)) (failed : List (Nat × String × Error)) : Prop where
  sorted : failed.Pairwise fun a b => a.2.1 < b.2.1 ∨ a.2.1 = b.2.1 ∧ a.1 < b.1
  mem_iff : ∀ i key e, (i, key, e) ∈ failed ↔
    ∃ o, tasks[i]? = some o ∧ o.key = key ∧ o.result = .error e

/-- **What has to be logged and given.** The first fault goes before all else and nothing is logged;
without a fault, each failure is logged once, with their number behind them if there are several,
and the first one is given; without any failure, the values are given in the order of the tasks. -/
structure Judged (tasks : List (Outcome α)) (r : List LogLine × Except Error (List α)) : Prop where
  fault : ∀ before o after f, tasks = before ++ o :: after →
    (∀ b ∈ before, ∀ f, b.result ≠ .error (.fault f)) → o.result = .error (.fault f) →
    r = ([], .error (.fault f))
  failed : (∀ o ∈ tasks, ∀ f, o.result ≠ .error (.fault f)) → ∃ failed, Ranked tasks failed ∧
    ∀ first others, failed = first :: others →
      r = (failed.map (fun x => ⟨.error, x.2.2.message⟩) ++
          (if 1 < failed.length then [⟨.error, toString failed.length ++ " templates failed"⟩]
            else []),
        .error first.2.2)
  values : ∀ vs, tasks.map Outcome.result = vs.map .ok → r = ([], .ok vs)

section Judging

variable {tasks : List (Outcome α)} {o : Outcome α} {f : Fault}

theorem fault?_eq_some_iff : o.fault? = some f ↔ o.result = .error (.fault f) := by
  unfold Outcome.fault?
  split
  · rename_i g hg
    rw [hg, Option.some_inj, Except.error.injEq, Error.fault.injEq]
  · rename_i hno
    exact iff_of_false (fun h => nomatch h) (hno f)

theorem fault?_eq_none_iff : o.fault? = none ↔ ∀ f, o.result ≠ .error (.fault f) := by
  simp only [Option.eq_none_iff_forall_ne_some, ne_eq, fault?_eq_some_iff]

theorem failure?_eq_some_iff {key : String} {e : Error} :
    o.failure? = some (key, e) ↔ o.key = key ∧ o.result = .error e := by
  unfold Outcome.failure?
  cases o.result <;> simp

/-- Tasks that are judged to have given values have all given one. -/
theorem gather_ok {outcomes : List (Outcome α)} {vs : List α}
    (h : (gather outcomes).2 = .ok vs) :
    List.Forall₂ (fun o v => o.result = .ok v) outcomes vs := by
  unfold gather at h
  split at h
  · cases h
  · split at h
    · rename_i hfailures
      cases h
      have hok : ∀ o ∈ outcomes, o.failure? = none := by
        have hnil : outcomes.filterMap Outcome.failure? = [] := by
          have := (perm_sortBy (fun a b => textLe a.1 b.1)
            (outcomes.filterMap Outcome.failure?)).symm
          rw [← failures, hfailures] at this
          exact this.eq_nil
        exact List.filterMap_eq_nil_iff.mp hnil
      clear * - hok
      induction outcomes with
      | nil => exact .nil
      | cons o outcomes ih =>
        have ho := hok o List.mem_cons_self
        have htail := ih fun o' ho' => hok o' (List.mem_cons_of_mem _ ho')
        unfold Outcome.failure? at ho
        split at ho
        · cases ho
        · rename_i v hv
          rw [List.filterMap_cons_some (b := v) (by rw [Outcome.value?, hv])]
          exact .cons hv htail
    · cases h

/-- Tasks that have all given values are judged to have given them. -/
theorem gather_of_ok {outcomes : List (Outcome α)} {vs : List α}
    (h : List.Forall₂ (fun o v => o.result = .ok v) outcomes vs) :
    gather outcomes = ([], .ok vs) := by
  have hfault : outcomes.findSome? Outcome.fault? = none := by
    refine List.findSome?_eq_none_iff.mpr fun o ho => ?_
    obtain ⟨v, -, hv⟩ := exists_left_of_forall₂ h.flip ho
    rw [Outcome.fault?, hv]
  have hfailures : outcomes.filterMap Outcome.failure? = [] := by
    refine List.filterMap_eq_nil_iff.mpr fun o ho => ?_
    obtain ⟨v, -, hv⟩ := exists_left_of_forall₂ h.flip ho
    rw [Outcome.failure?, hv]
  have hvalues : outcomes.filterMap Outcome.value? = vs := by
    clear hfault hfailures
    induction h with
    | nil => rfl
    | cons hv _ ih => rw [List.filterMap_cons_some (by rw [Outcome.value?, hv]), ih]
  rw [gather, hfault, failures, hfailures, hvalues]
  rfl

/-- The failures with the places of their tasks, in the order in which they are logged. -/
def placedFailures (tasks : List (Outcome α)) : List (Nat × String × Error) :=
  sortBy (fun a b => textLe a.2.1 b.2.1)
    (tasks.zipIdx.filterMap fun x => x.1.failure?.map (x.2, ·))

theorem failures_eq (tasks : List (Outcome α)) :
    failures tasks = (placedFailures tasks).map Prod.snd := by
  have hsort (l : List (Nat × String × Error)) :
      (sortBy (fun a b => textLe a.2.1 b.2.1) l).map Prod.snd =
        sortBy (fun a b => textLe a.1 b.1) (l.map Prod.snd) :=
    @map_sortBy (String × Error) (fun a b => textLe a.1 b.1) _ Prod.snd l
  rw [placedFailures, failures, hsort, List.map_filterMap]
  congr 1
  conv_lhs => rw [← List.zipIdx_map_fst 0 tasks, List.filterMap_map]
  congr 1
  funext x
  rw [Option.map_map]
  exact (Option.map_id_apply).symm

theorem ranked_placedFailures (tasks : List (Outcome α)) : Ranked tasks (placedFailures tasks) where
  sorted := by
    have hplaces : (tasks.zipIdx.filterMap fun x => x.1.failure?.map (x.2, ·)).Pairwise
        fun a b => a.1 < b.1 := by
      have hrange : tasks.zipIdx.Pairwise fun a b => a.2 < b.2 := by
        rw [← List.pairwise_map (f := Prod.snd) (R := (· < ·)), List.zipIdx_map_snd]
        exact List.pairwise_lt_range' 1
      refine hrange.filterMap _ fun x y hxy a ha b hb => ?_
      obtain ⟨_, -, rfl⟩ := Option.map_eq_some_iff.mp ha
      obtain ⟨_, -, rfl⟩ := Option.map_eq_some_iff.mp hb
      exact hxy
    refine (stable_sortBy (sortsBy_textLe fun x => x.2.1) hplaces).imp fun {a b} h => ?_
    by_cases hlt : a.2.1 < b.2.1
    · exact .inl hlt
    · have hle := String.not_lt.mp hlt
      exact .inr ⟨String.le_antisymm (textLe_iff.mp h.1) hle, h.2 (textLe_iff.mpr hle)⟩
  mem_iff i key e := by
    rw [placedFailures, mem_sortBy, List.mem_filterMap]
    constructor
    · rintro ⟨⟨o, j⟩, ho, hf⟩
      obtain ⟨⟨key', e'⟩, hf, heq⟩ := Option.map_eq_some_iff.mp hf
      cases heq
      exact ⟨o, List.mem_zipIdx_iff_getElem?.mp ho, failure?_eq_some_iff.mp hf⟩
    · rintro ⟨o, ho, hf⟩
      refine ⟨(o, i), List.mem_zipIdx_iff_getElem?.mpr ho, ?_⟩
      rw [failure?_eq_some_iff.mpr hf]
      rfl

/-- **Outcomes are judged as they have to be.** -/
theorem judged_gather (tasks : List (Outcome α)) : Judged tasks (gather tasks) where
  fault before o after f htasks hbefore hfault := by
    have hok : ∀ b ∈ before, b.fault? = none := fun b hb => fault?_eq_none_iff.mpr (hbefore b hb)
    rw [← report_inTurn, htasks, inTurn_of_fault hok (fault?_eq_some_iff.mpr hfault)]
    rfl
  failed hok := by
    refine ⟨placedFailures tasks, ranked_placedFailures tasks, fun first others hfailed => ?_⟩
    rw [← report_inTurn, inTurn_of_ok fun o ho => fault?_eq_none_iff.mpr (hok o ho), report,
      failures_eq, hfailed]
    simp only [List.map_cons, failureLines, List.length_cons, List.length_map, List.map_map]
    rfl
  values vs hvs := by
    have hall : List.Forall₂ (fun o r => o.result = r) tasks (vs.map .ok) :=
      hvs ▸ List.forall₂_map_right_iff.mpr (List.forall₂_same.mpr fun o _ => rfl)
    exact gather_of_ok (List.forall₂_map_right_iff.mp hall)

/-- **Neither the number of workers nor the order in which tasks are finished shows.** There is
always a way to collect the outcomes; whatever the way, what is collected is what running the tasks
in turn collects, and what is logged and given for it is what has to be logged and given. A pool is
never stuck before it is done, and none goes on for ever. -/
theorem collects_judged {workers : Nat} (hworkers : 1 ≤ workers) (tasks : List (Outcome α)) :
    (∃ r, Collects workers tasks r) ∧
    (∀ r, Collects workers tasks r →
      r = inTurn tasks ∧ report r = gather tasks ∧ Judged tasks (report r)) ∧
    (∀ p, Pool.Reaches workers tasks (.start tasks) p →
      p.Done tasks ∨ ∃ q, Pool.Step workers tasks p q) ∧
    ∀ run : Nat → Pool α, run 0 = .start tasks →
      ∃ n, ¬ Pool.Step workers tasks (run n) (run (n + 1)) := by
  refine ⟨exists_collects hworkers tasks, fun r hr => ?_, fun p hreach => ?_, fun run hstart => ?_⟩
  · have hturn := eq_inTurn_of_collects hr
    have hreport : report r = gather tasks := by rw [hturn, report_inTurn]
    exact ⟨hturn, hreport, hreport ▸ judged_gather tasks⟩
  · by_cases hdone : p.Done tasks
    · exact .inl hdone
    · exact .inr (((Pool.sound_start tasks).reaches hreach).exists_step hworkers hdone)
  · exact Pool.Sound.exists_end (hstart ▸ Pool.sound_start tasks)

/-- Two workers at three tasks: of two failures with one key, the one that comes first in the list
is given, whichever is finished first. -/
theorem collects_judged_two_workers :
    let tasks : List (Outcome Nat) :=
      [⟨"b", .error (.general "first")⟩, ⟨"a", .ok 1⟩, ⟨"b", .error (.general "last")⟩]
    1 ≤ 2 ∧ ∃ r, Collects 2 tasks r ∧
      report r = ([⟨.error, "first"⟩, ⟨.error, "last"⟩, ⟨.error, "2 templates failed"⟩],
        .error (.general "first")) := by
  intro tasks
  have h1 : 1 ≤ 2 := by decide
  have h := collects_judged h1 tasks
  obtain ⟨r, hr⟩ := h.1
  exact ⟨h1, r, hr, (h.2.1 r hr).2.1⟩

end Judging

end Stencil.Build
