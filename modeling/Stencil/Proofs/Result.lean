import Mathlib.Data.List.Forall2
import Stencil.Order

/-!
# Steps that may fail

What is known of the steps of a computation in `Except` that gave a result, of steps whose results
differ by a change, of elements that are related one by one, and of a lookup that found something.
-/

namespace Stencil

variable {ε α β : Type}

theorem exists_left_of_forall₂ {P : α → β → Prop} {l : List α} {r : List β}
    (h : List.Forall₂ P l r) {b : β} (hb : b ∈ r) : ∃ a ∈ l, P a b := by
  induction h with
  | nil => cases hb
  | cons hab _ ih =>
    rcases List.mem_cons.mp hb with rfl | hb
    · exact ⟨_, List.mem_cons_self, hab⟩
    · obtain ⟨a, ha, hab⟩ := ih hb
      exact ⟨a, List.mem_cons_of_mem _ ha, hab⟩

theorem Except.bind_ok {x : Except ε α} {f : α → Except ε β} {b : β} :
    (x >>= f) = .ok b ↔ ∃ a, x = .ok a ∧ f a = .ok b := by
  cases x with
  | error e => simp [Bind.bind, Except.bind]
  | ok a => simp [Bind.bind, Except.bind]

theorem Except.bind_error {x : Except ε α} {f : α → Except ε β} {e : ε} :
    (x >>= f) = .error e ↔ x = .error e ∨ ∃ a, x = .ok a ∧ f a = .error e := by
  cases x with
  | error e => simp [Bind.bind, Except.bind]
  | ok a => simp [Bind.bind, Except.bind]

theorem Except.ok_bind (a : α) (f : α → Except ε β) : (.ok a >>= f : Except ε β) = f a := rfl

theorem Except.pure_ok {a b : α} : (pure a : Except ε α) = .ok b ↔ a = b := by
  simp [pure, Except.pure]

theorem Except.exists_ok {x : Except ε α} (h : x.toBool = true) : ∃ a, x = .ok a := by
  cases x with
  | error e => cases h
  | ok a => exact ⟨a, rfl⟩

/-- Something is checked of the result. -/
theorem Except.exists_of_any {x : Except ε α} {p : α → Bool} (h : x.toOption.any p = true) :
    ∃ a, x = .ok a ∧ p a = true := by
  cases x with
  | error e => cases h
  | ok a => exact ⟨a, rfl, h⟩

/-- A step that only checks. -/
theorem Except.seq_ok {x : Except ε Unit} {y : Except ε β} {b : β} :
    (x >>= fun _ => y) = .ok b ↔ x = .ok () ∧ y = .ok b := by
  cases x with
  | error e => simp [Bind.bind, Except.bind]
  | ok u => simp [Bind.bind, Except.bind]

/-- Another error is given for a step that fails. -/
theorem Except.mapError_ok {ε' : Type} {x : Except ε α} {f : ε → ε'} {a : α} :
    x.mapError f = .ok a ↔ x = .ok a := by
  cases x with
  | error e => simp [Except.mapError]
  | ok b => simp [Except.mapError]

/-- A step for each element of a list. -/
theorem Except.mapM_ok {f : α → Except ε β} {l : List α} {r : List β} :
    l.mapM f = .ok r ↔ List.Forall₂ (fun a b => f a = .ok b) l r := by
  induction l generalizing r with
  | nil => rw [List.mapM_nil, Except.pure_ok, List.forall₂_nil_left_iff, eq_comm]
  | cons a l ih =>
    simp only [List.mapM_cons, Except.bind_ok, Except.pure_ok, ih, List.forall₂_cons_left_iff]
    constructor
    · rintro ⟨b, hb, r, hr, rfl⟩
      exact ⟨b, r, hb, hr, rfl⟩
    · rintro ⟨b, r, hb, hr, rfl⟩
      exact ⟨b, hb, r, hr, rfl⟩

theorem Except.mapM_ok_mem {f : α → Except ε β} {l : List α} {r : List β} (h : l.mapM f = .ok r)
    {a : α} (ha : a ∈ l) : ∃ b ∈ r, f a = .ok b :=
  exists_left_of_forall₂ (Except.mapM_ok.mp h).flip ha

/-- A list of steps that fails fails at one of them. -/
theorem Except.exists_of_mapM_error {f : α → Except ε β} {l : List α} {e : ε}
    (h : l.mapM f = .error e) : ∃ a ∈ l, f a = .error e := by
  induction l with
  | nil => cases h
  | cons a l ih =>
    rw [List.mapM_cons, Except.bind_error] at h
    rcases h with h | ⟨_, -, h⟩
    · exact ⟨a, List.mem_cons_self, h⟩
    · rcases Except.bind_error.mp h with h | ⟨_, -, h⟩
      · obtain ⟨b, hb, h⟩ := ih h
        exact ⟨b, List.mem_cons_of_mem _ hb, h⟩
      · cases h

/-- A step for what may be there. -/
theorem Except.option_mapM_ok {f : α → Except ε β} {o : Option α} {r : Option β} :
    o.mapM f = .ok r ↔ Option.Rel (fun a b => f a = .ok b) o r := by
  cases o with
  | none =>
    rw [Option.mapM_none, Except.pure_ok]
    constructor
    · rintro rfl
      exact .none
    · rintro ⟨⟩
      rfl
  | some a =>
    rw [Option.mapM_some, map_eq_pure_bind, Except.bind_ok]
    constructor
    · rintro ⟨b, hb, h⟩
      cases h
      exact .some hb
    · rintro ⟨hb⟩
      exact ⟨_, hb, rfl⟩

/-- One step after the other, where what follows differs by a change of the result. -/
theorem Except.bind_eq_map {x : Except ε α} {f f' : α → Except ε β} {g : β → β}
    (h : ∀ a, f' a = (f a).map g) : (x >>= f') = (x >>= f).map g := by
  cases x with
  | error e => rfl
  | ok a => exact h a

/-- One step after the other, where the result of the first one is changed. -/
theorem Except.map_bind_eq_map {x : Except ε α} {f : α → Except ε β} {c : α → α} {g : β → β}
    (h : ∀ a, f (c a) = (f a).map g) : (x.map c >>= f) = (x >>= f).map g := by
  cases x with
  | error e => rfl
  | ok a => exact h a

/-- One element of a list changes, and its result with it. -/
theorem Except.mapM_modify {f : α → Except ε β} {c c' : α → α} {g : β → β} {l : List α} {i : Nat}
    (h : ∀ a ∈ l[i]?, f (c a) = (f (c' a)).map g) :
    (l.modify i c).mapM f = ((l.modify i c').mapM f).map (·.modify i g) := by
  induction l generalizing i with
  | nil => simp [pure, Except.pure, Except.map]
  | cons a l ih =>
    cases i with
    | zero =>
      rw [List.modify_zero_cons, List.modify_zero_cons, List.mapM_cons, List.mapM_cons, h a rfl]
      refine Except.map_bind_eq_map fun b => ?_
      cases l.mapM f <;> rfl
    | succ i =>
      rw [List.modify_succ_cons, List.modify_succ_cons, List.mapM_cons, List.mapM_cons, ih h]
      refine Except.bind_eq_map fun b => ?_
      refine Except.map_bind_eq_map fun bs => rfl

/-- What a table gives is in the table. -/
theorem mem_of_lookup [BEq α] [LawfulBEq α] {table : List (α × β)} {k : α} {v : β}
    (h : table.lookup k = some v) : (k, v) ∈ table := by
  obtain ⟨before, after, rfl, -⟩ := List.lookup_eq_some_iff.mp h
  exact List.mem_append_right _ List.mem_cons_self

end Stencil
