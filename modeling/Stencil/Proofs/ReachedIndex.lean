import Stencil.Build.Project
import Stencil.Proofs.Actions
import Stencil.Proofs.StaticIndex

/-!
# Indexes that are reached

All ways to add files, one at a time, whole directories or stylesheets, ask for entries whose
logical names are identifiers of texts.

* `Index.Reached`: an index that such requests lead to.
* `Collect.Keeps`: what an action keeps; `keeps_mapM`, ...: so do all that are made of such ones.
* `Collect.Adds`: an action leads from reached indexes to reached ones; `adds_addDir`, ...: all
  actions that add files do.
* **`Build.reached_of_collect`**: the index of a project is reached.
-/

namespace Stencil

open Asset

namespace Index

/-- **An index that is reached** by requests that succeed. -/
inductive Reached : Index → Prop where
  | empty : Reached .empty
  | add {ix ix' : Index} {r : Request} {a : Asset} {text : String} (h : Reached ix)
      (hname : r.name = logicalName text) (hadd : ix.addRequest r = .ok (ix', a)) : Reached ix'

variable {ix : Index}

theorem Reached.valid (h : ix.Reached) : ix.Valid := by
  induction h with
  | empty => exact .empty
  | add _ _ hadd ih => exact ih.addRequest hadd

/-- **The logical names of entries** are identifiers of texts. -/
theorem Reached.exists_logicalName (h : ix.Reached) {n : String} {a : Asset}
    (hget : ix.get? n = some a) : ∃ text, a.name = logicalName text := by
  induction h with
  | empty => cases hget
  | @add ix _ _ _ text _ hname hadd ih =>
    rcases addRequest_ok.mp hadd with ⟨-, rfl, -⟩ | ⟨hnew, -, hentry, rfl⟩
    · exact ih hget
    · rcases (get?_append hnew).mp hget with hget | ⟨-, rfl⟩
      · exact ih hget
      · exact ⟨text, (congrArg Asset.name hentry).trans hname⟩

end Index

namespace Asset

/-! ## Actions that add files -/

namespace Collect

variable {α β : Type}

/-- **An action keeps a property of the index**, also if it fails in the end. -/
def Keeps (P : Index → Prop) (x : Collect α) : Prop :=
  ∀ ⦃ix ix' : Index⦄ ⦃result : Except Error α⦄, Runs x ix result ix' → P ix → P ix'

section Keeps

variable {P : Index → Prop}

theorem keeps_of_unchanged {x : Collect α}
    (h : ∀ {ix ix' : Index} {result : Except Error α}, Runs x ix result ix' → ix' = ix) :
    Keeps P x := fun _ _ _ hx hix => h hx ▸ hix

theorem keeps_pure (a : α) : Keeps P (pure a) := keeps_of_unchanged fun h => (runs_pure.mp h).2

theorem keeps_throw (e : Error) : Keeps P (throw e : Collect α) :=
  keeps_of_unchanged fun h => (runs_throw.mp h).2

theorem Keeps.bind {x : Collect α} {f : α → Collect β} (hx : Keeps P x) (hf : ∀ a, Keeps P (f a)) :
    Keeps P (x >>= f) := by
  intro ix ix' result h hix
  rcases runs_bind.mp h with ⟨a, m, hrun, h⟩ | ⟨e, hrun, -⟩
  · exact hf a h (hx hrun hix)
  · exact hx hrun hix

theorem keeps_get_bind {f : Index → Collect β} (hf : ∀ ix, Keeps P (f ix)) :
    Keeps P (get >>= f) := fun _ _ _ h => hf _ (runs_get_bind.mp h)

/-- After a step that has given something. -/
theorem keeps_ofExcept_bind {x : Except Error α} {f : α → Collect β}
    (hf : ∀ a, x = .ok a → Keeps P (f a)) : Keeps P (MonadExcept.ofExcept x >>= f) := by
  intro ix ix' result h hix
  rcases runs_ofExcept_bind.mp h with ⟨a, ha, h⟩ | ⟨_, -, -, rfl⟩
  · exact hf a ha h hix
  · exact hix

theorem keeps_mapM {f : α → Collect β} {l : List α} (hf : ∀ a ∈ l, Keeps P (f a)) :
    Keeps P (l.mapM f) := by
  induction l with
  | nil =>
    rw [List.mapM_nil]
    exact keeps_pure _
  | cons a l ih =>
    rw [List.mapM_cons]
    have hl := ih fun b hb => hf b (List.mem_cons_of_mem _ hb)
    exact (hf a List.mem_cons_self).bind fun _ => hl.bind fun _ => keeps_pure _

theorem keeps_forIn {f : α → PUnit → Collect (ForInStep PUnit)} {l : List α}
    (hf : ∀ a ∈ l, Keeps P (f a ⟨⟩)) : Keeps P (forIn l ⟨⟩ f) := by
  induction l with
  | nil =>
    rw [List.forIn_nil]
    exact keeps_pure _
  | cons a l ih =>
    rw [List.forIn_cons]
    refine (hf a List.mem_cons_self).bind fun step => ?_
    cases step with
    | done _ => exact keeps_pure _
    | yield _ => exact ih fun b hb => hf b (List.mem_cons_of_mem _ hb)

/-- One more entry. -/
theorem keeps_add {entry : Index → Except Error (Index × Asset)} {r : Request}
    (h : ∀ ix, entry ix = ix.addRequest r)
    (hP : ∀ {ix ix' : Index} {a : Asset}, ix.addRequest r = .ok (ix', a) → P ix → P ix') :
    Keeps P (Collect.add entry) := by
  intro ix ix' result hrun hix
  rw [Runs, Index.run_collectAdd, h] at hrun
  cases hadd : ix.addRequest r with
  | error e =>
    rw [hadd] at hrun
    obtain rfl := (Prod.mk.inj hrun).2
    exact hix
  | ok p =>
    rw [hadd] at hrun
    obtain rfl := (Prod.mk.inj hrun).2
    exact hP hadd hix

end Keeps

/-- **An action that adds files**, also if it fails in the end. -/
def Adds (x : Collect α) : Prop :=
  ∀ ⦃ix ix' : Index⦄ ⦃result : Except Error α⦄, Runs x ix result ix' → ix.Reached → ix'.Reached

theorem adds_pure (a : α) : Adds (pure a) := keeps_pure a

theorem adds_throw (e : Error) : Adds (throw e : Collect α) := keeps_throw e

theorem adds_ofExcept (x : Except Error α) : Adds (MonadExcept.ofExcept x) :=
  keeps_of_unchanged fun h => (runs_ofExcept.mp h).2

theorem Adds.bind {x : Collect α} {f : α → Collect β} (hx : Adds x) (hf : ∀ a, Adds (f a)) :
    Adds (x >>= f) := Keeps.bind hx hf

theorem adds_get_bind {f : Index → Collect β} (hf : ∀ ix, Adds (f ix)) : Adds (get >>= f) :=
  keeps_get_bind hf

theorem adds_mapM {f : α → Collect β} (hf : ∀ a, Adds (f a)) (l : List α) : Adds (l.mapM f) :=
  keeps_mapM fun a _ => hf a

theorem adds_forIn {f : α → PUnit → Collect (ForInStep PUnit)} (hf : ∀ a, Adds (f a ⟨⟩))
    (l : List α) : Adds (forIn l ⟨⟩ f) := keeps_forIn fun a _ => hf a

/-- One more entry. -/
theorem adds_add {entry : Index → Except Error (Index × Asset)} {r : Request} {text : String}
    (hname : r.name = logicalName text) (h : ∀ ix, entry ix = ix.addRequest r) :
    Adds (Collect.add entry) := keeps_add h fun hadd hix => .add hix hname hadd

end Collect

open Collect

section Origin

variable (o : Origin) (path : Path) (text : String)

theorem adds_addHashed : Adds (o.addHashed path text) := by
  refine (adds_ofExcept _).bind fun content => ?_
  refine adds_add (r := ⟨some path, logicalName text, hashedName path.name content,
    mimeOf (extension path.name), content⟩) (by with_reducible rfl) fun ix => ?_
  rw [Index.addRequest]

theorem adds_addFile : Adds (o.addFile path) := adds_addHashed o _ _

theorem adds_addFileAs : Adds (o.addFileAs path text) := by
  refine (adds_ofExcept _).bind fun content => ?_
  refine adds_add (r := ⟨some (o.base / path), logicalName text, text,
    mimeOf (extension (o.base / path).name), content⟩) (by with_reducible rfl) fun ix => ?_
  rw [Index.addRequest]

theorem adds_addDir : Adds (o.addDir path) :=
  (adds_ofExcept _).bind (adds_mapM fun _ => adds_addHashed o _ _)

theorem adds_addDirAs : Adds (o.addDirAs path text) :=
  (adds_ofExcept _).bind (adds_mapM fun _ => adds_addFileAs o _ _)

theorem adds_addContent (content : List UInt8) (source : Option Path) :
    Adds (Collect.add (Index.addContent · source text content)) := by
  refine adds_add (r := ⟨source, logicalName text, hashedName text content,
    mimeOf (extension text), content⟩) (by with_reducible rfl) fun ix => ?_
  rw [Index.addContent, Index.addRequest]

theorem adds_addStylesheet (make : Preprocessor) : Adds (o.addStylesheet path make) := by
  refine adds_get_bind fun ix => ?_
  split
  · exact adds_throw _
  · exact adds_throw _
  · split
    · exact adds_throw _
    · exact adds_addContent _ _ _

end Origin

end Asset

namespace Build

theorem adds_addStatics (o : Origin) (s : StaticConfig) (make : Preprocessor) :
    Collect.Adds (addStatics o s make) := by
  refine (Collect.adds_forIn (fun _ => ?_) _).bind fun _ =>
    (Collect.adds_forIn (fun _ => ?_) _).bind fun _ =>
    (Collect.adds_forIn (fun _ => ?_) _).bind fun _ =>
    (Collect.adds_forIn (fun _ => ?_) _).bind fun _ => Collect.adds_pure _
  · exact (adds_addDir o _).bind fun _ => Collect.adds_pure _
  · exact (adds_addFile o _).bind fun _ => Collect.adds_pure _
  · exact (adds_addDirAs o _ _).bind fun _ => Collect.adds_pure _
  · exact (adds_addStylesheet o _ make).bind fun _ => Collect.adds_pure _

/-- **The index of a project is reached.** -/
theorem reached_of_collect {disk : Disk} {c : Config} {make : Preprocessor} {ix : Index}
    (h : collect disk c make = .ok (some ix)) : ix.Reached := by
  unfold collect at h
  split at h
  · dsimp only at h
    split at h
    · rename_i hrun
      cases h
      exact adds_addStatics _ _ _ hrun .empty
    · cases h
  · cases h

end Build

/-- Additions in a row reach an index, whether they succeed or fail. -/
theorem Index.reached_after (steps : List (Origin × Addition)) : (after steps).Reached := by
  refine after_induction .empty (fun h hr hadd => ?_) steps
  rcases Addition.request_cases hr with ⟨_, hname, -⟩ | ⟨_, -, hname, -⟩
  · exact h.add hname hadd
  · exact h.add hname hadd

end Stencil
