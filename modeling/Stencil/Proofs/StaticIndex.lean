import Mathlib.Data.List.Nodup
import Stencil.Asset.Collect
import Stencil.Proofs.Result

/-!
# The index of static files

Files are added one at a time: under a hashed name, under a public name of their own, or as a
content that is given. Whatever was added before, and whether it succeeded or failed, the three
tables of the index fit together.

* `Asset.Addition`: a file that is added; `Asset.Addition.request`: what the index is asked for.
* `Index.addRequest_ok`: what a successful step of the index does.
* `Index.Valid`: the tables fit together; `Index.Valid.addRequest`: a step keeps this.
* **`Index.valid_after`**: it holds after all additions, and an addition that fails changes nothing.
-/

namespace Stencil

/-! ## Tables -/

section Tables

variable {α : Type} {l : List (String × α)} {key k : String} {value : α}

theorem mem_map_fst_iff : k ∈ l.map Prod.fst ↔ ∃ v, l.lookup k = some v := by
  rw [← Option.isSome_iff_exists, List.lookup_isSome_iff, List.mem_map]
  simp only [beq_iff_eq, eq_comm (a := k)]

/-- In a table without repeated keys, the pairs are what is found. -/
theorem lookup_of_mem (h : (l.map Prod.fst).Nodup) (hm : (k, value) ∈ l) :
    l.lookup k = some value := by
  obtain ⟨v, hv⟩ := mem_map_fst_iff.mp (List.mem_map_of_mem (f := Prod.fst) hm)
  have := List.inj_on_of_nodup_map h hm (mem_of_lookup hv) rfl
  rw [hv, (Prod.mk.inj this).2]

namespace Index

theorem lookup_putNew : (putNew l key value).lookup k =
    (l.lookup k).or (if k = key then some value else none) := by
  unfold putNew
  by_cases hk : k = key
  · subst hk
    cases hl : l.lookup k <;> simp [hl, List.lookup_append]
  · rw [if_neg hk, Option.or_none]
    split
    · rfl
    · rw [List.lookup_append, List.lookup_cons, beq_eq_false_iff_ne.mpr hk]
      cases l.lookup k <;> rfl

theorem lookup_putNew_self :
    (putNew l key value).lookup key = some ((l.lookup key).getD value) := by
  rw [lookup_putNew, if_pos rfl]
  cases l.lookup key <;> rfl

theorem lookup_putNew_of_some {v : α} (h : l.lookup k = some v) :
    (putNew l key value).lookup k = some v := by
  rw [lookup_putNew, h, Option.some_or]

theorem nodup_putNew (h : (l.map Prod.fst).Nodup) : ((putNew l key value).map Prod.fst).Nodup := by
  unfold putNew
  split
  · exact h
  · rename_i hnone
    rw [Option.isSome_iff_exists, ← mem_map_fst_iff] at hnone
    rw [List.map_append, List.map_singleton, ← List.concat_eq_append]
    exact h.concat hnone

theorem mem_putNew {x : String × α} (h : x ∈ putNew l key value) : x ∈ l ∨ x = (key, value) := by
  unfold putNew at h
  split at h
  · exact .inl h
  · exact (List.mem_append.mp h).imp_right List.mem_singleton.mp

theorem subset_putNew : l ⊆ putNew l key value := by
  unfold putNew
  split
  · exact List.Subset.refl l
  · exact List.subset_append_left _ _

section First

variable {β : Type} {keyOf : β → String} {valueOf : β → α} {as : List β}

theorem nodup_foldl_putNew (h : (l.map Prod.fst).Nodup) :
    ((as.foldl (fun l a => putNew l (keyOf a) (valueOf a)) l).map Prod.fst).Nodup := by
  induction as generalizing l with
  | nil => exact h
  | cons a as ih => exact ih (nodup_putNew h)

theorem subset_foldl_putNew :
    l ⊆ as.foldl (fun l a => putNew l (keyOf a) (valueOf a)) l := by
  induction as generalizing l with
  | nil => exact List.Subset.refl l
  | cons a as ih => exact List.Subset.trans subset_putNew ih

/-- A table holds the first value of each key. -/
theorem mem_foldl_putNew {x : String × α}
    (h : x ∈ as.foldl (fun l a => putNew l (keyOf a) (valueOf a)) l) :
    x ∈ l ∨ ∃ a ∈ as, x = (keyOf a, valueOf a) := by
  induction as generalizing l with
  | nil => exact .inl h
  | cons a as ih =>
    rcases ih h with h | ⟨b, hb, h⟩
    · exact (mem_putNew h).imp_right fun h => ⟨a, List.mem_cons_self, h⟩
    · exact .inr ⟨b, List.mem_cons_of_mem _ hb, h⟩

theorem exists_mem_foldl_putNew (keyOf : β → String) (valueOf : β → α) {a : β} (h : a ∈ as) :
    ∃ v, (keyOf a, v) ∈ as.foldl (fun l a => putNew l (keyOf a) (valueOf a)) l := by
  induction as generalizing l with
  | nil => cases h
  | cons b as ih =>
    rcases List.mem_cons.mp h with rfl | h
    · rw [List.foldl_cons]
      exact ⟨_, subset_foldl_putNew (mem_of_lookup lookup_putNew_self)⟩
    · exact ih h

end First

end Index

end Tables

/-! ## Requests -/

namespace Asset

/-- **What the index is asked for** when a file is added. -/
structure Request where
  source : Option Path
  name : String
  publicPath : String
  mime : String
  content : List UInt8
  deriving DecidableEq

namespace Request

/-- The digest of the content. -/
def digest (r : Request) : String := Md5.hex r.content

/-- The entry of a request, with the content that is kept for its digest. -/
def entry (r : Request) (kept : List UInt8) : Asset :=
  ⟨r.source, r.name, r.digest, r.publicPath, r.mime, kept⟩

end Request

/-- **A file that is added**: one that is read, under a hashed name or under a public name of its
own, or a content that is taken for that of a file. -/
inductive Addition where
  | file (path : Path)
  | fileAs (path : Path) (publicPath : String)
  | content (path : Path) (content : List UInt8) (source : Option Path)
  deriving DecidableEq

namespace Addition

/-- **Adds a file.** -/
def run (o : Origin) : Addition → Collect Asset
  | .file path => o.addFile path
  | .fileAs path publicPath => o.addFileAs path publicPath
  | .content path bytes source => Collect.add (Index.addContent · source path.name bytes)

/-- What the index is asked for, unless the file cannot be read. -/
def request (o : Origin) : Addition → Except Error Request
  | .file path => do
    let content ← o.read (o.base / path)
    let name := (o.base / path).name
    return ⟨some (o.base / path), logicalName name, hashedName name content,
      mimeOf (extension name), content⟩
  | .fileAs path publicPath => do
    let content ← o.read (o.base / path)
    return ⟨some (o.base / path), logicalName publicPath, publicPath,
      mimeOf (extension (o.base / path).name), content⟩
  | .content path bytes source => .ok ⟨source, logicalName path.name,
      hashedName path.name bytes, mimeOf (extension path.name), bytes⟩

/-- A file gets a hashed name, or a public name of its own. -/
theorem request_cases {o : Origin} {a : Addition} {r : Request} (h : a.request o = .ok r) :
    (∃ file, r.name = logicalName file ∧ r.publicPath = hashedName file r.content ∧
      r.mime = mimeOf (extension file)) ∨
    ∃ path, r.source = some path ∧ r.name = logicalName r.publicPath ∧
      r.mime = mimeOf (extension path.name) := by
  cases a with
  | file path =>
    obtain ⟨content, -, hr⟩ := Except.bind_ok.mp h
    cases Except.pure_ok.mp hr
    refine .inl ⟨(o.base / path).name, ?_, ?_, ?_⟩ <;> with_reducible rfl
  | fileAs path publicPath =>
    obtain ⟨content, -, hr⟩ := Except.bind_ok.mp h
    cases Except.pure_ok.mp hr
    refine .inr ⟨o.base / path, ?_, ?_, ?_⟩ <;> with_reducible rfl
  | content path bytes source =>
    cases Except.ok.inj h
    refine .inl ⟨path.name, ?_, ?_, ?_⟩ <;> with_reducible rfl

end Addition

end Asset

open Asset

namespace Index

/-- The index after a request, and the entry. -/
def addRequest (ix : Index) (r : Request) : Except Error (Index × Asset) :=
  ix.add r.source r.name r.publicPath r.mime r.content

/-- **The result of an addition and the index after it.** -/
def apply (ix : Index) (o : Origin) (a : Addition) : Except Error Asset × Index :=
  (a.run o).run.run ix

/-- **The index after additions in a row**. Each of them may read from another disk and may fail. -/
def after (steps : List (Origin × Addition)) : Index :=
  steps.foldl (fun ix step => (ix.apply step.1 step.2).2) .empty

/-- The result of a step and the index after it: a step that fails leaves the index as it was. -/
def settle (ix : Index) : Except Error (Index × Asset) → Except Error Asset × Index
  | .ok (ix', a) => (.ok a, ix')
  | .error e => (.error e, ix)

theorem run_collectAdd (ix : Index) (entry : Index → Except Error (Index × Asset)) :
    (Collect.add entry).run.run ix = ix.settle (entry ix) := by
  have hdo : (Collect.add entry).run.run ix =
      ((MonadExcept.ofExcept (entry ix) : Collect (Index × Asset)) >>= fun p => do
        set p.1
        return p.2).run.run ix := rfl
  rw [hdo]
  cases entry ix with
  | error e => rfl
  | ok p => rfl

theorem run_ofExcept_bind_collectAdd (ix : Index) (x : Except Error (List UInt8))
    (entry : List UInt8 → Index → Except Error (Index × Asset)) :
    ((MonadExcept.ofExcept x : Collect (List UInt8)) >>= fun content =>
      Collect.add (entry content)).run.run ix =
      ix.settle (x >>= fun content => entry content ix) := by
  cases x with
  | error e => rfl
  | ok content => exact run_collectAdd ix (entry content)

/-- **An addition asks for its entry**, if its file can be read. -/
theorem apply_eq (ix : Index) (o : Origin) (a : Addition) :
    ix.apply o a = ix.settle (a.request o >>= ix.addRequest) := by
  cases a with
  | content path bytes source =>
    rw [apply, Addition.run, run_collectAdd, Addition.request, Except.ok_bind, addRequest,
      addContent]
  | file path =>
    rw [apply, Addition.run, Origin.addFile, Origin.addHashed, run_ofExcept_bind_collectAdd,
      Addition.request]
    cases o.read (o.base / path) with
    | error e => rfl
    | ok content => simp only [Except.ok_bind, pure, Except.pure, addRequest]
  | fileAs path publicPath =>
    rw [apply, Addition.run, Origin.addFileAs, run_ofExcept_bind_collectAdd, Addition.request]
    cases o.read (o.base / path) with
    | error e => rfl
    | ok content => simp only [Except.ok_bind, pure, Except.pure, addRequest]

/-- **What a successful step does**: the entry is there already, or it is new and shares its public
name only with entries of its digest. -/
theorem addRequest_ok {ix ix' : Index} {r : Request} {a : Asset} :
    ix.addRequest r = .ok (ix', a) ↔
      (ix.get? r.name = some a ∧ ix' = ix ∧ r.source.isSome ∧ a.source = r.source ∧
        a.digest = r.digest) ∨
      (ix.get? r.name = none ∧ (∀ old, ix.owner? r.publicPath = some old → old.digest = r.digest) ∧
        a = r.entry ((ix.arena.lookup r.digest).getD r.content) ∧
        ix' = ⟨ix.entries ++ [(r.name, a)], putNew ix.owners r.publicPath r.name,
          putNew ix.arena r.digest r.content⟩) := by
  unfold addRequest add
  cases hget : ix.get? r.name with
  | some old =>
    simp only [Option.some.injEq, reduceCtorEq, false_and, or_false]
    split
    · rename_i hsame
      simp only [Bool.and_eq_true, decide_eq_true_eq] at hsame
      rw [Except.ok.injEq, Prod.mk.injEq]
      constructor
      · rintro ⟨rfl, rfl⟩
        exact ⟨rfl, rfl, hsame.1.1, hsame.1.2, hsame.2⟩
      · rintro ⟨rfl, rfl, -⟩
        exact ⟨rfl, rfl⟩
    · rename_i hsame
      simp only [Bool.and_eq_true, decide_eq_true_eq] at hsame
      simp only [reduceCtorEq, false_iff]
      rintro ⟨rfl, -, h⟩
      exact hsame ⟨⟨h.1, h.2.1⟩, h.2.2⟩
  | none =>
    have hinsert : (Except.ok (add.insert ix r.source r.name r.publicPath r.mime r.content
        (Md5.hex r.content)) : Except Error (Index × Asset)) = .ok (ix', a) ↔
        a = r.entry ((ix.arena.lookup r.digest).getD r.content) ∧
        ix' = ⟨ix.entries ++ [(r.name, a)], putNew ix.owners r.publicPath r.name,
          putNew ix.arena r.digest r.content⟩ := by
      rw [Except.ok.injEq, add.insert, Prod.mk.injEq]
      constructor
      · rintro ⟨rfl, rfl⟩
        exact ⟨rfl, rfl⟩
      · rintro ⟨rfl, rfl⟩
        exact ⟨rfl, rfl⟩
    simp only [reduceCtorEq, false_and, false_or, true_and]
    cases howner : ix.owner? r.publicPath with
    | none =>
      simp only [reduceCtorEq, false_implies, implies_true, true_and]
      exact hinsert
    | some old =>
      simp only [Option.some.injEq, forall_eq']
      rw [Request.digest]
      split
      · rename_i hd
        exact hinsert.trans (and_iff_right hd).symm
      · rename_i hd
        exact iff_of_false (fun h => by cases h) fun h => hd h.1

/-! ## The invariant -/

/-- **The tables of an index fit together.** -/
structure Valid (ix : Index) : Prop where
  nodup_entries : (ix.entries.map Prod.fst).Nodup
  nodup_owners : (ix.owners.map Prod.fst).Nodup
  nodup_arena : (ix.arena.map Prod.fst).Nodup
  /-- An entry stands under its own logical name. -/
  name_eq : ∀ {n a}, ix.get? n = some a → a.name = n
  /-- The public name of an entry has an owner. -/
  registered : ∀ {n a}, ix.get? n = some a → ∃ m, ix.owners.lookup a.publicPath = some m
  /-- The owner of a public name is an entry of that public name. -/
  owned : ∀ {p m}, ix.owners.lookup p = some m → ∃ b, ix.get? m = some b ∧ b.publicPath = p
  /-- Entries of one public name have one digest. -/
  digest_eq : ∀ {m n a b}, ix.get? m = some a → ix.get? n = some b →
    a.publicPath = b.publicPath → a.digest = b.digest
  /-- The contents that are kept are those of the digests in use. -/
  inUse : ∀ {d}, (∃ c, ix.arena.lookup d = some c) ↔ ∃ n a, ix.get? n = some a ∧ a.digest = d
  /-- The content of an entry is the one that is kept for its digest. -/
  kept : ∀ {n a}, ix.get? n = some a → ix.arena.lookup a.digest = some a.content
  /-- The digest of an entry is that of its content. -/
  hex_content : ∀ {n a}, ix.get? n = some a → Md5.hex a.content = a.digest

theorem Valid.empty : Index.empty.Valid where
  nodup_entries := .nil
  nodup_owners := .nil
  nodup_arena := .nil
  name_eq h := by cases h
  registered h := by cases h
  owned h := by cases h
  digest_eq h := by cases h
  inUse := iff_of_false (fun ⟨_, h⟩ => by cases h) fun ⟨_, _, h, _⟩ => by cases h
  kept h := by cases h
  hex_content h := by cases h

section Step

variable {ix : Index} {r : Request} {a : Asset} {n p : String}

/-- The entries with a new one. -/
theorem get?_append (hnew : ix.get? r.name = none) {owners : List (String × String)}
    {arena : List (String × List UInt8)} {b : Asset} :
    (Index.mk (ix.entries ++ [(r.name, a)]) owners arena).get? n = some b ↔
      ix.get? n = some b ∨ n = r.name ∧ b = a := by
  rw [get?, List.lookup_append, Option.or_eq_some_iff, List.lookup_cons]
  by_cases hn : n = r.name
  · subst hn
    rw [beq_self_eq_true, ← get?, hnew, and_iff_right rfl, Option.some.injEq, eq_comm (a := a)]
    simp only [true_and]
  · rw [beq_eq_false_iff_ne.mpr hn, List.lookup_nil, ← get?]
    simp only [hn, reduceCtorEq, and_false, false_and]

theorem Valid.owner?_eq_some (h : ix.Valid) {b : Asset} (hb : ix.get? n = some b) :
    ∃ old m, ix.owner? b.publicPath = some old ∧ ix.get? m = some old ∧
      old.publicPath = b.publicPath := by
  obtain ⟨m, hm⟩ := h.registered hb
  obtain ⟨old, hold, hpath⟩ := h.owned hm
  exact ⟨old, m, by rw [owner?, hm, Option.bind_some, hold], hold, hpath⟩

/-- Where the owner of a public name has a digest, all entries of this public name have it. -/
theorem Valid.digest_eq_of_owner (h : ix.Valid) {d : String}
    (howner : ∀ old, ix.owner? p = some old → old.digest = d) {b : Asset}
    (hb : ix.get? n = some b) (hp : b.publicPath = p) : b.digest = d := by
  obtain ⟨old, m, hfound, hold, hpath⟩ := h.owner?_eq_some hb
  rw [← howner old (hp ▸ hfound)]
  exact h.digest_eq hb hold hpath.symm

/-- The content that is kept for a digest has this digest. -/
theorem Valid.hex_of_lookup (h : ix.Valid) {d : String} {c : List UInt8}
    (hc : ix.arena.lookup d = some c) : Md5.hex c = d := by
  obtain ⟨n, b, hb, rfl⟩ := h.inUse.mp ⟨c, hc⟩
  rw [← h.hex_content hb, Option.some.inj ((h.kept hb).symm.trans hc)]

/-- **A successful step keeps the tables together.** -/
theorem Valid.addRequest (h : ix.Valid) {ix' : Index} (hadd : ix.addRequest r = .ok (ix', a)) :
    ix'.Valid := by
  rcases addRequest_ok.mp hadd with ⟨-, rfl, -⟩ | ⟨hnew, howner, ha, rfl⟩
  · exact h
  have hname : a.name = r.name := congrArg Asset.name ha
  have hpath : a.publicPath = r.publicPath := congrArg Asset.publicPath ha
  have hdigest : a.digest = r.digest := congrArg Asset.digest ha
  have hcontent : a.content = (ix.arena.lookup r.digest).getD r.content :=
    congrArg Asset.content ha
  refine ⟨?_, nodup_putNew h.nodup_owners, nodup_putNew h.nodup_arena, ?_, ?_, ?_, ?_, ?_, ?_, ?_⟩
  case refine_1 =>
    rw [List.map_append, List.map_singleton, ← List.concat_eq_append]
    refine h.nodup_entries.concat fun hm => ?_
    obtain ⟨b, hb⟩ := mem_map_fst_iff.mp hm
    cases hnew.symm.trans hb
  case refine_2 =>
    intro n b hb
    rcases (get?_append hnew).mp hb with hb | ⟨rfl, rfl⟩
    · exact h.name_eq hb
    · exact hname
  case refine_3 =>
    intro n b hb
    rcases (get?_append hnew).mp hb with hb | ⟨rfl, rfl⟩
    · obtain ⟨m, hm⟩ := h.registered hb
      exact ⟨m, lookup_putNew_of_some hm⟩
    · rw [hpath]
      exact ⟨_, lookup_putNew_self⟩
  case refine_4 =>
    intro p m hm
    rw [lookup_putNew, Option.or_eq_some_iff, Option.ite_none_right_eq_some] at hm
    rcases hm with hm | ⟨-, rfl, ⟨⟩⟩
    · obtain ⟨b, hb, hp⟩ := h.owned hm
      exact ⟨b, (get?_append hnew).mpr (.inl hb), hp⟩
    · exact ⟨a, (get?_append hnew).mpr (.inr ⟨rfl, rfl⟩), hpath⟩
  case refine_5 =>
    intro m n b b' hm hn hp
    rcases (get?_append hnew).mp hm with hb | ⟨rfl, rfl⟩ <;>
      rcases (get?_append hnew).mp hn with hb' | ⟨rfl, rfl⟩
    · exact h.digest_eq hb hb' hp
    · rw [hdigest]
      exact h.digest_eq_of_owner howner hb (hp.trans hpath)
    · rw [hdigest]
      exact (h.digest_eq_of_owner howner hb' (hp.symm.trans hpath)).symm
    · rfl
  case refine_6 =>
    intro d
    simp only [lookup_putNew, Option.or_eq_some_iff, Option.ite_none_right_eq_some,
      get?_append hnew]
    constructor
    · rintro ⟨c, hc | ⟨-, rfl, -⟩⟩
      · obtain ⟨n, b, hb, hd⟩ := h.inUse.mp ⟨c, hc⟩
        exact ⟨n, b, .inl hb, hd⟩
      · exact ⟨r.name, a, .inr ⟨rfl, rfl⟩, hdigest⟩
    · rintro ⟨n, b, hb | ⟨-, rfl⟩, hd⟩
      · obtain ⟨c, hc⟩ := h.inUse.mpr ⟨n, b, hb, hd⟩
        exact ⟨c, .inl hc⟩
      · rw [← hd, hdigest]
        cases hl : ix.arena.lookup r.digest with
        | none => exact ⟨r.content, .inr ⟨rfl, rfl, rfl⟩⟩
        | some c => exact ⟨c, .inl rfl⟩
  case refine_7 =>
    intro n b hb
    rcases (get?_append hnew).mp hb with hb | ⟨rfl, rfl⟩
    · exact lookup_putNew_of_some (h.kept hb)
    · rw [hdigest, hcontent]
      exact lookup_putNew_self
  case refine_8 =>
    intro n b hb
    rcases (get?_append hnew).mp hb with hb | ⟨rfl, rfl⟩
    · exact h.hex_content hb
    · rw [hdigest, hcontent]
      cases hl : ix.arena.lookup r.digest with
      | none => rfl
      | some c => exact h.hex_of_lookup hl

end Step

/-- **What holds after additions**: what holds at first and is kept by successful steps. -/
theorem after_induction {motive : Index → Prop} (empty : motive .empty)
    (step : ∀ {ix ix' : Index} {o : Origin} {a : Addition} {r : Request} {asset : Asset},
      motive ix → a.request o = .ok r → ix.addRequest r = .ok (ix', asset) → motive ix')
    (steps : List (Origin × Addition)) : motive (after steps) := by
  rw [after]
  generalize Index.empty = ix at empty
  induction steps generalizing ix with
  | nil => exact empty
  | cons s steps ih =>
    rw [List.foldl_cons]
    refine ih _ ?_
    rw [apply_eq]
    cases hadd : s.2.request s.1 >>= ix.addRequest with
    | error e => exact empty
    | ok p =>
      obtain ⟨r, hr, hadd⟩ := Except.bind_ok.mp hadd
      exact step empty hr hadd

theorem Valid.after (steps : List (Origin × Addition)) : (after steps).Valid :=
  after_induction Valid.empty (fun h _ hadd => h.addRequest hadd) steps

/-- **The tables fit together after all additions**, and one more finds its entry under the logical
name and keeps all others, or it fails and leaves all three tables as they were. -/
theorem valid_after (steps : List (Origin × Addition)) :
    (after steps).Valid ∧ ∀ (o : Origin) (addition : Addition),
      (∃ a ix, (after steps).apply o addition = (.ok a, ix) ∧ ix.get? a.name = some a ∧
        ∀ n b, (after steps).get? n = some b → ix.get? n = some b) ∨
      ∃ e, (after steps).apply o addition = (.error e, after steps) := by
  refine ⟨.after steps, fun o addition => ?_⟩
  rw [apply_eq]
  cases hadd : addition.request o >>= (Index.after steps).addRequest with
  | error e => exact .inr ⟨e, rfl⟩
  | ok p =>
    obtain ⟨ix, a⟩ := p
    obtain ⟨r, -, hadd⟩ := Except.bind_ok.mp hadd
    refine .inl ⟨a, ix, rfl, ?_⟩
    rcases addRequest_ok.mp hadd with ⟨hget, rfl, -⟩ | ⟨hnew, -, ha, rfl⟩
    · rw [(Valid.after steps).name_eq hget]
      exact ⟨hget, fun n b hb => hb⟩
    · rw [congrArg Asset.name ha]
      exact ⟨(get?_append hnew).mpr (.inr ⟨rfl, rfl⟩),
        fun n b hb => (get?_append hnew).mpr (.inl hb)⟩

end Index

end Stencil
