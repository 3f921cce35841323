import Mathlib.Data.List.Perm.Basic
import Stencil.Asset.Module
import Stencil.Proofs.Actions
import Stencil.Proofs.FileNames
import Stencil.Proofs.Sorting
import Stencil.Proofs.StaticIndex

/-!
# The order of static files

Files that are added in a row give an index; in another order they may give another one, or fail.

* `Request.Compatible`: two files can be added one after the other, in either order.
* `Index.Holds`: an index holds what was asked for; `Index.Holds.build_isOk`: requests can be made in
  a row exactly if all pairs are compatible.
* **`Index.order_irrelevant_iff`**: the order does not matter exactly if additions that meet at a
  logical name ask for one public name and those that meet at a digest have one content.
* **`Index.order_matters`**: a file under a hashed name and under a public name of its own.
-/

namespace Stencil

open Asset

/-! ## Requests -/

namespace Asset

namespace Addition

variable {o o' : Origin} {a b : Addition} {r s : Request}

/-- **The names and the source of a file give its type.** -/
theorem mime_eq (ha : a.request o = .ok r) (hb : b.request o' = .ok s) (hname : r.name = s.name)
    (hpath : r.publicPath = s.publicPath) (hsource : r.source = s.source) : r.mime = s.mime := by
  rcases request_cases ha with ⟨f, hn, hp, hm⟩ | ⟨p, hs, hn, hm⟩ <;>
    rcases request_cases hb with ⟨f', hn', hp', hm'⟩ | ⟨p', hs', hn', hm'⟩
  · rw [hm, hm', ← extension_hashedName f r.content, ← hp, hpath, hp', extension_hashedName]
  · rw [← hname, hn, ← hpath, hp] at hn'
    exact absurd hn'.symm (logicalName_hashedName_ne f r.content)
  · rw [hname, hn', hpath, hp'] at hn
    exact absurd hn.symm (logicalName_hashedName_ne f' s.content)
  · rw [hm, hm', Option.some.inj (hs.symm.trans (hsource.trans hs'))]

end Addition

namespace Request

variable {r s : Request}

/-- Two requests do not exclude each other. -/
structure Compatible (r s : Request) : Prop where
  name : r.name = s.name → r.source.isSome ∧ r.source = s.source ∧ r.digest = s.digest
  publicPath : r.publicPath = s.publicPath → r.digest = s.digest

theorem Compatible.symm (h : r.Compatible s) : s.Compatible r where
  name hname := by
    obtain ⟨hsome, hsource, hdigest⟩ := h.name hname.symm
    exact ⟨hsource ▸ hsome, hsource.symm, hdigest.symm⟩
  publicPath hpath := (h.publicPath hpath.symm).symm

/-- Two requests ask for the same where they meet. -/
structure Agree (r s : Request) : Prop where
  publicPath : r.name = s.name → r.publicPath = s.publicPath
  mime : r.name = s.name → r.source = s.source → r.mime = s.mime
  content : r.digest = s.digest → r.content = s.content

/-- Compatible requests for one logical name are one request if they agree. -/
theorem Agree.eq (h : r.Agree s) (hc : r.Compatible s) (hname : r.name = s.name) : r = s := by
  obtain ⟨-, hsource, hdigest⟩ := hc.name hname
  have hpath := h.publicPath hname
  have hmime := h.mime hname hsource
  have hcontent := h.content hdigest
  cases r
  cases s
  simp_all only

end Request

end Asset

namespace Index

variable {ix ix' : Index} {r s : Request} {rs done : List Request} {a : Asset} {n : String}

/-! ## Entries -/

theorem Valid.mem_assets (h : ix.Valid) : a ∈ ix.assets ↔ ix.get? a.name = some a := by
  rw [assets, mem_sortBy, List.mem_map]
  constructor
  · rintro ⟨⟨n, b⟩, hm, rfl⟩
    have hget : ix.get? n = some b := lookup_of_mem h.nodup_entries hm
    rw [h.name_eq hget]
    exact hget
  · intro hget
    exact ⟨(a.name, a), mem_of_lookup hget, rfl⟩

theorem Valid.map_name_entries (h : ix.Valid) :
    (ix.entries.map Prod.snd).map Asset.name = ix.entries.map Prod.fst := by
  rw [List.map_map]
  refine List.map_congr_left fun x hx => ?_
  have hget : ix.get? x.1 = some x.2 := lookup_of_mem h.nodup_entries hx
  exact h.name_eq hget

theorem mem_map_entries : a ∈ ix.entries.map Prod.snd ↔ a ∈ ix.assets := (mem_sortBy _).symm

theorem Valid.nodup_assets (h : ix.Valid) : (ix.entries.map Prod.snd).Nodup :=
  .of_map Asset.name (h.map_name_entries ▸ h.nodup_entries)

/-- **Indexes with the same entries list them alike.** -/
theorem assets_eq_of_get? (h : ix.Valid) (h' : ix'.Valid)
    (hget : ∀ n a, ix.get? n = some a ↔ ix'.get? n = some a) : ix.assets = ix'.assets := by
  refine sortBy_eq_of_perm (sortsBy_textLe Asset.name) ?_ ?_
  · refine (List.perm_ext_iff_of_nodup h.nodup_assets h'.nodup_assets).mpr fun a => ?_
    rw [mem_map_entries, mem_map_entries, h.mem_assets, h'.mem_assets, hget]
  · intro a ha b hb hab hba
    rw [mem_map_entries] at ha hb
    have hfound := h.mem_assets.mp ha
    rw [textLe_antisymm hab hba] at hfound
    exact Option.some.inj (hfound.symm.trans (h.mem_assets.mp hb))

theorem get?_of_assets_eq (h : ix.Valid) (h' : ix'.Valid) (hassets : ix.assets = ix'.assets)
    (hget : ix.get? n = some a) : ix'.get? n = some a := by
  obtain rfl := h.name_eq hget
  exact h'.mem_assets.mp (hassets ▸ h.mem_assets.mpr hget)

theorem names_eq_of_assets_eq (h : ix.assets = ix'.assets) : ix.names = ix'.names := by
  rw [names, names, h]

theorem moduleText_eq_of_assets_eq (h : ix.assets = ix'.assets) :
    ix.moduleText = ix'.moduleText := by
  rw [moduleText, moduleText, h]

/-! ## Requests in a row -/

/-- The index after requests in a row, none of which may fail. -/
def build (ix : Index) : List Request → Except Error Index
  | [] => .ok ix
  | r :: rs => do (← ix.addRequest r).1.build rs

theorem build_cons_ok :
    ix.build (r :: rs) = .ok ix' ↔ ∃ a m, ix.addRequest r = .ok (m, a) ∧ m.build rs = .ok ix' := by
  rw [build, Except.bind_ok]
  constructor
  · rintro ⟨⟨m, a⟩, hadd, hbuild⟩
    exact ⟨a, m, hadd, hbuild⟩
  · rintro ⟨a, m, hadd, hbuild⟩
    exact ⟨(m, a), hadd, hbuild⟩

theorem addRequest_keeps (h : ix.addRequest r = .ok (ix', a)) {b : Asset}
    (hb : ix.get? n = some b) : ix'.get? n = some b := by
  rcases addRequest_ok.mp h with ⟨-, rfl, -⟩ | ⟨hnew, -, -, rfl⟩
  · exact hb
  · exact (get?_append hnew).mpr (.inl hb)

/-- **Requests keep the tables together and all entries.** -/
theorem Valid.build (h : ix.Valid) (hbuild : ix.build rs = .ok ix') :
    ix'.Valid ∧ ∀ n a, ix.get? n = some a → ix'.get? n = some a := by
  induction rs generalizing ix with
  | nil =>
    cases hbuild
    exact ⟨h, fun _ _ hget => hget⟩
  | cons r rs ih =>
    obtain ⟨a, m, hadd, hbuild⟩ := build_cons_ok.mp hbuild
    obtain ⟨hvalid, hkeeps⟩ := ih (h.addRequest hadd) hbuild
    exact ⟨hvalid, fun n b hb => hkeeps n b (addRequest_keeps hadd hb)⟩

/-- What is asked for first is what is there at last. -/
theorem get?_of_build_cons (h : Index.empty.build (r :: rs) = .ok ix) :
    ix.get? r.name = some (r.entry r.content) := by
  obtain ⟨a, m, hadd, hbuild⟩ := build_cons_ok.mp h
  refine ((Valid.empty.addRequest hadd).build hbuild).2 _ _ ?_
  rcases addRequest_ok.mp hadd with ⟨hget, -⟩ | ⟨hnew, -, rfl, rfl⟩
  · cases hget
  · exact (get?_append hnew).mpr (.inr ⟨rfl, rfl⟩)

/-- **An index holds what was asked for** and nothing else. -/
structure Holds (ix : Index) (rs : List Request) : Prop where
  valid : ix.Valid
  get?_iff : ∀ {n a}, ix.get? n = some a ↔ ∃ r ∈ rs, r.name = n ∧ r.entry r.content = a

theorem holds_empty : Index.empty.Holds [] where
  valid := .empty
  get?_iff := iff_of_false (fun h => by cases h) fun ⟨_, h, _⟩ => by cases h

/-- **One more request is met** exactly if it is compatible with those before it. -/
theorem Holds.addRequest_isOk (h : ix.Holds done) (hagree : ∀ s ∈ done, s.Agree r) :
    (∃ ix' a, ix.addRequest r = .ok (ix', a)) ↔ ∀ s ∈ done, s.Compatible r := by
  constructor
  · rintro ⟨ix', a, hadd⟩ s hs
    have hfound : ix.get? s.name = some (s.entry s.content) :=
      h.get?_iff.mpr ⟨s, hs, rfl, rfl⟩
    rcases addRequest_ok.mp hadd with ⟨hget, -, hsome, hsource, hdigest⟩ | ⟨hnew, howner, -⟩
    · obtain ⟨t, ht, htname, rfl⟩ := h.get?_iff.mp hget
      have htpath := (hagree t ht).publicPath htname
      refine ⟨fun hname => ?_, fun hpath => ?_⟩
      · rw [hname, hget, Option.some.injEq] at hfound
        have hsource' : t.source = s.source := congrArg Asset.source hfound
        have hdigest' : t.digest = s.digest := congrArg Asset.digest hfound
        have hsource := hsource'.symm.trans hsource
        exact ⟨hsource ▸ hsome, hsource, hdigest'.symm.trans hdigest⟩
      · exact (h.valid.digest_eq hfound hget (hpath.trans htpath.symm)).trans hdigest
    · refine ⟨fun hname => ?_, fun hpath => ?_⟩
      · rw [hname, hnew] at hfound
        cases hfound
      · exact h.valid.digest_eq_of_owner howner hfound hpath
  · intro hcompatible
    cases hget : ix.get? r.name with
    | some a =>
      obtain ⟨s, hs, hname, rfl⟩ := h.get?_iff.mp hget
      obtain ⟨hsome, hsource, hdigest⟩ := (hcompatible s hs).name hname
      exact ⟨ix, _, addRequest_ok.mpr (.inl ⟨hget, rfl, hsource ▸ hsome, hsource, hdigest⟩)⟩
    | none =>
      refine ⟨_, _, addRequest_ok.mpr (.inr ⟨hget, fun old hold => ?_, rfl, rfl⟩)⟩
      obtain ⟨m, hm, hold⟩ := Option.bind_eq_some_iff.mp hold
      obtain ⟨b, hb, hpath⟩ := h.valid.owned hm
      obtain rfl : b = old := Option.some.inj (hb.symm.trans hold)
      obtain ⟨s, hs, -, rfl⟩ := h.get?_iff.mp hb
      exact (hcompatible s hs).publicPath hpath

/-- **A request that is met adds its entry.** -/
theorem Holds.addRequest (h : ix.Holds done) (hagree : ∀ s ∈ done, s.Agree r)
    (hadd : ix.addRequest r = .ok (ix', a)) : ix'.Holds (r :: done) where
  valid := h.valid.addRequest hadd
  get?_iff {n b} := by
    have hcompatible := (h.addRequest_isOk hagree).mp ⟨ix', a, hadd⟩
    simp only [List.mem_cons, exists_eq_or_imp, ← h.get?_iff]
    rcases addRequest_ok.mp hadd with ⟨hget, rfl, -⟩ | ⟨hnew, -, ha, rfl⟩
    · obtain ⟨s, hs, hname, rfl⟩ := h.get?_iff.mp hget
      obtain rfl := (hagree s hs).eq (hcompatible s hs) hname
      refine (or_iff_right_of_imp ?_).symm
      rintro ⟨rfl, rfl⟩
      exact hget
    · have hkept : (ix.arena.lookup r.digest).getD r.content = r.content := by
        cases hl : ix.arena.lookup r.digest with
        | none => rfl
        | some c =>
          obtain ⟨m, b, hb, hd⟩ := h.valid.inUse.mp ⟨c, hl⟩
          rw [← hd, h.valid.kept hb] at hl
          obtain ⟨s, hs, -, rfl⟩ := h.get?_iff.mp hb
          exact (Option.some.inj hl).symm.trans ((hagree s hs).content hd)
      rw [hkept] at ha
      rw [get?_append hnew, or_comm, ha, eq_comm (a := n), eq_comm (a := b)]

/-- **Requests that agree are met in a row** exactly if all pairs are compatible. -/
theorem Holds.build_isOk (h : ix.Holds done)
    (hagree : ∀ r ∈ done ++ rs, ∀ s ∈ done ++ rs, r.Agree s) :
    (∃ ix', ix.build rs = .ok ix') ↔
      rs.Pairwise Request.Compatible ∧ ∀ r ∈ done, ∀ s ∈ rs, r.Compatible s := by
  induction rs generalizing ix done with
  | nil => simp [build]
  | cons r rs ih =>
    have hr : ∀ s ∈ done, s.Agree r := fun s hs =>
      hagree s (List.mem_append_left _ hs) r (List.mem_append_right _ List.mem_cons_self)
    have hrest : ∀ x ∈ (r :: done) ++ rs, ∀ y ∈ (r :: done) ++ rs, x.Agree y := fun x hx y hy =>
      hagree x (List.perm_middle.mem_iff.mpr hx) y (List.perm_middle.mem_iff.mpr hy)
    simp only [build_cons_ok, List.pairwise_cons, List.forall_mem_cons]
    constructor
    · rintro ⟨ix', a, m, hadd, hbuild⟩
      have hcompatible := (h.addRequest_isOk hr).mp ⟨m, a, hadd⟩
      obtain ⟨hpairs, hall⟩ := (ih (h.addRequest hr hadd) hrest).mp ⟨ix', hbuild⟩
      rw [List.forall_mem_cons] at hall
      exact ⟨⟨hall.1, hpairs⟩, fun s hs => ⟨hcompatible s hs, hall.2 s hs⟩⟩
    · rintro ⟨⟨hfirst, hpairs⟩, hall⟩
      obtain ⟨m, a, hadd⟩ := (h.addRequest_isOk hr).mpr fun s hs => (hall s hs).1
      obtain ⟨ix', hbuild⟩ := (ih (h.addRequest hr hadd) hrest).mpr
        ⟨hpairs, List.forall_mem_cons.mpr ⟨hfirst, fun s hs => (hall s hs).2⟩⟩
      exact ⟨ix', a, m, hadd, hbuild⟩

theorem Holds.build (h : ix.Holds done)
    (hagree : ∀ r ∈ done ++ rs, ∀ s ∈ done ++ rs, r.Agree s) (hbuild : ix.build rs = .ok ix') :
    ix'.Holds (done ++ rs) := by
  induction rs generalizing ix done with
  | nil =>
    cases hbuild
    rwa [List.append_nil]
  | cons r rs ih =>
    have hr : ∀ s ∈ done, s.Agree r := fun s hs =>
      hagree s (List.mem_append_left _ hs) r (List.mem_append_right _ List.mem_cons_self)
    obtain ⟨a, m, hadd, hbuild⟩ := build_cons_ok.mp hbuild
    have hholds := ih (h.addRequest hr hadd) (fun x hx y hy =>
      hagree x (List.perm_middle.mem_iff.mpr hx) y (List.perm_middle.mem_iff.mpr hy)) hbuild
    refine ⟨hholds.valid, fun {n b} => ?_⟩
    rw [hholds.get?_iff]
    simp only [List.perm_middle.mem_iff, List.cons_append]

/-- **Requests that agree can be made in any order.** -/
theorem build_perm {rs' : List Request} (hagree : ∀ r ∈ rs, ∀ s ∈ rs, r.Agree s)
    (hbuild : Index.empty.build rs = .ok ix) (hperm : rs.Perm rs') :
    ∃ ix', Index.empty.build rs' = .ok ix' ∧ ix'.assets = ix.assets := by
  have hagree' : ∀ r ∈ rs', ∀ s ∈ rs', r.Agree s := fun r hr s hs =>
    hagree r (hperm.mem_iff.mpr hr) s (hperm.mem_iff.mpr hs)
  have hpairs := ((holds_empty.build_isOk hagree).mp ⟨ix, hbuild⟩).1
  rw [hperm.pairwise_iff Request.Compatible.symm] at hpairs
  obtain ⟨ix', hbuild'⟩ := (holds_empty.build_isOk hagree').mpr
    ⟨hpairs, fun _ h => absurd h List.not_mem_nil⟩
  have h := holds_empty.build hagree hbuild
  have h' := holds_empty.build hagree' hbuild'
  refine ⟨ix', hbuild', assets_eq_of_get? h'.valid h.valid fun n a => ?_⟩
  rw [h.get?_iff, h'.get?_iff]
  simp only [List.nil_append, hperm.mem_iff]

/-! ## Additions in a row -/

/-- **The entries of additions in a row**, all of them from one place, and the index after them. A
failure ends the row. -/
def addAll (o : Origin) (as : List Addition) : Except Error (List Asset) × Index :=
  (as.mapM (Addition.run o)).run.run .empty

section Additions

variable {o : Origin} {as : List Addition}

theorem apply_ok {addition : Addition} :
    ix.apply o addition = (.ok a, ix') ↔
      ∃ r, addition.request o = .ok r ∧ ix.addRequest r = .ok (ix', a) := by
  rw [apply_eq, ← Except.bind_ok]
  cases addition.request o >>= ix.addRequest with
  | error e => simp [settle]
  | ok p => simp [settle, Prod.ext_iff, and_comm]

/-- **Additions in a row succeed** exactly if their requests do. -/
theorem runs_mapM_ok :
    (∃ assets, Runs (as.mapM (Addition.run o)) ix (.ok assets) ix') ↔
      ∃ rs, List.Forall₂ (fun a r => Addition.request o a = .ok r) as rs ∧
        ix.build rs = .ok ix' := by
  induction as generalizing ix with
  | nil =>
    simp only [List.mapM_nil, runs_pure, List.forall₂_nil_left_iff, exists_eq_left, build,
      Except.ok.injEq, exists_eq_left, eq_comm (a := ix)]
  | cons addition as ih =>
    simp only [List.mapM_cons, runs_bind, runs_pure, reduceCtorEq, and_false, exists_false,
      or_false]
    constructor
    · rintro ⟨assets, a, m, hrun, rest, _, hrest, -, rfl⟩
      obtain ⟨r, hr, hadd⟩ := apply_ok.mp hrun
      obtain ⟨rs, hrs, hbuild⟩ := ih.mp ⟨rest, hrest⟩
      exact ⟨r :: rs, hrs.cons hr, build_cons_ok.mpr ⟨a, m, hadd, hbuild⟩⟩
    · rintro ⟨rs, hrs, hbuild⟩
      obtain ⟨r, rs, hr, htail, rfl⟩ := List.forall₂_cons_left_iff.mp hrs
      obtain ⟨a, m, hadd, hbuild⟩ := build_cons_ok.mp hbuild
      obtain ⟨rest, hrest⟩ := ih.mpr ⟨rs, htail, hbuild⟩
      exact ⟨a :: rest, a, m, apply_ok.mpr ⟨r, hr, hadd⟩, rest, ix', hrest, rfl, rfl⟩

/-- The request of one of the additions. -/
theorem mem_requests (hrs : List.Forall₂ (fun a r => Addition.request o a = .ok r) as rs) :
    r ∈ rs ↔ ∃ a ∈ as, a.request o = .ok r := by
  induction hrs with
  | nil => simp
  | cons hr _ ih =>
    simp only [List.mem_cons, exists_eq_or_imp, ih, hr, Except.ok.injEq, eq_comm (a := r)]

/-- **The order of additions does not matter** exactly if those that meet at a logical name ask for
one public name, and those that meet at a digest have one content. Then every order succeeds. -/
theorem order_irrelevant_iff {assets : List Asset} (h : addAll o as = (.ok assets, ix)) :
    (∀ as', as.Perm as' → ∃ assets' ix', addAll o as' = (.ok assets', ix') ∧
      ix'.names = ix.names ∧ ix'.assets = ix.assets ∧ ix'.moduleText = ix.moduleText) ↔
    ∀ a ∈ as, ∀ b ∈ as, ∀ r s, a.request o = .ok r → b.request o = .ok s →
      (r.name = s.name → r.publicPath = s.publicPath) ∧
        (r.digest = s.digest → r.content = s.content) := by
  obtain ⟨rs, hrs, hbuild⟩ := runs_mapM_ok.mp ⟨assets, h⟩
  have hvalid := (Valid.empty.build hbuild).1
  constructor
  · intro horder a ha b hb r s hr hs
    -- With an addition at the front, its request decides its entry.
    have hfront : ∀ a ∈ as, ∀ r, a.request o = .ok r →
        ix.get? r.name = some (r.entry r.content) := by
      intro a ha r hr
      obtain ⟨assets', ix', hadd, -, hassets, -⟩ := horder _ (List.perm_cons_erase ha)
      obtain ⟨rs', hrs', hbuild'⟩ := runs_mapM_ok.mp ⟨assets', hadd⟩
      obtain ⟨r', rest, hr', -, rfl⟩ := List.forall₂_cons_left_iff.mp hrs'
      obtain rfl : r' = r := Except.ok.inj (hr'.symm.trans hr)
      exact get?_of_assets_eq (Valid.empty.build hbuild').1 hvalid hassets
        (get?_of_build_cons hbuild')
    have hfirst := hfront a ha r hr
    have hsecond := hfront b hb s hs
    constructor
    · intro hname
      rw [hname, hsecond, Option.some.injEq] at hfirst
      exact (congrArg Asset.publicPath hfirst).symm
    · intro hdigest
      have hkept : ix.arena.lookup r.digest = some r.content := hvalid.kept hfirst
      have hkept' : ix.arena.lookup s.digest = some s.content := hvalid.kept hsecond
      rw [hdigest, hkept', Option.some.injEq] at hkept
      exact hkept.symm
  · intro hmeet as' hperm
    have hagree : ∀ r ∈ rs, ∀ s ∈ rs, r.Agree s := by
      intro r hr s hs
      obtain ⟨a, ha, hr⟩ := (mem_requests hrs).mp hr
      obtain ⟨b, hb, hs⟩ := (mem_requests hrs).mp hs
      obtain ⟨hpath, hcontent⟩ := hmeet a ha b hb r s hr hs
      exact ⟨hpath, fun hname => Addition.mime_eq hr hs hname (hpath hname), hcontent⟩
    obtain ⟨rs', hrs', hperm'⟩ := List.perm_comp_forall₂ hperm.symm hrs
    obtain ⟨ix', hbuild', hassets⟩ := build_perm hagree hbuild hperm'.symm
    obtain ⟨assets', hadd⟩ := runs_mapM_ok.mpr ⟨rs', hrs', hbuild'⟩
    exact ⟨assets', ix', hadd, names_eq_of_assets_eq hassets, hassets,
      moduleText_eq_of_assets_eq hassets⟩

end Additions

/-! ## Stylesheets -/

/-- A directory with two stylesheets of one content. -/
def stylesheets : Origin where
  disk := ⟨.dir [("a.css", .file [0x78]), ("b.css", .file [0x78])], []⟩
  base := .parse "."
  excluded _ := false

/-- Both stylesheets, one of them once more and under a public name of its own. -/
def stylesheetAdditions : List Addition := [
  .fileAs (.parse "a.css") "css/a.css", .file (.parse "b.css"), .file (.parse "a.css"),
  .file (.parse "b.css")]

theorem order_irrelevant_iff_stylesheets :
    (addAll stylesheets stylesheetAdditions).1.toBool = true ∧
    ∀ as', stylesheetAdditions.Perm as' → ∃ assets' ix',
      addAll stylesheets as' = (.ok assets', ix') ∧
      ix'.names = (addAll stylesheets stylesheetAdditions).2.names ∧
      ix'.assets = (addAll stylesheets stylesheetAdditions).2.assets ∧
      ix'.moduleText = (addAll stylesheets stylesheetAdditions).2.moduleText := by
  have hok : (addAll stylesheets stylesheetAdditions).1.toBool = true := by decide +kernel
  refine ⟨hok, ?_⟩
  obtain ⟨assets, hassets⟩ := Except.exists_ok hok
  have hadd : addAll stylesheets stylesheetAdditions =
      (.ok assets, (addAll stylesheets stylesheetAdditions).2) := by rw [← hassets]
  refine (order_irrelevant_iff hadd).mpr ?_
  have hmeet : ∀ a ∈ stylesheetAdditions, ∀ b ∈ stylesheetAdditions,
      ∀ r ∈ (a.request stylesheets).toOption, ∀ s ∈ (b.request stylesheets).toOption,
        (r.name = s.name → r.publicPath = s.publicPath) ∧
          (r.digest = s.digest → r.content = s.content) := by decide +kernel
  intro a ha b hb r s hr hs
  exact hmeet a ha b hb r (by rw [hr]; rfl) s (by rw [hs]; rfl)

/-- A stylesheet, under its hashed name and under a public name of its own. Both have one logical
name. -/
def sameName : List Addition := [.file (.parse "a.css"), .fileAs (.parse "a.css") "a_css"]

/-- **The order of additions matters**: the public name is that of the first one. -/
theorem order_matters :
    sameName.Perm sameName.reverse ∧
    (addAll stylesheets sameName).1.toBool = true ∧
    (addAll stylesheets sameName.reverse).1.toBool = true ∧
    (addAll stylesheets sameName).2.names ≠ (addAll stylesheets sameName.reverse).2.names :=
  ⟨(List.reverse_perm _).symm, by decide +kernel, by decide +kernel, by decide +kernel⟩

end Index

end Stencil
