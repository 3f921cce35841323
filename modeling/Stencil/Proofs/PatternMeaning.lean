import Stencil.Pattern.Parser
import Stencil.Proofs.Bound
import Stencil.Proofs.SimplePatterns

/-!
# What patterns bind names to

A choice takes the first of its alternatives that matches, with what that alternative binds. If one
alternative is a catch-all, simplifying a pattern makes the whole choice that catch-all, wherever it
stands.

* `Values`: values as patterns see them.
* `Pattern.bindings?`: the names that a pattern binds in a value, if it matches.
* `Pattern.Uniform`, `Pattern.takesAll`, `Pattern.Definite`: conditions on the choices of a pattern.
* **`bindings_simplify`**: a simplified pattern matches the same values and binds the same names; to
  the same values, if the pattern is definite.
-/

namespace Stencil

/-- **Values as patterns see them**: those that equal a literal or a variant without data, the items
of sequences, and the fields of the values of a class, in the order of their positions. -/
structure Values (α : Type) where
  isLiteral : Literal → α → Bool
  isVariant : List String → α → Bool
  items? : α → Option (List α)
  fields? : List String → α → Option (List (String × α))

/-- The values for `count` patterns of a tuple, with those that `..` stands for left out. -/
def withoutRest {α : Type} (count : Nat) : Option Nat → List α → Option (List α)
  | none, vs => some vs
  | some n, vs =>
    if count ≤ vs.length then some (vs.take n ++ vs.drop (vs.length - (count - n))) else none

namespace Pattern

section Bindings

variable {α : Type} (V : Values α)

mutual

/-- **The names that a pattern binds in a value**, each with what it is bound to, if the pattern
matches. A choice takes its first alternative that matches, and the name `_` is not bound. -/
def bindings? : Pattern → α → Option (List (String × α))
  | wildcard _, _ => some []
  | binding _ n, v => some (if n = "_" then [] else [(n, v)])
  | literal _ l, v => if V.isLiteral l v then some [] else none
  | value _ path, v => if V.isVariant path v then some [] else none
  | tuple _ items rest, v => do bindingsAll? items (← withoutRest items.length rest (← V.items? v))
  | variant _ path items, v => do
    bindingsAll? items (((← V.fields? path v).map Prod.snd).take items.length)
  | struct _ path fields _, v => do bindingsFields? fields (← V.fields? path v)
  | or _ alternatives, v => bindingsFirst? alternatives v

/-- What patterns bind, one for each value. -/
def bindingsAll? : List Pattern → List α → Option (List (String × α))
  | [], [] => some []
  | p :: ps, v :: vs => do return (← p.bindings? v) ++ (← bindingsAll? ps vs)
  | [], _ :: _ | _ :: _, [] => none

/-- What the patterns of fields bind, with the fields of a value. -/
def bindingsFields? : List (String × Pattern) → List (String × α) → Option (List (String × α))
  | [], _ => some []
  | (n, p) :: fs, table => do
    return (← p.bindings? (← table.lookup n)) ++ (← bindingsFields? fs table)

/-- What the first pattern that matches binds. -/
def bindingsFirst? : List Pattern → α → Option (List (String × α))
  | [], _ => none
  | p :: ps, v => (p.bindings? v).or (bindingsFirst? ps v)

end

end Bindings

/-! ## Conditions on choices -/

mutual

/-- **The alternatives of each choice bind the same names**, `_` aside. -/
def Uniform : Pattern → Prop
  | wildcard _ | binding _ _ | literal _ _ | value _ _ => True
  | tuple _ items _ | variant _ _ items => UniformAll items
  | struct _ _ fields _ => UniformFields fields
  | or _ alternatives => UniformAll alternatives ∧
    ∀ p ∈ alternatives, ∀ q ∈ alternatives, ∀ n ∈ p.bound, n ≠ "_" → n ∈ q.bound

/-- All patterns of a list are uniform. -/
def UniformAll : List Pattern → Prop
  | [] => True
  | p :: ps => p.Uniform ∧ UniformAll ps

/-- The patterns of all fields are uniform. -/
def UniformFields : List (String × Pattern) → Prop
  | [] => True
  | (_, p) :: fs => p.Uniform ∧ UniformFields fs

end

mutual

/-- **The pattern is a catch-all**, or a choice that has one among its alternatives. -/
def takesAll : Pattern → Bool
  | wildcard _ | binding _ _ => true
  | or _ alternatives => anyTakesAll alternatives
  | _ => false

/-- One pattern of a list takes all values. -/
def anyTakesAll : List Pattern → Bool
  | [] => false
  | p :: ps => p.takesAll || anyTakesAll ps

end

mutual

/-- **Each choice that takes all values binds no name, or takes them with its first alternative.**
Nothing has to be known of the alternatives after it, or of those in a choice without names. -/
def Definite : Pattern → Prop
  | wildcard _ | binding _ _ | literal _ _ | value _ _ | or _ [] => True
  | tuple _ items _ | variant _ _ items => DefiniteAll items
  | struct _ _ fields _ => DefiniteFields fields
  | or _ (p :: ps) => (∀ n ∈ boundAll (p :: ps), n = "_") ∨ (p.takesAll ∧ p.Definite) ∨
    (¬ anyTakesAll (p :: ps) ∧ p.Definite ∧ DefiniteAll ps)

/-- All patterns of a list are definite. -/
def DefiniteAll : List Pattern → Prop
  | [] => True
  | p :: ps => p.Definite ∧ DefiniteAll ps

/-- The patterns of all fields are definite. -/
def DefiniteFields : List (String × Pattern) → Prop
  | [] => True
  | (_, p) :: fs => p.Definite ∧ DefiniteFields fs

end

/-! ## What matches -/

section Meaning

variable {α : Type} (V : Values α)

theorem isSome_bindingsAll?_cons (p : Pattern) (ps : List Pattern) (v : α) (vs : List α) :
    (bindingsAll? V (p :: ps) (v :: vs)).isSome =
      ((p.bindings? V v).isSome && (bindingsAll? V ps vs).isSome) := by
  rw [bindingsAll?]
  cases p.bindings? V v <;> cases bindingsAll? V ps vs <;> rfl

theorem isSome_bindingsFields?_cons (f : String × Pattern) (fs : List (String × Pattern))
    (table : List (String × α)) :
    (bindingsFields? V (f :: fs) table).isSome =
      (((table.lookup f.1).bind (f.2.bindings? V)).isSome &&
        (bindingsFields? V fs table).isSome) := by
  rw [bindingsFields?]
  cases table.lookup f.1 with
  | none => rfl
  | some v =>
    simp only [Option.bind_some, Option.bind_eq_bind]
    cases f.2.bindings? V v <;> cases bindingsFields? V fs table <;> rfl

theorem bindingsFirst?_isSome (ps : List Pattern) (v : α) :
    (bindingsFirst? V ps v).isSome = ps.any fun p => (p.bindings? V v).isSome := by
  induction ps with
  | nil => rw [bindingsFirst?, List.any_nil, Option.isSome_none]
  | cons p ps ih => rw [bindingsFirst?, Option.isSome_or, ih, List.any_cons]

/-- What patterns match hangs on what each of them matches. -/
theorem isSome_bindingsAll?_congr {ps ps' : List Pattern}
    (h : List.Forall₂ (fun q q' => (fun v => (q.bindings? V v).isSome) =
      fun v => (q'.bindings? V v).isSome) ps ps') (vs : List α) :
    (bindingsAll? V ps vs).isSome = (bindingsAll? V ps' vs).isSome := by
  induction h generalizing vs with
  | nil => rfl
  | cons h _ ih =>
    cases vs with
    | nil => rw [bindingsAll?, bindingsAll?]
    | cons v vs =>
      rw [isSome_bindingsAll?_cons, isSome_bindingsAll?_cons, congrFun h v, ih vs]

theorem isSome_bindingsFields?_congr {fs fs' : List (String × Pattern)}
    (h : List.Forall₂ (fun f f' => f.1 = f'.1 ∧ (fun v => (f.2.bindings? V v).isSome) =
      fun v => (f'.2.bindings? V v).isSome) fs fs') (table : List (String × α)) :
    (bindingsFields? V fs table).isSome = (bindingsFields? V fs' table).isSome := by
  induction h with
  | nil => rfl
  | cons h _ ih =>
    rw [isSome_bindingsFields?_cons, isSome_bindingsFields?_cons, ih, h.1]
    cases table.lookup _ with
    | none => rfl
    | some v => simp only [Option.bind_some, congrFun h.2 v]

end Meaning

end Pattern

open Pattern in
/-- **A pattern matches the values in which it binds names.** -/
def Values.matching {α : Type} (V : Values α) : Matching α where
  fits p v := (p.bindings? V v).isSome
  fits_wildcard p v := by rw [bindings?]; rfl
  fits_binding p n v := by rw [bindings?]; rfl
  fits_or p ps v := by rw [bindings?, bindingsFirst?_isSome]
  fits_tuple p ps ps' rest h := by
    funext v
    rw [bindings?, bindings?, h.length_eq]
    cases V.items? v with
    | none => rfl
    | some vs =>
      cases hr : withoutRest ps'.length rest vs with
      | none => simp [hr]
      | some vs => simpa [hr] using isSome_bindingsAll?_congr V h vs
  fits_variant p path ps ps' h := by
    funext v
    rw [bindings?, bindings?, h.length_eq]
    cases V.fields? path v with
    | none => rfl
    | some fields => exact isSome_bindingsAll?_congr V h _
  fits_struct p path fs fs' o h := by
    funext v
    rw [bindings?, bindings?]
    cases V.fields? path v with
    | none => rfl
    | some fields => exact isSome_bindingsFields?_congr V h fields

namespace Pattern

section Names

variable {α : Type} {V : Values α}

mutual

/-- **What a pattern binds are its names**, `_` aside: all of them, if it is uniform. -/
theorem mem_bound_of_bindings : ∀ {p : Pattern} {v : α} {bs : List (String × α)},
    p.bindings? V v = some bs → (∀ b ∈ bs, b.1 ∈ p.bound ∧ b.1 ≠ "_") ∧
      (p.Uniform → ∀ n ∈ p.bound, n ≠ "_" → n ∈ bs.map Prod.fst)
  | wildcard _, v, bs, h => by
    rw [bindings?] at h
    cases h
    simp [bound]
  | binding _ n, v, bs, h => by
    rw [bindings?] at h
    cases h
    by_cases hn : n = "_" <;> simp [bound, hn]
  | literal _ l, v, bs, h => by
    rw [bindings?] at h
    split at h <;> cases h
    simp [bound]
  | value _ path, v, bs, h => by
    rw [bindings?] at h
    split at h <;> cases h
    simp [bound]
  | tuple _ items rest, v, bs, h => by
    simp only [bindings?, Option.bind_eq_bind, Option.bind_eq_some_iff] at h
    obtain ⟨vs, -, vs', -, h⟩ := h
    rw [bound, Uniform]
    exact mem_boundAll_of_bindings h
  | variant _ path items, v, bs, h => by
    simp only [bindings?, Option.bind_eq_bind, Option.bind_eq_some_iff] at h
    obtain ⟨table, -, h⟩ := h
    rw [bound, Uniform]
    exact mem_boundAll_of_bindings h
  | struct _ path fields _, v, bs, h => by
    simp only [bindings?, Option.bind_eq_bind, Option.bind_eq_some_iff] at h
    obtain ⟨table, -, h⟩ := h
    rw [bound, Uniform]
    exact mem_boundFields_of_bindings h
  | or _ alternatives, v, bs, h => by
    rw [bindings?] at h
    obtain ⟨p, hp, hnames, huniform⟩ := exists_of_bindingsFirst h
    rw [bound, Uniform]
    refine ⟨fun b hb => ⟨bound_subset_boundAll hp (hnames b hb).1, (hnames b hb).2⟩, ?_⟩
    rintro ⟨hall, hsame⟩ n hn hne
    obtain ⟨q, hq, hn⟩ := mem_boundAll.mp hn
    exact huniform hall n (hsame q hq p hp n hn hne) hne

theorem mem_boundAll_of_bindings : ∀ {ps : List Pattern} {vs : List α} {bs : List (String × α)},
    bindingsAll? V ps vs = some bs → (∀ b ∈ bs, b.1 ∈ boundAll ps ∧ b.1 ≠ "_") ∧
      (UniformAll ps → ∀ n ∈ boundAll ps, n ≠ "_" → n ∈ bs.map Prod.fst)
  | [], [], bs, h => by
    rw [bindingsAll?] at h
    cases h
    simp [boundAll]
  | [], _ :: _, _, h | _ :: _, [], _, h => by
    rw [bindingsAll?] at h
    cases h
  | p :: ps, v :: vs, bs, h => by
    simp only [bindingsAll?, Option.bind_eq_bind, Option.bind_eq_some_iff, Option.pure_def,
      Option.some.injEq] at h
    obtain ⟨a, ha, b, hb, rfl⟩ := h
    have hp := mem_bound_of_bindings ha
    have hps := mem_boundAll_of_bindings hb
    rw [boundAll, UniformAll]
    refine ⟨fun c hc => ?_, fun hu n hn hne => ?_⟩
    · rw [List.mem_append]
      rcases List.mem_append.mp hc with hc | hc
      · exact (hp.1 c hc).imp_left .inl
      · exact (hps.1 c hc).imp_left .inr
    · rw [List.map_append, List.mem_append]
      exact (List.mem_append.mp hn).imp (hp.2 hu.1 n · hne) (hps.2 hu.2 n · hne)

theorem mem_boundFields_of_bindings : ∀ {fs : List (String × Pattern)}
    {table bs : List (String × α)}, bindingsFields? V fs table = some bs →
    (∀ b ∈ bs, b.1 ∈ boundFields fs ∧ b.1 ≠ "_") ∧
      (UniformFields fs → ∀ n ∈ boundFields fs, n ≠ "_" → n ∈ bs.map Prod.fst)
  | [], _, bs, h => by
    rw [bindingsFields?] at h
    cases h
    simp [boundFields]
  | (f, p) :: fs, table, bs, h => by
    simp only [bindingsFields?, Option.bind_eq_bind, Option.bind_eq_some_iff, Option.pure_def,
      Option.some.injEq] at h
    obtain ⟨v, -, a, ha, b, hb, rfl⟩ := h
    have hp := mem_bound_of_bindings ha
    have hfs := mem_boundFields_of_bindings hb
    rw [boundFields, UniformFields]
    refine ⟨fun c hc => ?_, fun hu n hn hne => ?_⟩
    · rw [List.mem_append]
      rcases List.mem_append.mp hc with hc | hc
      · exact (hp.1 c hc).imp_left .inl
      · exact (hfs.1 c hc).imp_left .inr
    · rw [List.map_append, List.mem_append]
      exact (List.mem_append.mp hn).imp (hp.2 hu.1 n · hne) (hfs.2 hu.2 n · hne)

/-- What alternatives bind is what one of them binds. -/
theorem exists_of_bindingsFirst : ∀ {ps : List Pattern} {v : α} {bs : List (String × α)},
    bindingsFirst? V ps v = some bs → ∃ p ∈ ps, (∀ b ∈ bs, b.1 ∈ p.bound ∧ b.1 ≠ "_") ∧
      (UniformAll ps → ∀ n ∈ p.bound, n ≠ "_" → n ∈ bs.map Prod.fst)
  | [], _, _, h => by
    rw [bindingsFirst?] at h
    cases h
  | p :: ps, v, bs, h => by
    rw [bindingsFirst?, Option.or_eq_some_iff] at h
    rw [UniformAll]
    obtain h | ⟨-, h⟩ := h
    · have hp := mem_bound_of_bindings h
      exact ⟨p, List.mem_cons_self, hp.1, fun hu => hp.2 hu.1⟩
    · obtain ⟨q, hq, hnames, huniform⟩ := exists_of_bindingsFirst h
      exact ⟨q, List.mem_cons_of_mem _ hq, hnames, fun hu => huniform hu.2⟩

end

/-- A pattern without names binds nothing. -/
theorem bindings_eq_nil {p : Pattern} {v : α} {bs : List (String × α)}
    (h : p.bindings? V v = some bs) (hp : ∀ n ∈ p.bound, n = "_") : bs = [] := by
  refine List.eq_nil_iff_forall_not_mem.mpr fun b hb => ?_
  obtain ⟨hmem, hne⟩ := (mem_bound_of_bindings h).1 b hb
  exact hne (hp _ hmem)

end Names

/-! ## Simplifying -/

mutual

/-- **A pattern that takes all values becomes a catch-all.** -/
theorem isCatchAll_simplify : ∀ p : Pattern, p.simplify.isCatchAll = p.takesAll
  | wildcard _ | binding _ _ | literal _ _ | value _ _ | tuple _ _ _ | variant _ _ _
  | struct _ _ _ _ => by
    rw [simplify, takesAll] <;> simp [isCatchAll]
  | or p alternatives => by
    rw [simplify, takesAll, ← any_isCatchAll_simplifyAll]
    cases hf : (simplifyAll alternatives).find? isCatchAll with
    | none =>
      rw [Option.getD_none, eq_comm]
      exact List.any_eq_false.mpr (List.find?_eq_none.mp hf)
    | some q =>
      rw [Option.getD_some, List.find?_some hf, eq_comm, List.any_eq_true]
      exact ⟨q, List.mem_of_find?_eq_some hf, List.find?_some hf⟩

theorem any_isCatchAll_simplifyAll : ∀ ps : List Pattern,
    (simplifyAll ps).any isCatchAll = anyTakesAll ps
  | [] => by rw [simplifyAll, anyTakesAll, List.any_nil]
  | p :: ps => by
    rw [simplifyAll, anyTakesAll, List.any_cons, isCatchAll_simplify p,
      any_isCatchAll_simplifyAll ps]

end

theorem mem_simplifyAll {q : Pattern} {ps : List Pattern} :
    q ∈ simplifyAll ps ↔ ∃ p ∈ ps, p.simplify = q := by
  induction ps with
  | nil => simp [simplifyAll]
  | cons p ps ih => simp [simplifyAll, ih, eq_comm]

theorem uniform_of_isCatchAll {p : Pattern} (h : p.isCatchAll) : p.Uniform := by
  cases p with
  | wildcard _ | binding _ _ => rw [Uniform]; trivial
  | _ => simp [isCatchAll] at h

/-- If each pattern keeps its names, so do all together. -/
theorem boundAll_simplifyAll {ps : List Pattern}
    (h : ∀ p ∈ ps, ∀ n ∈ p.bound, n ≠ "_" → n ∈ p.simplify.bound) :
    ∀ n ∈ boundAll ps, n ≠ "_" → n ∈ boundAll (simplifyAll ps) := by
  intro n hn hne
  obtain ⟨p, hp, hn⟩ := mem_boundAll.mp hn
  exact mem_boundAll.mpr ⟨p.simplify, mem_simplifyAll.mpr ⟨p, hp, rfl⟩, h p hp n hn hne⟩

mutual

/-- **A uniform pattern keeps its names** if it is simplified, and it stays uniform. -/
theorem uniform_simplify : ∀ {p : Pattern}, p.Uniform →
    p.simplify.Uniform ∧ ∀ n ∈ p.bound, n ≠ "_" → n ∈ p.simplify.bound
  | wildcard _, h | binding _ _, h | literal _ _, h | value _ _, h => by
    rw [simplify]
    · exact ⟨h, fun n hn _ => hn⟩
    all_goals simp
  | tuple _ items _, h | variant _ _ items, h => by
    rw [Uniform] at h
    rw [simplify, Uniform, bound, bound]
    exact (uniform_simplifyAll h).imp_right boundAll_simplifyAll
  | struct _ _ fields _, h => by
    rw [Uniform] at h
    rw [simplify, Uniform, bound, bound]
    exact uniform_simplifyFields h
  | or p alternatives, h => by
    rw [Uniform] at h
    obtain ⟨hu, hkeep⟩ := uniform_simplifyAll h.1
    rw [simplify, bound]
    cases hf : (simplifyAll alternatives).find? isCatchAll with
    | none =>
      rw [Option.getD_none, Uniform, bound]
      refine ⟨⟨hu, fun q hq r hr n hn hne => ?_⟩, boundAll_simplifyAll hkeep⟩
      obtain ⟨q', hq', rfl⟩ := mem_simplifyAll.mp hq
      obtain ⟨r', hr', rfl⟩ := mem_simplifyAll.mp hr
      exact hkeep r' hr' n (h.2 q' hq' r' hr' n (bound_simplify q' hn) hne) hne
    | some q =>
      -- the catch-all that is left binds what its alternative did, and so what all of them did
      rw [Option.getD_some]
      refine ⟨uniform_of_isCatchAll (List.find?_some hf), fun n hn hne => ?_⟩
      obtain ⟨r, hr, hn⟩ := mem_boundAll.mp hn
      obtain ⟨q, hq, rfl⟩ := mem_simplifyAll.mp (List.mem_of_find?_eq_some hf)
      exact hkeep q hq n (h.2 r hr q hq n hn hne) hne

theorem uniform_simplifyAll : ∀ {ps : List Pattern}, UniformAll ps →
    UniformAll (simplifyAll ps) ∧ ∀ p ∈ ps, ∀ n ∈ p.bound, n ≠ "_" → n ∈ p.simplify.bound
  | [], _ => by simp [simplifyAll, UniformAll]
  | p :: ps, h => by
    rw [UniformAll] at h
    obtain ⟨hp, hkeep⟩ := uniform_simplify h.1
    obtain ⟨hps, hkeeps⟩ := uniform_simplifyAll h.2
    rw [simplifyAll, UniformAll, List.forall_mem_cons]
    exact ⟨⟨hp, hps⟩, hkeep, hkeeps⟩

theorem uniform_simplifyFields : ∀ {fs : List (String × Pattern)}, UniformFields fs →
    UniformFields (simplifyFields fs) ∧
      ∀ n ∈ boundFields fs, n ≠ "_" → n ∈ boundFields (simplifyFields fs)
  | [], _ => by simp [simplifyFields, UniformFields, boundFields]
  | (_, p) :: fs, h => by
    rw [UniformFields] at h
    obtain ⟨hp, hkeep⟩ := uniform_simplify h.1
    obtain ⟨hfs, hkeeps⟩ := uniform_simplifyFields h.2
    rw [simplifyFields, UniformFields, boundFields, boundFields]
    refine ⟨⟨hp, hfs⟩, fun n hn hne => ?_⟩
    rw [List.mem_append] at hn ⊢
    exact hn.imp (hkeep n · hne) (hkeeps n · hne)

end

section Definite

variable {α : Type} (V : Values α)

/-- A simplified pattern matches the same values. -/
theorem isSome_bindings_simplify (p : Pattern) (v : α) :
    (p.simplify.bindings? V v).isSome = (p.bindings? V v).isSome :=
  congrFun (V.matching.fits_simplify p) v

theorem length_simplifyAll (ps : List Pattern) : (simplifyAll ps).length = ps.length := by
  induction ps with
  | nil => rw [simplifyAll]
  | cons p ps ih => rw [simplifyAll, List.length_cons, List.length_cons, ih]

/-- Without names it is enough that the same values match. -/
theorem bindings_simplify_of_nameless {p : Pattern} (h : ∀ n ∈ p.bound, n = "_") :
    p.simplify.bindings? V = p.bindings? V := by
  funext v
  have hsome := isSome_bindings_simplify V p v
  cases hp : p.bindings? V v with
  | none => rwa [hp, Option.isSome_none, Option.isSome_eq_false_iff, Option.isNone_iff_eq_none]
      at hsome
  | some bs =>
    rw [hp, Option.isSome_some, Option.isSome_iff_exists] at hsome
    obtain ⟨bs', hs⟩ := hsome
    rw [hs, bindings_eq_nil hp h, bindings_eq_nil hs fun n hn => h n (bound_simplify p hn)]

mutual

/-- **A definite pattern binds the same names to the same values** if it is simplified. -/
theorem bindings_simplify_of_definite : ∀ {p : Pattern}, p.Definite →
    p.simplify.bindings? V = p.bindings? V
  | wildcard _, _ | binding _ _, _ | literal _ _, _ | value _ _, _ => by
    rw [simplify] <;> simp
  | tuple _ items _, h | variant _ _ items, h => by
    rw [Definite] at h
    funext v
    simp only [simplify, bindings?, length_simplifyAll, (bindingsAll_simplify_of_definite h).1]
  | struct _ path fields _, h => by
    rw [Definite] at h
    funext v
    simp only [simplify, bindings?, bindingsFields_simplify_of_definite h]
  | or _ [], _ => by rw [simplify, simplifyAll]; rfl
  | or _ (p :: ps), h => by
    rw [Definite] at h
    obtain hnameless | ⟨htakes, hp⟩ | ⟨hnone, hp, hps⟩ := h
    · exact bindings_simplify_of_nameless V (by rwa [bound])
    · have hcatch : p.simplify.isCatchAll = true := by rw [isCatchAll_simplify, htakes]
      funext v
      have hsome : (p.bindings? V v).isSome = true := by
        rw [← isSome_bindings_simplify]
        exact V.matching.fits_of_isCatchAll hcatch v
      rw [simplify, simplifyAll, List.find?_cons_of_pos hcatch, Option.getD_some,
        bindings_simplify_of_definite hp, bindings?, bindingsFirst?, Option.or_of_isSome hsome]
    · have hfind : (simplifyAll (p :: ps)).find? isCatchAll = none := by
        rw [← any_isCatchAll_simplifyAll, Bool.not_eq_true, List.any_eq_false] at hnone
        exact List.find?_eq_none.mpr hnone
      funext v
      rw [simplify, hfind, Option.getD_none, bindings?, bindings?, simplifyAll, bindingsFirst?,
        bindingsFirst?, bindings_simplify_of_definite hp, (bindingsAll_simplify_of_definite hps).2]

theorem bindingsAll_simplify_of_definite : ∀ {ps : List Pattern}, DefiniteAll ps →
    bindingsAll? V (simplifyAll ps) = bindingsAll? V ps ∧
      bindingsFirst? V (simplifyAll ps) = bindingsFirst? V ps
  | [], _ => by rw [simplifyAll]; exact ⟨rfl, rfl⟩
  | p :: ps, h => by
    rw [DefiniteAll] at h
    have hp := bindings_simplify_of_definite h.1
    obtain ⟨hall, hfirst⟩ := bindingsAll_simplify_of_definite h.2
    rw [simplifyAll]
    constructor
    · funext vs
      cases vs with
      | nil => rw [bindingsAll?, bindingsAll?]
      | cons v vs => rw [bindingsAll?, bindingsAll?, hp, hall]
    · funext v
      rw [bindingsFirst?, bindingsFirst?, hp, hfirst]

theorem bindingsFields_simplify_of_definite : ∀ {fs : List (String × Pattern)},
    DefiniteFields fs → bindingsFields? V (simplifyFields fs) = bindingsFields? V fs
  | [], _ => by rw [simplifyFields]
  | (_, p) :: fs, h => by
    rw [DefiniteFields] at h
    funext table
    rw [simplifyFields, bindingsFields?, bindingsFields?, bindings_simplify_of_definite h.1,
      bindingsFields_simplify_of_definite h.2]

end

end Definite

/-- A catch-all binds its name to the whole value. -/
theorem eq_of_bindings_of_isCatchAll {α : Type} {V : Values α} {p : Pattern} (h : p.isCatchAll)
    {v : α} {bs : List (String × α)} (hb : p.bindings? V v = some bs) : ∀ b ∈ bs, b.2 = v := by
  cases p with
  | wildcard _ =>
    rw [bindings?] at hb
    cases hb
    simp
  | binding _ n =>
    rw [bindings?] at hb
    cases hb
    by_cases hn : n = "_" <;> simp [hn]
  | _ => simp [isCatchAll] at h

end Pattern

open Pattern

/-- **What simplifying keeps of the meaning of a pattern**, if the alternatives of each choice bind
the same names. The simplified pattern matches the same values and binds the same names. A choice
that takes all values binds its name to the whole value, even if an alternative before the catch-all
matches, too, and binds the name to a part of it; if the pattern has no such choice, then all names
are bound to the same values. -/
theorem bindings_simplify {α : Type} (V : Values α) {p : Pattern} (h : p.Uniform) (v : α) :
    (p.simplify.bindings? V v).isSome = (p.bindings? V v).isSome ∧
    (∀ bs bs', p.simplify.bindings? V v = some bs → p.bindings? V v = some bs' →
      ∀ n, n ∈ bs.map Prod.fst ↔ n ∈ bs'.map Prod.fst) ∧
    (p.takesAll → ∀ bs, p.simplify.bindings? V v = some bs → ∀ b ∈ bs, b.2 = v) ∧
    (p.Definite → p.simplify.bindings? V v = p.bindings? V v) := by
  obtain ⟨huniform, hkeep⟩ := uniform_simplify h
  refine ⟨isSome_bindings_simplify V p v, fun bs bs' hs hp n => ?_, fun htakes bs hs => ?_,
    fun hd => congrFun (bindings_simplify_of_definite V hd) v⟩
  · have hs := mem_bound_of_bindings hs
    have hp := mem_bound_of_bindings hp
    constructor
    · intro hn
      obtain ⟨b, hb, rfl⟩ := List.mem_map.mp hn
      obtain ⟨hn, hne⟩ := hs.1 b hb
      exact hp.2 h b.1 (bound_simplify p hn) hne
    · intro hn
      obtain ⟨b, hb, rfl⟩ := List.mem_map.mp hn
      obtain ⟨hn, hne⟩ := hp.1 b hb
      exact hs.2 huniform b.1 (hkeep b.1 hn hne) hne
  · exact eq_of_bindings_of_isCatchAll (by rw [isCatchAll_simplify, htakes]) hs

/-- Numbers: each but zero is `Some` of the one before it. -/
def Values.numbers : Values Nat where
  isLiteral l n := l = .int n
  isVariant _ _ := false
  items? _ := none
  fields? path n := if path = ["Some"] ∧ n ≠ 0 then some [("value", n - 1)] else none

/-- The choice that takes all values is below a class, and it takes them with its first
alternative. -/
theorem bindings_simplify_numbers : ∃ p,
    Pattern.read (.ofText "Some(x | Some(x))".toList 0) = .ok (p, ⟨17, []⟩) ∧ p.Uniform ∧
      p.Definite ∧ p.bindings? .numbers 5 = some [("x", 4)] ∧
      p.simplify.bindings? .numbers 5 = p.bindings? .numbers 5 := by
  let p : Pattern := .variant 0 ["Some"]
    [.or 5 [.binding 5 "x", .variant 9 ["Some"] [.binding 14 "x"]]]
  have huniform : p.Uniform := by
    simp [p, Pattern.Uniform, Pattern.UniformAll, Pattern.bound, Pattern.boundAll]
  have hdefinite : p.Definite := by
    simp [p, Pattern.Definite, Pattern.DefiniteAll, Pattern.takesAll]
  exact ⟨p, rfl, huniform, hdefinite, rfl,
    (bindings_simplify .numbers huniform 5).2.2.2 hdefinite⟩

/-- **A part of a value is lost**: `Some(x) | x` binds `x` to what is inside, if the first
alternative matches, and to the whole value, if the pattern is simplified. -/
theorem whole_value_of_some : ∃ p,
    Pattern.read (.ofText "Some(x) | x".toList 0) = .ok (p, ⟨11, []⟩) ∧ p.Uniform ∧
      p.bindings? .numbers 5 = some [("x", 4)] ∧
      p.simplify.bindings? .numbers 5 = some [("x", 5)] := by
  refine ⟨.or 0 [.variant 0 ["Some"] [.binding 5 "x"], .binding 10 "x"], rfl, ?_, rfl, rfl⟩
  simp [Pattern.Uniform, Pattern.UniformAll, Pattern.bound, Pattern.boundAll]

end Stencil
