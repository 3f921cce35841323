import Stencil.Proofs.Advance

/-!
# Tokens of a text that is cut

A class of lexemes takes as much as it can, so what it takes may depend on all of the text. It does
not depend on what stands behind the lexeme: of a text that is cut there or further on, the same
lexeme is taken, and of a text that starts with none, no lexeme is taken wherever it is cut.

* `Expr.Steady`: a class that is not changed by a cut behind what it takes.
* `Expr.steady_float?`, `Expr.steady_string?`, ...: the classes of lexemes.
* **`Expr.scan_take`**: the token at the start of a text that is cut behind it.
-/

namespace Stencil.Expr

open Text

/-! ## Runs -/

section Runs

variable {p q : Char → Bool} {c : Char} {cs : List Char} {m : Nat}

theorem takeWhile_take (cs : List Char) (m : Nat) :
    (cs.take m).takeWhile p = (cs.takeWhile p).take m := by
  induction cs generalizing m with
  | nil => simp
  | cons c cs ih =>
    cases m with
    | zero => rfl
    | succ m => cases hc : p c <;> simp [hc, ih]

theorem dropWhile_take (h : (cs.takeWhile p).length ≤ m) :
    (cs.take m).dropWhile p = (cs.dropWhile p).take (m - (cs.takeWhile p).length) := by
  induction cs generalizing m with
  | nil => simp
  | cons c cs ih =>
    cases hc : p c with
    | false => cases m <;> simp [hc]
    | true =>
      rw [List.takeWhile_cons_of_pos hc, List.length_cons] at h ⊢
      obtain ⟨m, rfl⟩ : ∃ k, m = k + 1 := Nat.exists_eq_succ_of_ne_zero (by omega)
      rw [List.take_succ_cons, List.dropWhile_cons_of_pos hc, List.dropWhile_cons_of_pos hc,
        ih (by omega), Nat.add_sub_add_right]

end Runs

/-! ## Classes -/

/-- **A class that is not changed by a cut**: behind what it takes, or anywhere if it takes
nothing. -/
structure Steady (f : List Char → Split) : Prop where
  missed : ∀ {cs} m, f cs = none → f (cs.take m) = none
  taken : ∀ {cs run rest m}, f cs = some (run, rest) → run.length ≤ m →
    f (cs.take m) = some (run, rest.take (m - run.length))

section Steady

variable {f : List Char → Split} {p q : Char → Bool}

/-- A run of a class of characters. -/
theorem steady_run (h : ∀ cs, f cs =
    if (cs.takeWhile p).isEmpty then none else some (cs.takeWhile p, cs.dropWhile p)) :
    Steady f where
  missed m hn := by
    rw [h] at hn ⊢
    split at hn
    · rename_i hempty
      rw [takeWhile_take, List.isEmpty_iff.mp hempty, List.take_nil]
      rfl
    · cases hn
  taken hs hm := by
    rw [h] at hs ⊢
    split at hs
    · cases hs
    · rename_i hne
      cases hs
      rw [takeWhile_take, List.take_of_length_le hm, if_neg hne, dropWhile_take hm]

/-- A run that may be empty. -/
theorem steady_span (p : Char → Bool) :
    Steady fun cs => some (cs.takeWhile p, cs.dropWhile p) where
  missed _ hn := by cases hn
  taken hs hm := by
    cases hs
    rw [takeWhile_take, List.take_of_length_le hm, dropWhile_take hm]

/-- A character in front of what a class takes that depends on it. -/
theorem steady_after {k : Char → Option (List Char → Split)} (hk : ∀ c g, k c = some g → Steady g)
    (hnil : f [] = none)
    (hcons : ∀ c cs, f (c :: cs) = (k c).bind fun g => (g cs).map fun x => (c :: x.1, x.2)) :
    Steady f where
  missed {cs} m hn := by
    cases cs with
    | nil => rwa [List.take_nil]
    | cons c cs =>
      cases m with
      | zero => exact hnil
      | succ m =>
        rw [hcons] at hn
        rw [List.take_succ_cons, hcons]
        cases hc : k c with
        | none => rfl
        | some g =>
          rw [hc, Option.bind_some] at hn
          rw [Option.bind_some, (hk c g hc).missed m (Option.map_eq_none_iff.mp hn),
            Option.map_none]
  taken {cs run rest m} hs hm := by
    cases cs with
    | nil =>
      rw [hnil] at hs
      cases hs
    | cons c cs =>
      rw [hcons] at hs
      obtain ⟨g, hc, hs⟩ := Option.bind_eq_some_iff.mp hs
      obtain ⟨⟨run, rest⟩, hrun, he⟩ := Option.map_eq_some_iff.mp hs
      cases he
      rw [List.length_cons] at hm
      obtain ⟨m, rfl⟩ : ∃ k, m = k + 1 := Nat.exists_eq_succ_of_ne_zero (by omega)
      rw [List.take_succ_cons, hcons, hc, Option.bind_some,
        (hk c g hc).taken hrun (Nat.le_of_succ_le_succ hm), List.length_cons, Nat.add_sub_add_right]
      rfl

/-- A character of a class in front of what another class takes. -/
theorem Steady.headed {g : List Char → Split} (hf : Steady f) (hnil : g [] = none)
    (hcons : ∀ c cs, g (c :: cs) =
      if q c then (f cs).map fun x => (c :: x.1, x.2) else none) : Steady g := by
  refine steady_after (k := fun c => if q c then some f else none) (fun c g h => ?_) hnil
    fun c cs => ?_
  · split at h
    · cases h
      exact hf
    · cases h
  · rw [hcons]
    split <;> rfl

/-- A character that may be missing, in front of what another class takes. -/
theorem Steady.optional {g : List Char → Split} (hf : Steady f) (hfnil : f [] = none)
    (hnil : g [] = none) (hcons : ∀ c cs, g (c :: cs) =
      if q c then (f cs).map fun x => (c :: x.1, x.2) else f (c :: cs)) : Steady g where
  missed {cs} m hn := by
    cases cs with
    | nil => rwa [List.take_nil]
    | cons c cs =>
      cases m with
      | zero => exact hnil
      | succ m =>
        rw [hcons] at hn
        rw [List.take_succ_cons, hcons]
        split at hn
        · rw [if_pos ‹_›, hf.missed m (Option.map_eq_none_iff.mp hn)]
          rfl
        · rw [if_neg ‹_›, ← List.take_succ_cons]
          exact hf.missed _ hn
  taken {cs run rest m} hs hm := by
    cases cs with
    | nil =>
      rw [hnil] at hs
      cases hs
    | cons c cs =>
      rw [hcons] at hs
      split at hs
      · rename_i hq
        obtain ⟨⟨run, rest⟩, hrun, he⟩ := Option.map_eq_some_iff.mp hs
        cases he
        rw [List.length_cons] at hm
        obtain ⟨m, rfl⟩ : ∃ k, m = k + 1 := Nat.exists_eq_succ_of_ne_zero (by omega)
        rw [List.take_succ_cons, hcons, if_pos hq, hf.taken hrun (Nat.le_of_succ_le_succ hm),
          List.length_cons, Nat.add_sub_add_right]
        rfl
      · rename_i hq
        have htaken := hf.taken hs hm
        cases m with
        | zero =>
          rw [List.take_zero, hfnil] at htaken
          cases htaken
        | succ m => rwa [List.take_succ_cons, hcons, if_neg hq, ← List.take_succ_cons]

theorem steady_blank? : Steady blank? := steady_run fun _ => rfl

theorem steady_digits? : Steady digits? := steady_run fun _ => rfl

theorem steady_numeral? : Steady numeral? := (steady_span _).headed rfl fun _ _ => rfl

theorem steady_name? : Steady name? := (steady_span _).headed rfl fun _ _ => rfl

/-- Digits that may have a sign before them. -/
def signed? : List Char → Split
  | s :: ds => if s == '+' || s == '-' then (digits? ds).map fun x => (s :: x.1, x.2)
    else digits? (s :: ds)
  | [] => none

theorem steady_exponent? : Steady exponent? := by
  have hsigned : Steady signed? := steady_digits?.optional rfl rfl fun _ _ => rfl
  refine hsigned.headed (q := fun e => e == 'e' || e == 'E') rfl fun e cs => ?_
  cases cs with
  | nil => rfl
  | cons s ds =>
    rw [exponent?]
    split
    · split
      · rename_i hsign
        rw [signed?, if_pos hsign, Option.map_map]
        rfl
      · rename_i hsign
        rw [signed?, if_neg hsign]
    · rfl

theorem closing?_plain {mark c : Char} {cs : List Char} (h : c = '\\' → cs = []) :
    closing? mark (c :: cs) = if c == mark then some ([c], cs) else if c == '\\' then none
      else (closing? mark cs).map fun x => (c :: x.1, x.2) := by
  rw [closing?]
  rintro d ds hc rfl
  cases h hc

/-- A quote is no backslash. -/
theorem mark_ne {c : Char} (h : (c == '"' || c == '\'') = true) : c ≠ '\\' := by
  rintro rfl
  cases h

/-- The inside of a string is taken up to its closing quote. -/
theorem steady_closing? {mark : Char} (hmark : mark ≠ '\\') : Steady (closing? mark) where
  missed {cs} m hn := by
    fun_induction closing? mark cs generalizing m with
    | case1 => rw [List.take_nil, closing?]
    | case2 c cs ih =>
      cases m with
      | zero => rfl
      | succ m =>
        cases m with
        | zero =>
          rw [List.take_succ_cons, List.take_zero, closing?_plain fun _ => rfl,
            if_neg (by simpa using hmark.symm)]
          rfl
        | succ m =>
          rw [List.take_succ_cons, List.take_succ_cons, closing?,
            ih m (Option.map_eq_none_iff.mp hn)]
          rfl
    | case3 c cs _ hc => cases hn
    | case4 c cs hnot hc hback =>
      cases m with
      | zero => rfl
      | succ m =>
        rw [List.take_succ_cons, closing?_plain fun hc => ?_, if_neg hc, if_pos hback]
        cases cs with
        | nil => exact List.take_nil
        | cons d ds => exact (hnot d ds ‹_› rfl).elim
    | case5 c cs hnot hc hback ih =>
      cases m with
      | zero => rfl
      | succ m =>
        rw [List.take_succ_cons, closing?_plain fun h => absurd (beq_iff_eq.mpr h) hback, if_neg hc,
          if_neg hback, ih m (Option.map_eq_none_iff.mp hn)]
        rfl
  taken {cs run rest m} hs hm := by
    fun_induction closing? mark cs generalizing run m with
    | case1 => cases hs
    | case2 c cs ih =>
      obtain ⟨⟨inside, rest⟩, hinside, he⟩ := Option.map_eq_some_iff.mp hs
      cases he
      simp only [List.length_cons] at hm
      obtain ⟨m, rfl⟩ : ∃ k, m = k + 2 := ⟨m - 2, by omega⟩
      rw [List.take_succ_cons, List.take_succ_cons, closing?, ih hinside (by omega)]
      simp only [Option.map_some, List.length_cons, Nat.add_sub_add_right]
    | case3 c cs hnot hc =>
      cases hs
      obtain ⟨m, rfl⟩ : ∃ k, m = k + 1 := Nat.exists_eq_succ_of_ne_zero (by
        rw [List.length_singleton] at hm
        omega)
      have hplain : c ≠ '\\' := fun h => hmark (by rw [← eq_of_beq hc, h])
      rw [List.take_succ_cons, closing?_plain fun h => absurd h hplain, if_pos hc]
      rfl
    | case4 => cases hs
    | case5 c cs hnot hc hback ih =>
      obtain ⟨⟨inside, rest⟩, hinside, he⟩ := Option.map_eq_some_iff.mp hs
      cases he
      rw [List.length_cons] at hm
      obtain ⟨m, rfl⟩ : ∃ k, m = k + 1 := Nat.exists_eq_succ_of_ne_zero (by omega)
      rw [List.take_succ_cons, closing?_plain fun h => absurd (beq_iff_eq.mpr h) hback, if_neg hc,
        if_neg hback, ih hinside (by omega)]
      simp only [Option.map_some, List.length_cons, Nat.add_sub_add_right]

theorem steady_string? : Steady string? := by
  refine steady_after (k := fun c => if c == '"' || c == '\'' then some (closing? c) else none)
    (fun c g h => ?_) rfl fun c cs => ?_
  · split at h
    · cases h
      exact steady_closing? (mark_ne ‹_›)
    · cases h
  · rw [string?]
    split <;> rfl

/-- The letter of a base and its digits. -/
def based? : List Char → Split
  | letter :: cs => (radixPart? letter).bind fun p =>
    if (cs.takeWhile p).isEmpty then none else some (letter :: cs.takeWhile p, cs.dropWhile p)
  | [] => none

theorem steady_based? : Steady based? := by
  refine steady_after (k := fun letter => (radixPart? letter).map fun p cs =>
    if (cs.takeWhile p).isEmpty then none else some (cs.takeWhile p, cs.dropWhile p))
    (fun c g h => ?_) rfl fun c cs => ?_
  · obtain ⟨p, -, rfl⟩ := Option.map_eq_some_iff.mp h
    exact steady_run fun _ => rfl
  · rw [based?]
    cases radixPart? c with
    | none => rfl
    | some p =>
      simp only [Option.map_some, Option.bind_some]
      split <;> rfl

theorem steady_radix? : Steady radix? := by
  refine steady_based?.headed (q := fun c => c == '0') rfl fun c cs => ?_
  split
  · rename_i hzero
    rw [eq_of_beq hzero]
    cases cs with
    | nil => rfl
    | cons letter cs =>
      rw [radix?, based?, Option.bind_eq_bind]
      cases radixPart? letter with
      | none => rfl
      | some p =>
        simp only [Option.bind_some]
        split <;> rfl
  · rename_i hzero
    rw [radix?]
    rintro letter cs he
    cases he
    exact absurd rfl hzero

/-- Another class where the first takes nothing. -/
theorem Steady.orElse {g h : List Char → Split} (hf : Steady f) (hg : Steady g)
    (heq : ∀ cs, h cs = (f cs).or (g cs)) : Steady h where
  missed m hn := by
    rw [heq, Option.or_eq_none_iff] at hn
    rw [heq, hf.missed m hn.1, hg.missed m hn.2]
    rfl
  taken hs hm := by
    rw [heq] at hs ⊢
    rcases Option.or_eq_some_iff.mp hs with hs | ⟨hn, hs⟩
    · rw [hf.taken hs hm]
      rfl
    · rw [hf.missed _ hn, hg.taken hs hm]
      rfl

theorem steady_int? : Steady int? := by
  refine steady_radix?.orElse steady_numeral? fun cs => ?_
  rw [int?]
  cases radix? cs <;> rfl

/-- What another class takes behind a class that takes all of what it is cut in. -/
theorem Steady.then {g h : List Char → Split} (hf : Steady f) (hg : Steady g)
    (hinside : ∀ {cs run rest m}, f cs = some (run, rest) → m < run.length →
      ∀ {run' rest'}, f (cs.take m) = some (run', rest') → g rest' = none)
    (heq : ∀ cs, h cs = (f cs).bind fun x => (g x.2).map fun y => (x.1 ++ y.1, y.2)) :
    Steady h where
  missed {cs} m hn := by
    rw [heq] at hn ⊢
    cases hfirst : f cs with
    | none => rw [hf.missed m hfirst, Option.bind_none]
    | some x =>
      obtain ⟨run, rest⟩ := x
      rw [hfirst, Option.bind_some, Option.map_eq_none_iff] at hn
      by_cases hm : run.length ≤ m
      · rw [hf.taken hfirst hm, Option.bind_some, hg.missed _ hn, Option.map_none]
      · cases hcut : f (cs.take m) with
        | none => rfl
        | some y =>
          rw [Option.bind_some, hinside hfirst (by omega) hcut, Option.map_none]
  taken {cs run rest m} hs hm := by
    rw [heq] at hs ⊢
    obtain ⟨⟨first, between⟩, hfirst, hs⟩ := Option.bind_eq_some_iff.mp hs
    obtain ⟨⟨second, rest⟩, hsecond, he⟩ := Option.map_eq_some_iff.mp hs
    cases he
    rw [List.length_append] at hm
    dsimp only at hm
    rw [hf.taken hfirst (by omega), Option.bind_some, hg.taken hsecond (by omega), Option.map_some,
      List.length_append, Nat.sub_add_eq]

/-- A numeral that is cut inside is all that is left. -/
theorem numeral?_inside {cs run rest run' rest' : List Char} {m : Nat}
    (h : numeral? cs = some (run, rest)) (hm : m < run.length)
    (h' : numeral? (cs.take m) = some (run', rest')) : rest' = [] := by
  cases cs with
  | nil => cases h
  | cons c cs =>
    cases m with
    | zero => cases h'
    | succ m =>
      rw [numeral?] at h
      rw [List.take_succ_cons, numeral?] at h'
      split at h
      · rename_i hc
        cases h
        rw [if_pos hc] at h'
        cases h'
        rw [List.length_cons] at hm
        have hlen := congrArg List.length
          (List.takeWhile_append_dropWhile (p := isNumeralPart) (l := cs.take m))
        rw [List.length_append, takeWhile_take, List.length_take, List.length_take] at hlen
        exact List.length_eq_zero_iff.mp (by omega)
      · cases h

/-- Digits after a point, with the exponent behind them if there is one. -/
def fraction? (cs : List Char) : Split :=
  (numeral? cs).map fun x =>
    match exponent? x.2 with
    | some y => (x.1 ++ y.1, y.2)
    | none => x

theorem steady_fraction? : Steady fraction? where
  missed m hn := by
    rw [fraction?, Option.map_eq_none_iff] at hn
    rw [fraction?, steady_numeral?.missed m hn, Option.map_none]
  taken {cs run rest m} hs hm := by
    rw [fraction?] at hs ⊢
    obtain ⟨⟨digits, after⟩, hdigits, hs⟩ := Option.map_eq_some_iff.mp hs
    cases hexponent : exponent? after with
    | none =>
      rw [hexponent] at hs
      cases hs
      rw [steady_numeral?.taken hdigits hm, Option.map_some]
      simp only [steady_exponent?.missed _ hexponent]
    | some y =>
      rw [hexponent] at hs
      cases hs
      rw [List.length_append] at hm
      dsimp only at hm
      rw [steady_numeral?.taken hdigits (by omega), Option.map_some]
      simp only [steady_exponent?.taken hexponent (by omega : y.1.length ≤ m - digits.length),
        List.length_append, Nat.sub_add_eq]

/-- A point and a fraction. -/
def point? : List Char → Split
  | c :: cs => if c == '.' then (fraction? cs).map fun x => (c :: x.1, x.2) else none
  | [] => none

theorem steady_float? : Steady float? := by
  have hpoint : Steady point? := steady_fraction?.headed rfl fun _ _ => rfl
  have htail : Steady fun cs => (point? cs).or (exponent? cs) :=
    hpoint.orElse steady_exponent? fun _ => rfl
  refine steady_numeral?.then htail (fun h hm _ _ h' => ?_) fun cs => ?_
  · obtain rfl := numeral?_inside h hm h'
    rfl
  · rw [float?, Option.bind_eq_bind]
    cases numeral? cs with
    | none => rfl
    | some x =>
      obtain ⟨whole, rest⟩ := x
      simp only [Option.bind_some]
      split
      · rename_i after
        have hnone : exponent? ('.' :: after) = none := rfl
        rw [point?, if_pos (by decide), fraction?, hnone, Option.or_none]
        cases numeral? after with
        | none => rfl
        | some y =>
          simp only [Option.bind_some, Option.map_some]
          cases exponent? y.2 <;> simp
      · rename_i hpoint
        have hnone : point? rest = none := by
          cases rest with
          | nil => rfl
          | cons c cs => exact if_neg fun hc => hpoint cs (by rw [eq_of_beq hc])
        rw [hnone, Option.none_or]
        cases exponent? rest <;> rfl

theorem steady_op? : Steady op? where
  missed {cs} m hn := by
    rw [op?, Option.map_eq_none_iff, List.find?_eq_none] at hn ⊢
    intro o ho hstart
    exact hn o ho (by
      rw [List.isPrefixOf_iff_prefix] at hstart ⊢
      exact hstart.trans (List.take_prefix m cs))
  taken {cs run rest m} hs hm := by
    rw [op?] at hs ⊢
    obtain ⟨o, ho, he⟩ := Option.map_eq_some_iff.mp hs
    cases he
    obtain ⟨hstart, before, after, hall, hbefore⟩ := List.find?_eq_some_iff_append.mp ho
    have hcut (o : String) (h : o.toList.isPrefixOf (cs.take m) = true) :
        o.toList.isPrefixOf cs = true := by
      rw [List.isPrefixOf_iff_prefix] at h ⊢
      exact h.trans (List.take_prefix m cs)
    have hfind : operators.find? (fun o => o.toList.isPrefixOf (cs.take m)) = some o := by
      refine List.find?_eq_some_iff_append.mpr ⟨?_, before, after, hall, fun a ha => ?_⟩
      · rw [List.isPrefixOf_iff_prefix] at hstart ⊢
        exact List.prefix_take_iff.mpr ⟨hstart, hm⟩
      · rw [Bool.not_eq_true']
        rw [← Bool.not_eq_true]
        intro h
        have := hbefore a ha
        rw [hcut a h] at this
        cases this
    rw [hfind, Option.map_some, List.drop_take, String.length_toList]

end Steady

/-! ## Tokens -/

/-- **A reader of tokens that is not changed by a cut** behind its token. -/
structure SteadyScan (f : List Char → Option Scan) : Prop where
  missed : ∀ {cs} m, f cs = none → f (cs.take m) = none
  taken : ∀ {cs t m}, f cs = some t → t.text.length ≤ m →
    f (cs.take m) = some ⟨t.kind, t.text, t.rest.take (m - t.text.length)⟩

theorem Steady.scan {f : List Char → Split} (hf : Steady f) (kind : List Char → TokenKind) :
    SteadyScan fun cs => (f cs).scan kind where
  missed m hn := by
    rw [Split.scan, Option.map_eq_none_iff] at hn
    rw [Split.scan, hf.missed m hn, Option.map_none]
  taken hs hm := by
    obtain ⟨⟨run, rest⟩, hrun, rfl⟩ := Option.map_eq_some_iff.mp hs
    rw [Split.scan, hf.taken hrun hm, Option.map_some]

theorem SteadyScan.or {f g : List Char → Option Scan} (hf : SteadyScan f) (hg : SteadyScan g) :
    SteadyScan fun cs => (f cs).or (g cs) where
  missed m hn := by
    rw [Option.or_eq_none_iff] at hn
    rw [hf.missed m hn.1, hg.missed m hn.2, Option.or_none]
  taken hs hm := by
    rcases Option.or_eq_some_iff.mp hs with hs | ⟨hn, hs⟩
    · rw [hf.taken hs hm, Option.some_or]
    · rw [hf.missed _ hn, hg.taken hs hm, Option.none_or]

/-- The token that a class takes. -/
def scan? (cs : List Char) : Option Scan :=
  ((blank? cs).scan fun _ => .blank)
    |>.or ((float? cs).scan fun _ => .float)
    |>.or ((int? cs).scan fun _ => .int)
    |>.or ((string? cs).scan fun _ => .string)
    |>.or ((name? cs).scan wordKind)
    |>.or ((op? cs).scan fun _ => .op)

theorem scan_cons (c : Char) (cs : List Char) :
    scan (c :: cs) = (scan? (c :: cs)).getD ⟨.unknown, [c], cs⟩ := rfl

theorem steadyScan : SteadyScan scan? :=
  ((((((steady_blank?.scan _).or (steady_float?.scan _)).or (steady_int?.scan _)).or
    (steady_string?.scan _)).or (steady_name?.scan _)).or (steady_op?.scan _))

/-- **The token at the start of a text that is cut behind it.** -/
theorem scan_take {cs : List Char} {m : Nat} (h : (scan cs).text.length ≤ m) :
    scan (cs.take m) = ⟨(scan cs).kind, (scan cs).text, (scan cs).rest.take
      (m - (scan cs).text.length)⟩ := by
  cases cs with
  | nil =>
    rw [List.take_nil]
    cases m <;> rfl
  | cons c cs =>
    rw [scan_cons] at h ⊢
    cases hscan : scan? (c :: cs) with
    | none =>
      rw [hscan, Option.getD_none, List.length_singleton] at h
      obtain ⟨m, rfl⟩ : ∃ k, m = k + 1 := Nat.exists_eq_succ_of_ne_zero (by omega)
      have hcut := steadyScan.missed (m + 1) hscan
      rw [List.take_succ_cons] at hcut ⊢
      rw [scan_cons, hcut]
      rfl
    | some t =>
      rw [hscan, Option.getD_some] at h
      have hcut := steadyScan.taken hscan h
      cases m with
      | zero => cases hcut
      | succ m =>
        rw [List.take_succ_cons] at hcut ⊢
        rw [scan_cons, hcut]
        rfl

end Stencil.Expr
