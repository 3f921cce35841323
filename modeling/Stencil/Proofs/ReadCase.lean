import Mathlib.Data.List.TakeWhile
import Stencil.Proofs.CodeGrammar

/-!
# Reading generated cases

The reader of patterns does not look behind what it reads further than to the next token. So tokens
that are a pattern are one wherever they stand, and larger patterns are read as what their parts are
read as.

* `CodePattern.IsClosed`, `CodePattern.IsChoice`, `CodePattern.IsPart`: tokens are a pattern without
  alternatives, alternatives, or a part of a list, wherever they stand.
* `CodePattern.isClosed_paren`, `CodePattern.isClosed_object`, ...: what is made of them.
* `CodePattern.grouped_withStar`, `CodePattern.objectOf_plain`, ...: lists of one kind.
* **`CodePattern.IsChoice.ofTokens`**: the tree of tokens that are alternatives.
-/

namespace Stencil.CodePattern

open Text

/-- The tokens that may stand after a pattern. -/
def ends (t : CodeToken) : Bool := t = .op "," ∨ t = .op ")" ∨ t = .op "|"

/-- Nothing stands here, or what may stand after a pattern. -/
def Ends (rest : List CodeToken) : Prop := ∀ t, rest.head? = some t → ends t = true

/-- Nothing stands here, or what may stand after the last alternative. -/
def Stops (rest : List CodeToken) : Prop := Ends rest ∧ rest.head? ≠ some (.op "|")

/-- **Tokens that are a pattern without alternatives.** -/
structure IsClosed (ts : List CodeToken) (c : CodePattern) : Prop where
  starts : ∃ t ts', ts = t :: ts' ∧ t ≠ .op ")" ∧ t ≠ .op "*"
  unnamed : ∀ rest, Ends rest → ∀ w us, ts ++ rest ≠ .word w :: .op "=" :: us
  reads : ∀ n rest, 4 * ts.length ≤ n → Ends rest → closed n (ts ++ rest) = some (c, rest)

/-- **Tokens that are alternatives**, with bars between them. -/
inductive IsChoice : List CodeToken → List CodePattern → Prop
  | single {ts : List CodeToken} {c : CodePattern} (h : IsClosed ts c) : IsChoice ts [c]
  | cons {a ts : List CodeToken} {c : CodePattern} {cs : List CodePattern} (h : IsClosed a c)
    (hs : IsChoice ts cs) : IsChoice (a ++ .op "|" :: ts) (c :: cs)

/-- **Tokens that are a part of a list.** -/
structure IsPart (ts : List CodeToken) (p : Part) : Prop where
  starts : ∃ t ts', ts = t :: ts' ∧ t ≠ .op ")"
  reads : ∀ n rest, 4 * ts.length + 2 ≤ n → Stops rest → part n (ts ++ rest) = some (p, rest)

/-- **Tokens that are parts of a list**, with commas between them. -/
inductive IsParts : List CodeToken → List Part → Prop
  | nil : IsParts [] []
  | single {ts : List CodeToken} {p : Part} (h : IsPart ts p) : IsParts ts [p]
  | cons {a ts : List CodeToken} {p : Part} {ps : List Part} (h : IsPart a p)
    (hne : ps ≠ []) (hs : IsParts ts ps) : IsParts (a ++ .op "," :: ts) (p :: ps)

section Reads

variable {n : Nat} {w : String} {path : List String} {ts rest : List CodeToken}
variable {c : CodePattern} {cs : List CodePattern} {p : Part} {ps : List Part}

theorem ends_nil : Ends [] := fun t ht => by cases ht

theorem ends_bar : Ends (.op "|" :: rest) := fun t ht => by cases ht; rfl

theorem stops_nil : Stops [] := ⟨ends_nil, by simp⟩

theorem stops_comma : Stops (.op "," :: rest) := ⟨fun t ht => by cases ht; rfl, by simp⟩

theorem stops_paren : Stops (.op ")" :: rest) := ⟨fun t ht => by cases ht; rfl, by simp⟩

theorem Ends.head?_ne (h : Ends rest) {t : CodeToken} (ht : ends t = false) :
    rest.head? ≠ some t := fun hrest => by
  rw [h t hrest] at ht
  cases ht

/-- Something is read only in some steps. -/
theorem exists_succ {k : Nat} (h : k < n) : ∃ m, n = m + 1 ∧ k ≤ m := ⟨n - 1, by omega, by omega⟩

/-! ### Alternatives -/

theorem IsChoice.choices (h : IsChoice ts cs) (hn : 4 * ts.length < n) (hrest : Stops rest) :
    choices n (ts ++ rest) = some (cs, rest) := by
  induction h generalizing n with
  | single ha =>
    obtain ⟨n, rfl, hle⟩ := exists_succ hn
    rw [CodePattern.choices, ha.reads n rest hle hrest.1, Option.bind_some, if_neg hrest.2]
  | cons ha h ih =>
    obtain ⟨n, rfl, hle⟩ := exists_succ hn
    simp only [List.length_append, List.length_cons] at hle
    rw [CodePattern.choices, List.append_assoc, List.cons_append, ha.reads n _ (by omega) ends_bar,
      Option.bind_some]
    dsimp only
    rw [List.head?_cons, if_pos rfl, List.tail_cons, ih (by omega)]
    rfl

/-- Alternatives after alternatives are alternatives. -/
theorem IsChoice.append {ts' : List CodeToken} {cs' : List CodePattern} (h : IsChoice ts cs)
    (h' : IsChoice ts' cs') : IsChoice (ts ++ .op "|" :: ts') (cs ++ cs') := by
  induction h with
  | single ha => exact .cons ha h'
  | cons ha _ ih =>
    rw [List.append_assoc, List.cons_append]
    exact .cons ha ih

theorem IsChoice.starts (h : IsChoice ts cs) :
    ∃ t ts', ts = t :: ts' ∧ t ≠ .op ")" ∧ t ≠ .op "*" := by
  cases h with
  | single ha => exact ha.starts
  | cons ha h =>
    obtain ⟨t, ts', rfl, ht⟩ := ha.starts
    exact ⟨t, _, rfl, ht⟩

/-- No name of a field stands before alternatives. -/
theorem IsChoice.unnamed (h : IsChoice ts cs) (hrest : Ends rest) (us : List CodeToken) :
    ts ++ rest ≠ .word w :: .op "=" :: us := by
  cases h with
  | single ha => exact ha.unnamed rest hrest w us
  | cons ha h =>
    rw [List.append_assoc]
    exact ha.unnamed _ ends_bar w us

/-- **The tree of tokens that are alternatives.** -/
theorem IsChoice.ofTokens (h : IsChoice ts cs) : ofTokens ts = some (joined cs) := by
  have hread := h.choices (Nat.lt_succ_self _) stops_nil
  rw [List.append_nil] at hread
  rw [CodePattern.ofTokens, hread]

/-! ### Parts -/

theorem isPart_star : IsPart [.op "*", .word "_"] .star where
  starts := ⟨_, _, rfl, by simp⟩
  reads n rest hn _ := by
    obtain ⟨n, rfl, -⟩ := exists_succ hn
    rw [List.cons_append, List.singleton_append, part]

/-- A pattern is a part without a name. -/
theorem IsChoice.part (h : IsChoice ts cs) : IsPart ts (.plain (joined cs)) where
  starts := by
    obtain ⟨t, ts', rfl, ht, -⟩ := h.starts
    exact ⟨t, ts', rfl, ht⟩
  reads n rest hn hrest := by
    obtain ⟨n, rfl, hle⟩ := exists_succ hn
    have hstar : (ts ++ rest).head? ≠ some (.op "*") := by
      obtain ⟨t, ts', rfl, -, ht⟩ := h.starts
      simpa using ht
    rw [CodePattern.part, h.choices (by omega) hrest]
    · rfl
    · intro us heq
      exact hstar (by rw [heq]; rfl)
    · intro m us heq
      exact h.unnamed hrest.1 us heq

theorem IsChoice.named (h : IsChoice ts cs) (hw : isName w = true) :
    IsPart (.word w :: .op "=" :: ts) (.named w (joined cs)) where
  starts := ⟨_, _, rfl, by simp⟩
  reads n rest hn hrest := by
    obtain ⟨n, rfl, hle⟩ := exists_succ hn
    simp only [List.length_cons] at hle
    rw [List.cons_append, List.cons_append, CodePattern.part, if_pos hw,
      h.choices (by omega) hrest]
    rfl

/-- A part does not start with the closing parenthesis. -/
theorem IsPart.head?_ne (h : IsPart ts p) : (ts ++ rest).head? ≠ some (.op ")") := by
  obtain ⟨t, ts', rfl, ht⟩ := h.starts
  simpa using ht

/-- **Parts up to the closing parenthesis.** -/
theorem IsParts.parts (h : IsParts ts ps) (hn : 4 * ts.length + 2 < n) :
    parts n (ts ++ .op ")" :: rest) = some ((ps, ps.isEmpty), rest) := by
  induction h generalizing n with
  | nil =>
    obtain ⟨n, rfl, -⟩ := exists_succ hn
    rw [CodePattern.parts, List.nil_append, List.head?_cons, if_pos rfl]
    rfl
  | single ha =>
    obtain ⟨n, rfl, hle⟩ := exists_succ hn
    rw [CodePattern.parts, if_neg ha.head?_ne, ha.reads n _ hle stops_paren, Option.bind_some]
    dsimp only
    rw [List.head?_cons, if_neg (by simp), if_pos rfl]
    rfl
  | @cons _ _ _ ps ha hne _ ih =>
    obtain ⟨n, rfl, hle⟩ := exists_succ hn
    simp only [List.length_append, List.length_cons] at hle
    rw [List.append_assoc, List.cons_append, CodePattern.parts, if_neg ha.head?_ne,
      ha.reads n _ (by omega) stops_comma, Option.bind_some]
    dsimp only
    rw [List.head?_cons, if_pos rfl, List.tail_cons, ih (by omega)]
    cases ps with
    | nil => exact absurd rfl hne
    | cons p ps => rfl

/-- **One part with a comma after it.** -/
theorem IsPart.parts (h : IsPart ts p) (hn : 4 * ts.length + 3 < n) :
    parts n (ts ++ .op "," :: .op ")" :: rest) = some (([p], true), rest) := by
  obtain ⟨n, rfl, hle⟩ := exists_succ hn
  obtain ⟨m, rfl, -⟩ := exists_succ (n := n) (k := 0) (by omega)
  rw [CodePattern.parts, if_neg h.head?_ne, h.reads _ _ (by omega) stops_comma, Option.bind_some]
  dsimp only
  rw [List.head?_cons, if_pos rfl, List.tail_cons, CodePattern.parts, List.head?_cons, if_pos rfl]
  rfl

/-! ### Patterns without alternatives -/

/-- One word is no name of a field. -/
theorem unnamed_single {t : CodeToken} (hrest : Ends rest) (w : String) (us : List CodeToken) :
    [t] ++ rest ≠ .word w :: .op "=" :: us := by
  intro h
  obtain rfl : rest = .op "=" :: us := List.tail_eq_of_cons_eq h
  exact hrest.head?_ne (t := .op "=") rfl rfl

/-- A literal, as it is read from tokens. -/
theorem isClosed_literal {v : Literal}
    (hstarts : ∃ t ts', ts = t :: ts' ∧ t ≠ .op ")" ∧ t ≠ .op "*")
    (hunnamed : ∀ rest, Ends rest → ∀ w us, ts ++ rest ≠ .word w :: .op "=" :: us)
    (h : ∀ rest, Ends rest → literal? (ts ++ rest) = some (v, rest)) :
    IsClosed ts (literal v) where
  starts := hstarts
  unnamed := hunnamed
  reads n rest hn hrest := by
    obtain ⟨t, ts', rfl, -⟩ := hstarts
    obtain ⟨n, rfl, -⟩ := exists_succ (n := n) (k := 0) (by simp at hn; omega)
    rw [closed, h rest hrest]

/-- A name is no literal. -/
theorem literal?_name (h : isName w = true) : literal? (.word w :: ts) = none := by
  have hne : ∀ w', isReserved w' = true → w ≠ w' := by
    rintro w' hw' rfl
    rw [isName, hw', Bool.not_true, Bool.and_false] at h
    cases h
  rw [literal?, constant?, if_neg (hne _ (by decide +kernel)), if_neg (hne _ (by decide +kernel)),
    if_neg (hne _ (by decide +kernel))]
  rfl

theorem isClosed_wildcard : IsClosed [.word "_"] wildcard where
  starts := ⟨_, _, rfl, by simp⟩
  unnamed rest hrest := unnamed_single hrest
  reads n rest hn _ := by
    obtain ⟨n, rfl, -⟩ := exists_succ (n := n) (k := 0) (by simp at hn; omega)
    have hname : literal? (.word "_" :: rest) = none := literal?_name (by decide +kernel)
    rw [List.singleton_append, closed, hname]
    rfl

/-- **Parentheses** hold one pattern without a comma, or the items of a sequence. -/
theorem isClosed_paren {b : Bool} (hgrouped : grouped ps b = some c)
    (h : ∀ n rest, 4 * ts.length + 3 < n →
      parts n (ts ++ .op ")" :: rest) = some ((ps, b), rest)) :
    IsClosed (.op "(" :: (ts ++ [.op ")"])) c where
  starts := ⟨_, _, rfl, by simp⟩
  unnamed rest _ w us hw := by cases hw
  reads n rest hn _ := by
    simp only [List.length_cons, List.length_append, List.length_nil] at hn
    obtain ⟨n, rfl, hle⟩ := exists_succ (n := n) (k := 4 * ts.length + 4) (by omega)
    have hliteral : literal? (.op "(" :: (ts ++ .op ")" :: rest)) = none := rfl
    rw [List.cons_append, List.append_assoc, List.singleton_append, closed, hliteral]
    dsimp only
    rw [List.head?_cons, if_pos rfl, List.tail_cons, h n rest (by omega), Option.bind_some,
      hgrouped]
    rfl

/-! ### Names with points -/

/-- The tokens of a name with points. -/
def pathTokens : List String → List CodeToken
  | [] => []
  | [n] => [.word n]
  | n :: ns => .word n :: .op "." :: pathTokens ns

/-- **A name that may be joined to others by points**; `_` stands for itself only. -/
structure IsDotted (path : List String) : Prop where
  names : ∀ n ∈ path, isName n = true
  head : ∃ n ns, path = n :: ns ∧ n ≠ "_"

theorem path?_pathTokens (hne : path ≠ []) (hpath : ∀ n ∈ path, isName n = true)
    (hrest : rest.head? ≠ some (.op ".")) :
    path? (pathTokens path ++ rest) = some (path, rest) := by
  induction path with
  | nil => exact absurd rfl hne
  | cons n ns ih =>
    have hn := hpath n List.mem_cons_self
    cases ns with
    | nil =>
      rw [pathTokens, List.singleton_append, path?, if_pos hn]
      rintro ts rfl
      exact hrest rfl
    | cons m ns =>
      rw [pathTokens, List.cons_append, List.cons_append, path?, if_pos hn,
        ih (by simp) fun k hk => hpath k (List.mem_cons_of_mem _ hk)]
      · rfl
      · simp

/-- A name is the first token. -/
theorem IsDotted.exists_cons (h : IsDotted path) :
    ∃ n us, pathTokens path = .word n :: us ∧ n ≠ "_" ∧ isName n = true := by
  obtain ⟨n, ns, rfl, hn⟩ := h.head
  have hname := h.names n List.mem_cons_self
  cases ns with
  | nil => exact ⟨n, [], rfl, hn, hname⟩
  | cons m ns => exact ⟨n, _, rfl, hn, hname⟩

/-- After the first token stands a point, or what follows the name. -/
theorem IsDotted.unnamed (h : IsDotted path) (hrest : rest.head? ≠ some (.op "=")) (w : String)
    (us : List CodeToken) : pathTokens path ++ rest ≠ .word w :: .op "=" :: us := by
  intro heq
  obtain ⟨n, ns, rfl, -⟩ := h.head
  cases ns with
  | nil =>
    obtain rfl : rest = .op "=" :: us := List.tail_eq_of_cons_eq heq
    exact hrest rfl
  | cons m ns => simp [pathTokens] at heq

/-- **A name is read**, and then what follows it. -/
theorem IsDotted.closed (h : IsDotted path) (hrest : rest.head? ≠ some (.op ".")) :
    closed (n + 1) (pathTokens path ++ rest) =
      if rest.head? = some (.op "(") then
        (parts n rest.tail).bind fun r => (objectOf path r.1.1).map (·, r.2)
      else if rest.head? = some (.op "=") then none
      else some (ofPath path, rest) := by
  obtain ⟨m, us, hus, hm, hname⟩ := h.exists_cons
  have hne : path ≠ [] := by rintro rfl; cases hus
  have hread := path?_pathTokens hne h.names hrest
  rw [hus, List.cons_append] at hread ⊢
  rw [CodePattern.closed, literal?_name hname]
  dsimp only
  rw [List.head?_cons, if_neg (by simp), if_neg (by simpa using hm), hread, Option.bind_some]

theorem isClosed_path (h : IsDotted path) : IsClosed (pathTokens path) (ofPath path) where
  starts := by
    obtain ⟨m, us, hus, -⟩ := h.exists_cons
    exact ⟨_, _, hus, by simp⟩
  unnamed rest hrest := h.unnamed (hrest.head?_ne rfl)
  reads n rest hn hrest := by
    obtain ⟨m, us, hus, -⟩ := h.exists_cons
    obtain ⟨n, rfl, -⟩ := exists_succ (n := n) (k := 0) (by rw [hus] at hn; simp at hn; omega)
    rw [h.closed (hrest.head?_ne rfl), if_neg (hrest.head?_ne rfl), if_neg (hrest.head?_ne rfl)]

/-- **A name with parts in parentheses.** -/
theorem isClosed_object (h : IsDotted path) (hobject : objectOf path ps = some c)
    (hs : IsParts ts ps) : IsClosed (pathTokens path ++ .op "(" :: (ts ++ [.op ")"])) c where
  starts := by
    obtain ⟨m, us, hus, -⟩ := h.exists_cons
    exact ⟨_, _, by rw [hus, List.cons_append], by simp⟩
  unnamed rest _ := by
    rw [List.append_assoc]
    exact h.unnamed (by simp)
  reads n rest hn hrest := by
    simp only [List.length_cons, List.length_append, List.length_nil] at hn
    obtain ⟨n, rfl, hle⟩ := exists_succ (n := n) (k := 4 * ts.length + 4) (by omega)
    rw [List.append_assoc, List.cons_append, List.append_assoc, List.singleton_append,
      h.closed (by simp), List.head?_cons, if_pos rfl, List.tail_cons, hs.parts (by omega),
      Option.bind_some, hobject]
    rfl

end Reads

/-! ## Lists of one kind -/

section Lists

variable {k : Nat} {path : List String} {cs : List CodePattern} {star : Option Nat}
variable {fs : List (String × CodePattern)}

theorem filterMap_plain (cs : List CodePattern) :
    (cs.map Part.plain).filterMap Part.plain? = cs := by
  rw [List.filterMap_map]
  exact List.filterMap_some

/-- A pattern is neither a star nor named. -/
theorem plain_of_mem {p : Part} (h : p ∈ cs.map Part.plain) :
    p.isStar = false ∧ p.isNamed = false ∧ p.plain?.isSome = true := by
  obtain ⟨c, -, rfl⟩ := List.mem_map.mp h
  exact ⟨rfl, rfl, rfl⟩

theorem countP_plain (cs : List CodePattern) : (cs.map Part.plain).countP Part.isStar = 0 :=
  List.countP_eq_zero.mpr fun p hp => by rw [(plain_of_mem hp).1]; decide

theorem findIdx?_plain (cs : List CodePattern) :
    (cs.map Part.plain).findIdx? Part.isStar = none :=
  List.findIdx?_eq_none_iff.mpr fun _ hp => (plain_of_mem hp).1

theorem any_isNamed_plain (cs : List CodePattern) : (cs.map Part.plain).any Part.isNamed = false :=
  List.any_eq_false.mpr fun p hp => by rw [(plain_of_mem hp).2.1]; decide

/-- **Patterns with a star among them.** -/
def withStar (cs : List CodePattern) : Option Nat → List Part
  | none => cs.map Part.plain
  | some k => (cs.take k).map Part.plain ++ .star :: (cs.drop k).map Part.plain

theorem filterMap_withStar : (withStar cs star).filterMap Part.plain? = cs := by
  cases star with
  | none => exact filterMap_plain cs
  | some k =>
    rw [withStar, List.filterMap_append, List.filterMap_cons_none rfl, filterMap_plain,
      filterMap_plain, List.take_append_drop]

theorem any_isNamed_withStar : (withStar cs star).any Part.isNamed = false := by
  cases star with
  | none => exact any_isNamed_plain cs
  | some k =>
    rw [withStar, List.any_append, List.any_cons, any_isNamed_plain, any_isNamed_plain]
    rfl

theorem countP_withStar : (withStar cs star).countP Part.isStar = star.toList.length := by
  cases star with
  | none => exact countP_plain cs
  | some k =>
    rw [withStar, List.countP_append, List.countP_cons_of_pos rfl, countP_plain, countP_plain]
    rfl

theorem findIdx?_withStar (h : ∀ k, star = some k → k ≤ cs.length) :
    (withStar cs star).findIdx? Part.isStar = star := by
  cases star with
  | none => exact findIdx?_plain cs
  | some k =>
    have hstar : Part.star.isStar = true := rfl
    rw [withStar, List.findIdx?_append, findIdx?_plain, List.findIdx?_cons, if_pos hstar]
    simp [Nat.min_eq_left (h k rfl)]

/-- **Patterns with at most one star are a sequence.** -/
theorem sequenceOf_withStar (h : ∀ k, star = some k → k ≤ cs.length) :
    sequenceOf (withStar cs star) = some (sequence cs star) := by
  have hone : star.toList.length ≤ 1 := by cases star <;> simp
  rw [sequenceOf, any_isNamed_withStar, countP_withStar, filterMap_withStar, findIdx?_withStar h,
    if_neg (by simp [hone])]

/-- Parentheses hold a sequence if they hold a comma, or do not hold exactly one part. -/
theorem grouped_withStar (h : ∀ k, star = some k → k ≤ cs.length) {b : Bool}
    (hb : (withStar cs star).length = 1 → b = true) :
    grouped (withStar cs star) b = some (sequence cs star) := by
  have hsequence := sequenceOf_withStar h
  unfold grouped
  split
  · rename_i heq
    rw [heq] at hb
    exact absurd (hb rfl) (by simp)
  · rename_i heq
    rw [heq] at hb
    exact absurd (hb rfl) (by simp)
  · exact hsequence

/-- The parts of a class by position. -/
theorem objectOf_plain : objectOf path (cs.map .plain) = some (object path cs []) := by
  have hdrop : (cs.map Part.plain).dropWhile (fun p => p.plain?.isSome) = [] := by
    exact List.dropWhile_eq_nil_iff.mpr fun p hp => (plain_of_mem hp).2.2
  rw [objectOf, hdrop, filterMap_plain]
  rfl

/-- The parts of a class by name. -/
theorem objectOf_named : objectOf path (fs.map fun f => .named f.1 f.2) =
    some (object path [] fs) := by
  have hplain : (fs.map fun f => Part.named f.1 f.2).filterMap Part.plain? = [] := by
    refine List.filterMap_eq_nil_iff.mpr fun p hp => ?_
    obtain ⟨f, -, rfl⟩ := List.mem_map.mp hp
    rfl
  have hall : (fs.map fun f => Part.named f.1 f.2).all Part.isNamed = true := by
    refine List.all_eq_true.mpr fun p hp => ?_
    obtain ⟨f, -, rfl⟩ := List.mem_map.mp hp
    rfl
  have hnamed : (fs.map fun f => Part.named f.1 f.2).filterMap Part.named? = fs := by
    rw [List.filterMap_map]
    exact List.filterMap_some
  have hdrop : (fs.map fun f => Part.named f.1 f.2).dropWhile (fun p => p.plain?.isSome) =
      fs.map fun f => Part.named f.1 f.2 := by
    cases fs <;> rfl
  rw [objectOf, hdrop, hplain, hnamed, if_pos hall]

end Lists

end Stencil.CodePattern
