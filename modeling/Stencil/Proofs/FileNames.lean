import Mathlib.Data.List.Nodup
import Mathlib.Data.List.TakeWhile
import Stencil.Asset.Name

/-!
# Names made of file names

* `Path.splitLastPoint_append`, `splitExtension_append`, ...: where a file name is cut.
* `Base64.IsAlphabet.encode_injective`: bytes are determined by their text.
* `splitExtension_hashedName`, `extension_hashedName`: the token of a content goes before the
  extension, which stays.
* `append_token_inj`: a token is found by its length, since it can have dashes in it.
* **`hashedName_inj`**: a hashed name determines the file name and the first bytes of the digest.
* `length_hashedName`, `length_logicalName`: a hashed name is nine characters longer, an identifier
  at most two; so no identifier of a hashed name is that of the file name.
-/

namespace Stencil

/-! ## Points -/

namespace Path

variable {before after cs : List Char}

theorem splitLastPoint_append (h : '.' ∉ after) :
    splitLastPoint (before ++ '.' :: after) = some (before, after) := by
  have hafter : ((before ++ '.' :: after).reverse.takeWhile (· ≠ '.')).reverse = after := by
    have hp : ∀ c ∈ after.reverse, decide (c ≠ '.') = true := fun c hc =>
      decide_eq_true fun he => h (he ▸ List.mem_reverse.mp hc)
    rw [List.reverse_append, List.reverse_cons, List.append_assoc,
      List.takeWhile_append_of_pos hp, List.singleton_append,
      List.takeWhile_cons_of_neg (by simp), List.append_nil, List.reverse_reverse]
  unfold splitLastPoint
  dsimp only
  rw [hafter, List.length_append, List.length_cons, if_neg (by omega)]
  have hlength : before.length + (after.length + 1) - after.length - 1 = before.length := by omega
  rw [hlength, List.take_left]

theorem splitLastPoint_eq_none (h : '.' ∉ cs) : splitLastPoint cs = none := by
  have hall : cs.reverse.takeWhile (· ≠ '.') = cs.reverse := by
    have hp : ∀ c ∈ cs.reverse, decide (c ≠ '.') = true := fun c hc =>
      decide_eq_true fun he => h (he ▸ List.mem_reverse.mp hc)
    exact List.takeWhile_eq_self_iff.mpr hp
  unfold splitLastPoint
  dsimp only
  rw [hall, List.reverse_reverse, if_pos rfl]

/-- A text has no point, or it has a last one. -/
theorem point_cases (cs : List Char) :
    '.' ∉ cs ∨ ∃ before after, cs = before ++ '.' :: after ∧ '.' ∉ after := by
  by_cases h : '.' ∈ cs
  · obtain ⟨after, before, hcs, hafter⟩ := List.eq_append_cons_of_mem (List.mem_reverse.mpr h)
    refine .inr ⟨before.reverse, after.reverse, ?_, by rwa [List.mem_reverse]⟩
    rw [← List.reverse_reverse cs, hcs, List.reverse_append, List.reverse_cons,
      List.append_assoc, List.singleton_append]
  · exact .inl h

end Path

/-! ## Bytes as characters -/

namespace Base64

variable {alphabet : List Char}

theorem charOf_mem (n : Nat) : charOf alphabet n ∈ alphabet ∨ charOf alphabet n = '=' := by
  rw [charOf, List.getD_eq_getElem?_getD]
  cases h : alphabet[n]? with
  | none => exact .inr rfl
  | some c => exact .inl (List.mem_of_getElem? h)

theorem mem_encode {bytes : List UInt8} {c : Char} (h : c ∈ encode alphabet bytes) :
    c ∈ alphabet ∨ c = '=' := by
  fun_induction encode alphabet bytes with
  | case1 a b c rest n ih =>
    simp only [List.mem_cons] at h
    rcases h with rfl | rfl | rfl | rfl | h
    iterate 4 exact charOf_mem _
    exact ih h
  | case2 a b n =>
    simp only [List.mem_cons, List.not_mem_nil, or_false] at h
    rcases h with rfl | rfl | rfl | rfl
    iterate 3 exact charOf_mem _
    exact .inr rfl
  | case3 a n =>
    simp only [List.mem_cons, List.not_mem_nil, or_false] at h
    rcases h with rfl | rfl | rfl | rfl
    iterate 2 exact charOf_mem _
    iterate 2 exact .inr rfl
  | case4 => cases h

theorem length_encode (bytes : List UInt8) :
    (encode alphabet bytes).length = 4 * ((bytes.length + 2) / 3) := by
  fun_induction encode alphabet bytes with
  | case1 a b c rest n ih =>
    simp only [List.length_cons, ih]
    omega
  | case2 => simp only [List.length_cons, List.length_nil, Nat.reduceAdd, Nat.reduceDiv]
  | case3 => simp only [List.length_cons, List.length_nil, Nat.reduceAdd, Nat.reduceDiv]
  | case4 => rfl

/-- **An alphabet**: its characters tell six bits apart, and none of them fills a text up. -/
structure IsAlphabet (alphabet : List Char) : Prop where
  length : alphabet.length = 64
  nodup : alphabet.Nodup
  filler : '=' ∉ alphabet

theorem isAlphabet_urlSafe : IsAlphabet urlSafe where
  length := rfl
  nodup := by decide +kernel
  filler := by decide +kernel

namespace IsAlphabet

variable (h : IsAlphabet alphabet)
include h

theorem charOf_eq_getElem {n : Nat} (hn : n < 64) :
    ∃ hlt : n < alphabet.length, charOf alphabet n = alphabet[n] := by
  have hlt : n < alphabet.length := h.length ▸ hn
  refine ⟨hlt, ?_⟩
  rw [charOf, List.getD_eq_getElem?_getD, List.getElem?_eq_getElem hlt, Option.getD_some]

theorem eq_of_charOf_eq {m n : Nat} (hm : m < 64) (hn : n < 64)
    (he : charOf alphabet m = charOf alphabet n) : m = n := by
  obtain ⟨hm', hcm⟩ := h.charOf_eq_getElem hm
  obtain ⟨hn', hcn⟩ := h.charOf_eq_getElem hn
  rw [hcm, hcn] at he
  exact h.nodup.getElem_inj_iff.mp he

theorem mod_eq_of_charOf_eq {m n : Nat} (he : charOf alphabet (m % 64) = charOf alphabet (n % 64)) :
    m % 64 = n % 64 :=
  h.eq_of_charOf_eq (Nat.mod_lt _ (by decide)) (Nat.mod_lt _ (by decide)) he

theorem count_charOf_cons {n : Nat} (hn : n < 64) (cs : List Char) :
    (charOf alphabet n :: cs).count '=' = cs.count '=' := by
  obtain ⟨hlt, hc⟩ := h.charOf_eq_getElem hn
  refine List.count_cons_of_ne fun he => h.filler ?_
  rw [← he, hc]
  exact List.getElem_mem hlt

/-- **A text is filled up** by as many characters as its bytes are short of whole threes. -/
theorem count_filler_encode (bytes : List UInt8) :
    (encode alphabet bytes).count '=' = (3 - bytes.length % 3) % 3 := by
  have hmod (n : Nat) : n % 64 < 64 := Nat.mod_lt n (by decide)
  fun_induction encode alphabet bytes with
  | case1 a b c rest n ih =>
    have hn : n / 262144 < 64 := by
      have := a.toNat_lt
      have := b.toNat_lt
      have := c.toNat_lt
      omega
    rw [h.count_charOf_cons hn, h.count_charOf_cons (hmod _), h.count_charOf_cons (hmod _),
      h.count_charOf_cons (hmod _), ih]
    simp only [List.length_cons]
    omega
  | case2 a b n =>
    have hn : n / 4096 < 64 := by
      have := a.toNat_lt
      have := b.toNat_lt
      omega
    rw [h.count_charOf_cons hn, h.count_charOf_cons (hmod _), h.count_charOf_cons (hmod _)]
    rfl
  | case3 a n =>
    have hn : n / 64 < 64 := by
      have := a.toNat_lt
      omega
    rw [h.count_charOf_cons hn, h.count_charOf_cons (hmod _)]
    rfl
  | case4 => rfl

/-- The number of bytes is read off the length of their text and the characters that fill it up. -/
theorem length_eq_of_encode_eq {xs ys : List UInt8}
    (he : encode alphabet xs = encode alphabet ys) : xs.length = ys.length := by
  have hlength := congrArg List.length he
  have hcount := congrArg (List.count '=') he
  rw [length_encode, length_encode] at hlength
  rw [h.count_filler_encode, h.count_filler_encode] at hcount
  omega

/-- The six bits of the characters give equally many bytes back. -/
theorem eq_of_encode_eq : ∀ {xs ys : List UInt8}, xs.length = ys.length →
    encode alphabet xs = encode alphabet ys → xs = ys
  | [], [], _, _ => rfl
  | [a], [a'], _, he => by
    have ha := a.toNat_lt
    have ha' := a'.toNat_lt
    simp only [encode, List.cons.injEq] at he
    have h₁ := h.eq_of_charOf_eq (by omega) (by omega) he.1
    have h₂ := h.mod_eq_of_charOf_eq he.2.1
    obtain rfl : a = a' := UInt8.toNat_inj.mp (by omega)
    rfl
  | [a, b], [a', b'], _, he => by
    have ha := a.toNat_lt
    have hb := b.toNat_lt
    have ha' := a'.toNat_lt
    have hb' := b'.toNat_lt
    simp only [encode, List.cons.injEq] at he
    have h₁ := h.eq_of_charOf_eq (by omega) (by omega) he.1
    have h₂ := h.mod_eq_of_charOf_eq he.2.1
    have h₃ := h.mod_eq_of_charOf_eq he.2.2.1
    obtain rfl : a = a' := UInt8.toNat_inj.mp (by omega)
    obtain rfl : b = b' := UInt8.toNat_inj.mp (by omega)
    rfl
  | a :: b :: c :: xs, a' :: b' :: c' :: ys, hlength, he => by
    have ha := a.toNat_lt
    have hb := b.toNat_lt
    have hc := c.toNat_lt
    have ha' := a'.toNat_lt
    have hb' := b'.toNat_lt
    have hc' := c'.toNat_lt
    simp only [encode, List.cons.injEq] at he
    have h₁ := h.eq_of_charOf_eq (by omega) (by omega) he.1
    have h₂ := h.mod_eq_of_charOf_eq he.2.1
    have h₃ := h.mod_eq_of_charOf_eq he.2.2.1
    have h₄ := h.mod_eq_of_charOf_eq he.2.2.2.1
    obtain rfl : a = a' := UInt8.toNat_inj.mp (by omega)
    obtain rfl : b = b' := UInt8.toNat_inj.mp (by omega)
    obtain rfl : c = c' := UInt8.toNat_inj.mp (by omega)
    rw [eq_of_encode_eq (Nat.add_right_cancel (m := 3) hlength) he.2.2.2.2]

/-- **Bytes are determined by their text.** -/
theorem encode_injective : Function.Injective (encode alphabet) := fun _ _ he =>
  h.eq_of_encode_eq (h.length_eq_of_encode_eq he) he

end IsAlphabet

end Base64

namespace Asset

open Text

variable {name f g s t : String} {content a b : List UInt8}

/-! ## Hashed names -/

theorem point_not_mem_token : '.' ∉ (token content).toList := by
  intro h
  rw [token, String.toList_ofList] at h
  rcases Base64.mem_encode h with h | h
  · exact absurd h (by decide)
  · cases h

theorem length_token : (token content).length = 8 := by
  rw [token, String.length_ofList, Base64.length_encode, List.length_take, Md5.length_digest]
  rfl

theorem splitExtension_append {before after : String} (hb : before ≠ "")
    (ha : '.' ∉ after.toList) :
    splitExtension (before ++ "." ++ after) = some (before, after) := by
  have hcs : (before ++ "." ++ after).toList = before.toList ++ '.' :: after.toList := by
    simp only [String.toList_append, List.append_assoc]
    rfl
  have hne : before.toList ≠ [] := by rwa [Ne, String.toList_eq_nil_iff]
  rw [splitExtension, hcs, Path.splitLastPoint_append ha]
  split
  · rename_i h
    exact absurd (Prod.mk.inj (Option.some.inj h)).1 hne
  · rename_i h
    cases h
    rw [String.ofList_toList, String.ofList_toList]
  · rename_i h
    cases h

/-- A file name without a point, or with one at its start only, has no extension. -/
theorem splitExtension_eq_none {name : String}
    (h : '.' ∉ name.toList ∨ ∃ after, name.toList = '.' :: after ∧ '.' ∉ after) :
    splitExtension name = none := by
  rw [splitExtension]
  rcases h with h | ⟨after, hname, h⟩
  · rw [Path.splitLastPoint_eq_none h]
  · rw [hname, ← List.nil_append ('.' :: after), Path.splitLastPoint_append h]

/-- A file name has no extension, or it is cut before the point of its extension. -/
theorem splitExtension_cases (name : String) :
    ('.' ∉ name.toList ∨ ∃ after, name.toList = '.' :: after ∧ '.' ∉ after) ∨
      ∃ before after : String, before ≠ "" ∧ '.' ∉ after.toList ∧
        name = before ++ "." ++ after := by
  rcases Path.point_cases name.toList with h | ⟨before, after, hname, h⟩
  · exact .inl (.inl h)
  · cases before with
    | nil => exact .inl (.inr ⟨after, hname, h⟩)
    | cons c cs =>
      refine .inr ⟨String.ofList (c :: cs), String.ofList after, ?_, ?_, ?_⟩
      · rw [Ne, ← String.toList_eq_nil_iff, String.toList_ofList]
        exact List.cons_ne_nil _ _
      · rwa [String.toList_ofList]
      · rw [← String.toList_inj, hname]
        simp only [String.toList_append, String.toList_ofList, List.append_assoc]
        rfl

/-- What a file name is cut into makes it up again. -/
theorem eq_append_of_splitExtension {before after : String}
    (h : splitExtension name = some (before, after)) : name = before ++ "." ++ after := by
  rcases splitExtension_cases name with hnone | ⟨before', after', hb, ha, rfl⟩
  · rw [splitExtension_eq_none hnone] at h
    cases h
  · rw [splitExtension_append hb ha] at h
    cases h
    rfl

/-- **A hashed name is cut where the file name is**: the token of the content goes before the point
of the extension, and makes no extension where there is none. -/
theorem splitExtension_hashedName (name : String) (content : List UInt8) :
    splitExtension (hashedName name content) =
      (splitExtension name).map fun cut => (cut.1 ++ "-" ++ token content, cut.2) := by
  rcases splitExtension_cases name with h | ⟨before, after, hb, ha, rfl⟩
  · have hend : '.' ∉ ("-" ++ token content).toList := by
      rw [String.toList_append, List.mem_append, not_or]
      exact ⟨by decide, point_not_mem_token⟩
    have hnone : splitExtension (name ++ "-" ++ token content) = none := by
      refine splitExtension_eq_none ?_
      rw [String.append_assoc, String.toList_append]
      rcases h with h | ⟨after, hname, h⟩
      · refine .inl ?_
        rw [List.mem_append, not_or]
        exact ⟨h, hend⟩
      · refine .inr ⟨after ++ ("-" ++ token content).toList, by rw [hname, List.cons_append], ?_⟩
        rw [List.mem_append, not_or]
        exact ⟨h, hend⟩
    rw [hashedName, splitExtension_eq_none h]
    exact hnone
  · have hstem : before ++ "-" ++ token content ≠ "" := by
      intro he
      have := congrArg String.length he
      rw [String.length_append, length_token] at this
      exact absurd this (by simp)
    rw [hashedName, splitExtension_append hb ha]
    exact splitExtension_append hstem ha

/-- **A hashed name has the extension of the file name.** -/
theorem extension_hashedName (name : String) (content : List UInt8) :
    extension (hashedName name content) = extension name := by
  rw [extension, splitExtension_hashedName, Option.map_map]
  rfl

theorem length_hashedName (name : String) (content : List UInt8) :
    (hashedName name content).length = name.length + 9 := by
  rw [hashedName]
  rcases splitExtension_cases name with h | ⟨before, after, hb, ha, rfl⟩
  · rw [splitExtension_eq_none h]
    simp only [String.length_append, length_token]
    rfl
  · rw [splitExtension_append hb ha]
    simp only [String.length_append, length_token]
    have hdash : "-".length = 1 := rfl
    omega

/-- Tokens are equal exactly if they show the same bytes of the digests. -/
theorem token_inj : token a = token b ↔
    (Md5.digest a).take tokenBytes = (Md5.digest b).take tokenBytes := by
  rw [token, token, String.ofList_inj, Base64.isAlphabet_urlSafe.encode_injective.eq_iff]

/-- A token at the end of a text is told from what stands before it, dashes or not. -/
theorem append_token_inj :
    s ++ "-" ++ token a = t ++ "-" ++ token b ↔ s = t ∧ token a = token b := by
  constructor
  · intro h
    have hlength : (token a).toList.length = (token b).toList.length := by
      rw [String.length_toList, String.length_toList, length_token, length_token]
    simp only [← String.toList_inj, String.toList_append] at h
    obtain ⟨hs, ht⟩ := List.append_inj' h hlength
    exact ⟨String.toList_inj.mp (List.append_cancel_right hs), String.toList_inj.mp ht⟩
  · rintro ⟨rfl, h⟩
    rw [h]

/-- **Hashed names are equal** exactly for one file name and digests with equal first bytes. -/
theorem hashedName_inj : hashedName f a = hashedName g b ↔
    f = g ∧ (Md5.digest a).take 6 = (Md5.digest b).take 6 := by
  constructor
  · intro h
    -- Both are cut alike, so that a name with an extension never meets one without.
    have hcut := congrArg splitExtension h
    rw [splitExtension_hashedName, splitExtension_hashedName] at hcut
    cases hf : splitExtension f with
    | none =>
      cases hg : splitExtension g with
      | none =>
        rw [hashedName, hf, hashedName, hg] at h
        obtain ⟨hname, ht⟩ := append_token_inj.mp h
        exact ⟨hname, token_inj.mp ht⟩
      | some cut' =>
        rw [hf, hg, Option.map_none, Option.map_some] at hcut
        cases hcut
    | some cut =>
      cases hg : splitExtension g with
      | none =>
        rw [hf, hg, Option.map_none, Option.map_some] at hcut
        cases hcut
      | some cut' =>
        rw [hf, hg, Option.map_some, Option.map_some, Option.some_inj, Prod.mk.injEq] at hcut
        obtain ⟨hstem, ht⟩ := append_token_inj.mp hcut.1
        rw [eq_append_of_splitExtension hf, eq_append_of_splitExtension hg, hstem, hcut.2]
        exact ⟨rfl, token_inj.mp ht⟩
  · rintro ⟨rfl, h⟩
    rw [hashedName, hashedName, token_inj.mpr h]

/-! ## Identifiers -/

/-- The identifier of a text, before it is told from the reserved words. -/
def plainName (path : String) : List Char :=
  let cs := path.toList.map fun c => if isAsciiWord c then c else '_'
  if cs.head?.all isDigit then '_' :: cs else cs

theorem logicalName_eq (path : String) :
    logicalName path = if isReserved (String.ofList (plainName path)) then
      String.ofList (plainName path) ++ "_" else String.ofList (plainName path) := rfl

theorem length_plainName (path : String) :
    path.length ≤ (plainName path).length ∧ (plainName path).length ≤ path.length + 1 := by
  rw [plainName]
  split
  · rw [List.length_cons, List.length_map, String.length_toList]
    omega
  · rw [List.length_map, String.length_toList]
    omega

/-- An identifier is at most two characters longer than its text. -/
theorem length_logicalName (path : String) :
    path.length ≤ (logicalName path).length ∧ (logicalName path).length ≤ path.length + 2 := by
  have h := length_plainName path
  have hone : "_".length = 1 := rfl
  rw [logicalName_eq]
  split
  · rw [String.length_append, String.length_ofList]
    omega
  · rw [String.length_ofList]
    omega

/-- **The identifier of a hashed name is not that of the file name.** -/
theorem logicalName_hashedName_ne (name : String) (content : List UInt8) :
    logicalName (hashedName name content) ≠ logicalName name := by
  intro h
  have hlower := (length_logicalName (hashedName name content)).1
  have hupper := (length_logicalName name).2
  rw [h, length_hashedName] at hlower
  omega

end Asset

end Stencil
