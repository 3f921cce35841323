import Stencil.Proofs.AllOrNothing
import Stencil.Proofs.Decoding
import Stencil.Proofs.ImportLines

/-!
# Where errors of a template file point

An error shows the name of a file, a line, a column and a count of bytes. The bytes are those before
that line and column in the text that the step has worked on: a byte order mark is dropped before a
text is parsed, and a step that generates code knows a template by its logical name.

* `textBefore`, `bytesBefore`: what stands before a line and a column in a text, and in a file.
* `Source.textBefore_locate`: a position is known by its line and column.
* `TemplateName.logical_eq_iff`: when the logical name of a template is the path of its file.
* **`Build.errors_placed`**: where an error of a template file points.
* `Build.exists_process`: an error of a build that has a place is that of a template file.
* `Build.markedFile_misplaced`: an error may point to another file, and count too few bytes.
-/

namespace Stencil

/-- A list goes on after its first elements of a kind, unless all are of that kind. -/
theorem exists_takeWhile_append {α : Type} {p : α → Bool} {l : List α}
    (h : (l.takeWhile p).length ≠ l.length) :
    ∃ a r, l.takeWhile p ++ a :: r = l ∧ p a = false := by
  have hmore : l.dropWhile p ≠ [] := fun hnil => h <| by
    conv_rhs => rw [← List.takeWhile_append_dropWhile (p := p) (l := l), hnil, List.append_nil]
  refine ⟨(l.dropWhile p).head hmore, (l.dropWhile p).tail, ?_, List.head_dropWhile_not p hmore⟩
  rw [List.cons_head_tail, List.takeWhile_append_dropWhile]

/-! ## Lines and columns -/

/-- **The part of a text before a line and a column.** -/
def textBefore (line column : Nat) : List Char → List Char
  | [] => []
  | c :: cs =>
    if line ≤ 1 then (c :: cs).take (column - 1)
    else c :: textBefore (if c = '\n' then line - 1 else line) column cs

theorem textBefore_of_le {line : Nat} (h : line ≤ 1) (column : Nat) (cs : List Char) :
    textBefore line column cs = cs.take (column - 1) := by
  cases cs with
  | nil => rw [textBefore, List.take_nil]
  | cons c cs => rw [textBefore, if_pos h]

theorem textBefore_of_lt {line : Nat} (h : 1 < line) (column : Nat) (c : Char) (cs : List Char) :
    textBefore line column (c :: cs) =
      c :: textBefore (if c = '\n' then line - 1 else line) column cs := by
  rw [textBefore, if_neg (Nat.not_le.mpr h)]

namespace Source

variable {line column l k n : Nat} {cs : List Char}

/-- Going on leads to no earlier line, and to no earlier column of the same line. -/
theorem le_advance (hcolumn : 1 ≤ column) (h : advance line column n cs = (l, k)) :
    line ≤ l ∧ 1 ≤ k ∧ (l = line → column ≤ k) := by
  induction n generalizing line column cs with
  | zero =>
    cases h
    exact ⟨le_rfl, hcolumn, fun _ => le_rfl⟩
  | succ n ih =>
    cases cs with
    | nil =>
      cases h
      exact ⟨le_rfl, hcolumn, fun _ => le_rfl⟩
    | cons c cs =>
      rw [advance] at h
      split at h
      · obtain ⟨hline, hfirst, -⟩ := ih le_rfl h
        exact ⟨by omega, hfirst, by omega⟩
      · obtain ⟨hline, hfirst, hnext⟩ := ih (by omega) h
        exact ⟨hline, hfirst, by omega⟩

/-- **What is before the place that is reached** is what was gone through. -/
theorem textBefore_advance (hcolumn : 1 ≤ column) (h : advance line column n cs = (l, k)) :
    textBefore (l - line + 1) (if l = line then k - column + 1 else k) cs = cs.take n := by
  induction n generalizing line column cs with
  | zero =>
    cases h
    rw [if_pos rfl, Nat.sub_self, Nat.sub_self, textBefore_of_le le_rfl]
  | succ n ih =>
    cases cs with
    | nil => rfl
    | cons c cs =>
      rw [advance] at h
      rw [List.take_succ_cons]
      split at h
      · rename_i hc
        obtain ⟨hline, hfirst, -⟩ := le_advance le_rfl h
        rw [textBefore_of_lt (by omega), if_pos hc, if_neg (by omega), ← ih le_rfl h]
        congr 2
        · omega
        · split <;> omega
      · rename_i hc
        obtain ⟨hline, hfirst, hnext⟩ := le_advance (by omega) h
        have hrest := ih (by omega) h
        by_cases hsame : l = line
        · have hlater := hnext hsame
          rw [if_pos hsame, hsame, Nat.sub_self, textBefore_of_le le_rfl] at hrest ⊢
          obtain ⟨m, hm⟩ : ∃ m, k - column + 1 - 1 = m + 1 := ⟨k - column - 1, by omega⟩
          rw [← hrest, hm, List.take_succ_cons, show k - (column + 1) + 1 - 1 = m by omega]
        · rw [if_neg hsame] at hrest ⊢
          rw [textBefore_of_lt (by omega), if_neg hc, hrest]

/-- **A position is known by its line and column.** -/
theorem textBefore_locate (s : Source) (position : Nat) :
    1 ≤ (s.locate position).1 ∧ 1 ≤ (s.locate position).2 ∧
      textBefore (s.locate position).1 (s.locate position).2 s.text = s.text.take position := by
  rcases h : s.locate position with ⟨l, k⟩
  obtain ⟨hline, hfirst, hnext⟩ := le_advance le_rfl h
  refine ⟨hline, hfirst, ?_⟩
  rw [← textBefore_advance le_rfl h]
  congr 1
  · omega
  · split <;> omega

/-- **The bytes before a position** are those of the text before it. -/
theorem byteOffset_eq (s : Source) (position : Nat) :
    s.byteOffset position = (Utf8.encode (s.text.take position)).length := by
  rw [byteOffset]
  induction s.text.take position with
  | nil => rfl
  | cons c cs ih =>
    rw [List.foldr_cons, ih, ← Utf8.length_encodeChar, ← List.length_append]
    rfl

/-- **A place counts the bytes before its line and column.** -/
theorem offset_place (s : Source) (position : Nat) :
    1 ≤ (s.place position).line ∧ 1 ≤ (s.place position).column ∧
      (s.place position).offset = (Utf8.encode
        (textBefore (s.place position).line (s.place position).column s.text)).length := by
  obtain ⟨hline, hcolumn, hbefore⟩ := s.textBefore_locate position
  refine ⟨hline, hcolumn, ?_⟩
  change s.byteOffset position =
    (Utf8.encode (textBefore (s.locate position).1 (s.locate position).2 s.text)).length
  rw [hbefore, byteOffset_eq]

end Source

/-! ## Files -/

/-- **The number of bytes of a file before a line and a column**, as far as it is well formed. A
byte order mark is a character like others. -/
def bytesBefore (bytes : List UInt8) (line column : Nat) : Nat :=
  (Utf8.encode (textBefore line column (Utf8.decodeLongest bytes).1)).length

/-- **What is dropped from a file before its text is parsed**: the byte order mark at its start. -/
def droppedMark (bytes : List UInt8) : List Char :=
  match Utf8.decodeLongest bytes with
  | (cs, []) => if cs.head? = some '\ufeff' then ['\ufeff'] else []
  | _ => []

/-- **Where a place of a text stands in its file.** What was dropped before stands in the first line
and counts as bytes. -/
structure IsPlaced (bytes : List UInt8) (file : String) (place : Place) : Prop where
  file : place.file = file
  offset : place.offset + (Utf8.encode (droppedMark bytes)).length =
    bytesBefore bytes place.line
      (if place.line = 1 then place.column + (droppedMark bytes).length else place.column)

section Decoding

variable {bytes : List UInt8} {display file : String} {text : List Char} {e : Error}

theorem decodeSource_ok (h : decodeSource bytes display = .ok text) :
    (Utf8.decodeLongest bytes).1 = droppedMark bytes ++ text := by
  unfold decodeSource at h
  unfold droppedMark
  split at h
  · rename_i cs hcs
    cases h
    rw [hcs]
    dsimp only
    split
    · rename_i hmark
      obtain ⟨cs, rfl⟩ := List.head?_eq_some_iff.mp hmark
      rfl
    · rfl
  · cases h

/-- **A byte that is not well formed** is reported where the text before it ends; nothing is dropped
before that. -/
theorem decodeSource_error (h : decodeSource bytes display = .error e) :
    ∃ place, e = .parse .badEncoding place ∧ IsPlaced bytes display place := by
  unfold decodeSource at h
  split at h
  · cases h
  rename_i cs left hleft hcs
  cases h
  refine ⟨_, rfl, rfl, ?_⟩
  have hdropped : droppedMark bytes = [] := by
    unfold droppedMark
    split
    · rename_i hall
      exact absurd (congrArg Prod.snd (hcs.symm.trans hall)) hleft
    · rfl
  have hoffset : bytes.length - left.length = (Utf8.encode cs).length := by
    have hbytes := congrArg List.length (Utf8.encode_decodeLongest bytes)
    rw [List.length_append, hcs] at hbytes
    dsimp only at hbytes
    omega
  obtain ⟨-, -, hbefore⟩ := Source.textBefore_locate ⟨cs, display⟩ cs.length
  rw [List.take_length] at hbefore
  simp only [hdropped, bytesBefore, hcs, List.length_nil, Nat.add_zero, ite_self]
  exact hoffset.trans (congrArg (fun l => (Utf8.encode l).length) hbefore.symm)

/-- A mark before a text is one more column of its first line. -/
theorem textBefore_cons {line column : Nat} {c : Char} (hline : 1 ≤ line) (hcolumn : 1 ≤ column)
    (hc : c ≠ '\n') (cs : List Char) :
    textBefore line (if line = 1 then column + 1 else column) (c :: cs) =
      c :: textBefore line column cs := by
  by_cases h : line = 1
  · obtain ⟨k, rfl⟩ := Nat.exists_eq_add_of_le hcolumn
    rw [if_pos h, textBefore_of_le h.le, textBefore_of_le h.le, Nat.add_sub_cancel,
      Nat.add_comm 1 k, List.take_succ_cons, Nat.add_sub_cancel]
  · rw [if_neg h, textBefore_of_lt (by omega), if_neg hc]

/-- **A place of the text of a file**, which may stand under any name. -/
theorem isPlaced_place (h : (Utf8.decodeLongest bytes).1 = droppedMark bytes ++ text)
    (file : String) (position : Nat) :
    IsPlaced bytes file (Source.place ⟨text, file⟩ position) := by
  refine ⟨rfl, ?_⟩
  obtain ⟨hline, hcolumn, hoffset⟩ := Source.offset_place ⟨text, file⟩ position
  rw [hoffset, bytesBefore, h]
  have hmark : droppedMark bytes = [] ∨ droppedMark bytes = ['\ufeff'] := by
    unfold droppedMark
    split
    · split
      · exact .inr rfl
      · exact .inl rfl
    · exact .inl rfl
  rcases hmark with hmark | hmark
  · simp only [hmark, List.length_nil, Nat.add_zero, ite_self, List.nil_append]
    rfl
  · rw [hmark, List.singleton_append, List.length_singleton,
      textBefore_cons hline hcolumn (by decide), Nat.add_comm, ← List.length_append]
    rfl

end Decoding

/-! ## Names of files -/

/-- **A file name ends in its suffix**, which starts with a point. -/
theorem Path.suffixOf_cases (name : String) :
    suffixOf name = "" ∨
      ∃ l r, name.toList = l ++ '.' :: r ∧ suffixOf name = String.ofList ('.' :: r) := by
  unfold suffixOf
  split
  · rename_i before after hsplit
    split
    · exact .inl rfl
    · unfold splitLastPoint at hsplit
      dsimp only at hsplit
      split at hsplit
      · cases hsplit
      · rename_i hlength
        cases hsplit
        -- read from its end, the name goes on with a point
        obtain ⟨a, r, hname, ha⟩ := exists_takeWhile_append (p := (· ≠ '.')) fun he => hlength <| by
          rw [List.length_reverse, he, List.length_reverse, String.length_toList]
        obtain rfl : a = '.' := by simpa using ha
        refine .inr ⟨r.reverse, _, ?_, rfl⟩
        have hreverse := congrArg List.reverse hname.symm
        rwa [List.reverse_reverse, List.reverse_append, List.reverse_cons, List.append_assoc,
          List.singleton_append] at hreverse
  · exact .inl rfl

namespace TemplateName

/-- A dash is replaced by an underscore. -/
def undash (c : Char) : Char := if c = '-' then '_' else c

theorem map_undash_eq_iff {cs : List Char} : cs.map undash = cs ↔ '-' ∉ cs := by
  induction cs with
  | nil => simp
  | cons c cs ih =>
    rw [List.map_cons, List.cons.injEq, ih, List.mem_cons, not_or]
    refine and_congr_left fun _ => ?_
    unfold undash
    split
    · rename_i hc
      rw [hc]
      decide
    · rename_i hc
      exact iff_of_true rfl (Ne.symm hc)

theorem toList_underscored (s : String) : (underscored s).toList = s.toList.map undash :=
  String.toList_ofList

theorem map_intercalate (sep : List Char) (ls : List (List Char)) :
    (sep.intercalate ls).map undash = (sep.map undash).intercalate (ls.map (List.map undash)) := by
  induction ls with
  | nil => rfl
  | cons l ls ih =>
    cases ls with
    | nil => simp
    | cons m ls => simpa [List.intercalate_cons_cons] using ih

/-- The file name that the stem and the format of a template make up. -/
theorem toList_stem_format {file : String}
    (h : String.ofList ((Path.suffixOf file).toList.drop 1) ∈ formats) :
    (underscored (String.ofList (file.toList.take (if Path.suffixOf file = "" then 0
        else file.length - (Path.suffixOf file).length))) ++ "." ++
      String.ofList ((Path.suffixOf file).toList.drop 1)).toList = file.toList.map undash := by
  rcases Path.suffixOf_cases file with hsuffix | ⟨l, r, hfile, hsuffix⟩
  · rw [hsuffix] at h
    exact absurd h (by decide)
  · rw [hsuffix, String.toList_ofList, List.drop_one, List.tail_cons] at h
    have hne : String.ofList ('.' :: r) ≠ "" := fun he => by
      have := congrArg String.toList he
      rw [String.toList_ofList] at this
      cases this
    have hlength : file.length - (String.ofList ('.' :: r)).length = l.length := by
      rw [← String.length_toList, hfile, String.length_ofList, List.length_append,
        Nat.add_sub_cancel]
    have hdash : '-' ∉ r := by
      have hall : ∀ f ∈ formats, '-' ∉ f.toList := by decide
      have := hall _ h
      rwa [String.toList_ofList] at this
    rw [hsuffix, if_neg hne, hlength, hfile, List.take_left]
    simp only [String.toList_append, toList_underscored, String.toList_ofList, List.map_append,
      List.map_cons, map_undash_eq_iff.mpr hdash, List.append_assoc]
    rfl

/-- **The logical name of a template is the path of its file** exactly if there is no dash in it. -/
theorem logical_eq_iff {rel : Path} {name : TemplateName} {display : String}
    (h : ofPath rel display = .ok name) (hadmitted : name.Admitted) (hrel : rel.root = "") :
    name.logical = rel.toString ↔ '-' ∉ rel.toString.toList := by
  have hlogical : name.logical.toList = rel.toString.toList.map undash := by
    unfold ofPath at h
    dsimp only at h
    split at h
    · cases h
    cases h
    obtain ⟨root, parts⟩ := rel
    obtain rfl : root = "" := hrel
    rcases List.eq_nil_or_concat parts with rfl | ⟨dirs, file, rfl⟩
    · exact absurd hadmitted.format (by decide)
    have hname : (⟨"", dirs.concat file⟩ : Path).name = file := by simp [Path.name]
    have hdirs : (⟨"", dirs.concat file⟩ : Path).parent.components = dirs := by
      simp [Path.parent, Path.components, Path.isAbsolute]
    have htext : (⟨"", dirs.concat file⟩ : Path).toString = "/".intercalate (dirs ++ [file]) := by
      simp [Path.toString]
    have hformat := hadmitted.format
    rw [Path.suffix, hname] at hformat
    have hfile := toList_stem_format hformat
    rw [logical, Path.suffix, hname, hdirs, htext]
    simp only [String.toList_intercalate, map_intercalate, List.map_append, List.map_singleton,
      List.map_map, Function.comp_def, toList_underscored, hfile]
    rfl
  rw [← String.toList_inj, hlogical, map_undash_eq_iff]

end TemplateName

theorem Source.exists_place {α : Type} {s : Source} {r : Except Failure α} {problem : Problem}
    {place : Place} (h : s.lift r = .error (.parse problem place)) :
    ∃ position, place = s.place position := by
  cases r with
  | ok a => cases h
  | error f =>
    cases f with
    | «at» problem position =>
      cases h
      exact ⟨position, rfl⟩
    | unreadableNumber => cases h
    | outOfSteps => cases h

namespace Build

/-- **The processing of a template file in a build**: it is read, then its code is generated. -/
def process (d : Disk) (root path : Path) (context : Context) : Except Error String := do
  let t ← readTemplate d root path
  t.render context

section Process

variable {d : Disk} {root path rel : Path} {name : TemplateName} {bytes : List UInt8}

theorem readTemplate_eq (hrel : path.relativeTo? root = some rel)
    (hname : TemplateName.ofPath rel rel.toString = .ok name) (hread : d.read path = .ok bytes) :
    readTemplate d root path =
      decodeSource bytes rel.toString >>= Template.parse name path rel.toString := by
  rw [readTemplate, hrel]
  dsimp only
  rw [hname, hread]
  rfl

/-- **Where an error of a template file points.** For every file that is a template, whatever it
holds, and every context: an error of decoding or parsing names the file by its path below the
template directory, and an error of generating by the logical name of the template, which is that
path exactly if there is no dash in it. The offset counts the bytes of the file before the line and
the column, but for a byte order mark, which is dropped from a well-formed file and stands in no
column. -/
theorem errors_placed {context : Context} {problem : Problem} {place : Place}
    (hfile : isTemplateFile path) (hrel : path.relativeTo? root = some rel)
    (hname : TemplateName.ofPath rel rel.toString = .ok name) (hread : d.read path = .ok bytes)
    (h : process d root path context = .error (.parse problem place)) :
    IsPlaced bytes (if (readTemplate d root path).toBool then name.logical else rel.toString)
        place ∧
      (name.logical = rel.toString ↔ '-' ∉ rel.toString.toList) ∧
      (droppedMark bytes = [] → place.offset = bytesBefore bytes place.line place.column) := by
  have hplaced : IsPlaced bytes
      (if (readTemplate d root path).toBool then name.logical else rel.toString) place := by
    rw [process, Except.bind_error] at h
    rw [readTemplate_eq hrel hname hread] at h ⊢
    cases htext : decodeSource bytes rel.toString with
    | error e =>
      rw [htext] at h
      rcases h with h | ⟨t, ht, -⟩
      · obtain ⟨place', he, hplaced⟩ := decodeSource_error htext
        cases h.symm.trans (congrArg Except.error he)
        exact hplaced
      · cases ht
    | ok text =>
      have hdecoded := decodeSource_ok htext
      rw [htext, Except.ok_bind] at h
      rw [Except.ok_bind]
      rcases h with h | ⟨t, ht, h⟩
      · have houtline : Source.lift ⟨text, rel.toString⟩ (Outline.parse text) =
            .error (.parse problem place) := by
          rw [Template.parse, Except.bind_error] at h
          rcases h with h | ⟨_, -, h⟩
          · exact h
          · cases h
        obtain ⟨position, rfl⟩ := Source.exists_place houtline
        rw [h]
        exact isPlaced_place hdecoded _ position
      · obtain ⟨outline, -, hok⟩ := Except.bind_ok.mp ht
        cases hok
        rw [ht]
        obtain ⟨position, rfl⟩ := Source.exists_place h
        exact isPlaced_place hdecoded _ position
  refine ⟨hplaced, ?_, fun hmark => ?_⟩
  · refine TemplateName.logical_eq_iff hname (admitted_of_relativeTo? hfile hrel hname) ?_
    unfold Path.relativeTo? at hrel
    split at hrel
    · cases hrel
      rfl
    · cases hrel
  · have hoffset := hplaced.offset
    rw [hmark, List.length_nil, Nat.add_zero, ite_self] at hoffset
    exact hoffset

end Process

section Reported

variable {α : Type} {problem : Problem} {place : Place} {s s' : State}

/-- What is reported of tasks is the error of one of them. -/
theorem exists_of_gather_error {outcomes : List (Outcome α)} {e : Error}
    (h : (gather outcomes).2 = .error e) : ∃ o ∈ outcomes, o.result = .error e := by
  unfold gather at h
  split at h
  · rename_i f hfault
    obtain ⟨o, ho, hf⟩ := List.exists_of_findSome?_eq_some hfault
    cases h
    refine ⟨o, ho, ?_⟩
    unfold Outcome.fault? at hf
    split at hf
    · rename_i hresult
      rw [hresult, Option.some.inj hf]
    · cases hf
  · split at h
    · cases h
    · rename_i first others hfailures
      cases h
      have hfirst : first ∈ outcomes.filterMap Outcome.failure? := by
        rw [← mem_sortBy fun a b => textLe a.1 b.1, ← failures, hfailures]
        exact List.mem_cons_self
      obtain ⟨o, ho, hf⟩ := List.mem_filterMap.mp hfirst
      refine ⟨o, ho, ?_⟩
      unfold Outcome.failure? at hf
      split at hf
      · rename_i hresult
        rw [hresult, ← Option.some.inj hf]
      · cases hf

theorem exists_of_readTemplates_error {excluded : String → Bool} {root : Path}
    (h : Runs (readTemplates excluded root) s (.error (.parse problem place)) s') :
    ∃ path, isTemplateFile path ∧
      readTemplate s.disk root path = .error (.parse problem place) := by
  rw [readTemplates, runs_get_bind, runs_ofExcept_bind] at h
  rcases h with ⟨paths, -, h⟩ | ⟨e, hpaths, he, -⟩
  · rcases runs_bind.mp h with ⟨ts, m, -, h⟩ | ⟨e, htogether, he⟩
    · rcases runs_ofExcept_bind.mp h with ⟨_, -, h⟩ | ⟨e, hunique, he, -⟩
      · cases (runs_pure.mp h).1
      · cases he
        unfold checkUnique at hunique
        split at hunique <;> cases hunique
    · cases he
      obtain ⟨o, ho, hresult⟩ := exists_of_gather_error (runs_together.mp htogether).1.symm
      obtain ⟨path, hpath, rfl⟩ := List.mem_map.mp ho
      exact ⟨path, (List.mem_filter.mp hpath).2, hresult⟩
  · cases he
    unfold Disk.files Disk.places at hpaths
    split at hpaths <;> cases hpaths

/-- Names that are taken twice stand at no place. -/
theorem files_ne_error {package : String} {modules : List (Template × String)}
    {statics : Option (String × List Path)} :
    Package.files package modules statics ≠ .error (.parse problem place) := by
  intro h
  unfold Package.files at h
  rcases Except.bind_error.mp h with h | ⟨_, -, h⟩
  · obtain ⟨dir, -, h⟩ := Except.exists_of_mapM_error h
    rcases Except.bind_error.mp h with h | ⟨_, -, h⟩
    · unfold Package.indexText at h
      split at h <;> cases h
    · cases h
  · cases h

theorem exists_of_generate_error {plan : Plan} {ts : List Template}
    (h : Runs (generate plan ts) s (.error (.parse problem place)) s') :
    ∃ t ∈ ts, t.render (Package.contextOf ts plan.index?) = .error (.parse problem place) := by
  rw [generate, runs_ofExcept_bind] at h
  rcases h with ⟨statics, -, h⟩ | ⟨e, hstatics, he, -⟩
  · rcases runs_bind.mp h with ⟨texts, m, -, h⟩ | ⟨e, htogether, he⟩
    · exact absurd (runs_ofExcept.mp h).1.symm files_ne_error
    · cases he
      obtain ⟨o, ho, hresult⟩ := exists_of_gather_error (runs_together.mp htogether).1.symm
      obtain ⟨t, ht, rfl⟩ := List.mem_map.mp ho
      exact ⟨t, ht, hresult⟩
  · cases he
    cases hindex : plan.index? with
    | none =>
      rw [hindex] at hstatics
      cases hstatics
    | some ix =>
      rw [hindex, Option.mapM_some, map_eq_pure_bind, Except.bind_error] at hstatics
      rcases hstatics with h | ⟨_, -, h⟩
      · rcases Except.bind_error.mp h with h | ⟨_, -, h⟩
        · unfold Index.moduleText at h
          dsimp only at h
          split at h <;> cases h
        · cases h
      · cases h

/-- **An error at a place is that of a template file**: a build that reports it has processed that
file. -/
theorem exists_process {plan : Plan} {templates : Path} {write : Bool}
    (h : Runs (run plan templates write) s (.error (.parse problem place)) s') :
    ∃ path context, isTemplateFile path ∧
      process s.disk templates path context = .error (.parse problem place) := by
  rw [run] at h
  rcases runs_bind.mp h with ⟨ts, m, hread, h₁⟩ | ⟨e, hread, he⟩
  · rcases runs_bind.mp h₁ with ⟨files, m', hgenerate, h₂⟩ | ⟨e, hgenerate, he⟩
    · obtain ⟨hfiles, rfl⟩ := generate_ok.mp hgenerate
      cases write with
      | false => cases (runs_pure.mp h₂).1
      | true =>
        rcases runs_bind.mp h₂ with ⟨units, k, -, h₃⟩ | ⟨e, hwrite, he⟩
        · rw [runs_logLines_bind] at h₃
          cases (runs_pure.mp h₃).1
        · cases he
          rcases writeFiles_cases hfiles ((readTemplates_cases hread).2 ts rfl) hwrite with
            ⟨_, _, hok, -⟩ | ⟨_, _, _, _, -, he, herror, -⟩
          · cases hok
          · cases he
            rcases herror with he | he | he <;> cases he
    · cases he
      obtain ⟨t, ht, hrender⟩ := exists_of_generate_error hgenerate
      obtain ⟨⟨paths, read, -, hreads, -, rfl⟩, -⟩ := readTemplates_ok.mp hread
      obtain ⟨path, hpath, hparse⟩ := exists_left_of_forall₂ hreads ((mem_sortBy _).mp ht)
      exact ⟨path, _, (List.mem_filter.mp hpath).2,
        Except.bind_error.mpr (.inr ⟨t, hparse, hrender⟩)⟩
  · cases he
    obtain ⟨path, hfile, hparse⟩ := exists_of_readTemplates_error hread
    exact ⟨path, .ofNames [] none, hfile, Except.bind_error.mpr (.inl hparse)⟩

end Reported

/-- A template that starts with a byte order mark. One of its patterns binds a name twice, which is
seen when its code is generated. -/
def markedBytes : List UInt8 :=
  Utf8.encodeString "\ufeff@(x: int)\n@match x \x7b(a, a) => \x7by\x7d,\x7d"

/-- A disk with that template in a file with a dash in its name. -/
def markedDisk : Disk :=
  ⟨.dir [("templates", .dir [("my-page.html", .file markedBytes)])], []⟩

/-- The name of that template. -/
def markedName : TemplateName := ⟨[], "my_page", "html"⟩

/-- Where its error points. -/
def markedPlace : Place :=
  ⟨"my_page.html", 2, 1, 10, "   2:@match x \x7b(a, a) => \x7by\x7d,\x7d\n     ^"⟩

theorem process_marked :
    process markedDisk (.parse "/templates") (.parse "/templates/my-page.html")
      (.ofNames [markedName] none) =
        .error (.parse (.invalidCode (.repeatedBinding "a")) markedPlace) := by
  decide +kernel

theorem errors_placed_markedFile :
    isTemplateFile (.parse "/templates/my-page.html") ∧
      (Path.parse "/templates/my-page.html").relativeTo? (.parse "/templates") =
        some (.parse "my-page.html") ∧
      TemplateName.ofPath (.parse "my-page.html") (Path.parse "my-page.html").toString =
        .ok markedName ∧
      markedDisk.read (.parse "/templates/my-page.html") = .ok markedBytes ∧
      process markedDisk (.parse "/templates") (.parse "/templates/my-page.html")
          (.ofNames [markedName] none) =
        .error (.parse (.invalidCode (.repeatedBinding "a")) markedPlace) ∧
      IsPlaced markedBytes "my_page.html" markedPlace ∧
      markedName.logical ≠ (Path.parse "my-page.html").toString := by
  have hfile : isTemplateFile (.parse "/templates/my-page.html") := by decide +kernel
  have hrel : (Path.parse "/templates/my-page.html").relativeTo? (.parse "/templates") =
      some (.parse "my-page.html") := by decide +kernel
  have hname : TemplateName.ofPath (.parse "my-page.html") (Path.parse "my-page.html").toString =
      .ok markedName := by decide +kernel
  have hread : markedDisk.read (.parse "/templates/my-page.html") = .ok markedBytes := by
    decide +kernel
  have hok : (readTemplate markedDisk (.parse "/templates")
      (.parse "/templates/my-page.html")).toBool = true := by decide +kernel
  obtain ⟨hplaced, hlogical, -⟩ := errors_placed hfile hrel hname hread process_marked
  rw [hok, if_pos rfl] at hplaced
  exact ⟨hfile, hrel, hname, hread, process_marked, hplaced,
    fun h => hlogical.mp h (by decide +kernel)⟩

/-- **An error may point to another file, and count too few bytes.** The template of `markedDisk` is
`my-page.html`, and 13 bytes of it stand before its second line. -/
theorem markedFile_misplaced :
    ∃ problem place,
      process markedDisk (.parse "/templates") (.parse "/templates/my-page.html")
          (.ofNames [markedName] none) = .error (.parse problem place) ∧
        (Path.parse "/templates/my-page.html").relativeTo? (.parse "/templates") =
          some (.parse "my-page.html") ∧
        markedDisk.read (.parse "/templates/my-page.html") = .ok markedBytes ∧
        place.file = "my_page.html" ∧ place.file ≠ (Path.parse "my-page.html").toString ∧
        place.offset = 10 ∧ bytesBefore markedBytes place.line place.column = 13 :=
  ⟨_, _, process_marked, by decide +kernel, by decide +kernel, rfl, by decide +kernel, rfl,
    by decide +kernel⟩

end Build

end Stencil
