import Stencil.Package.File
import Stencil.Proofs.Lexemes
import Stencil.Proofs.ModuleFiles

/-!
# Import lines as texts

* `ImportLine.read?`: what an import line of the generated language says.
* **`ImportLine.read?_text`**: a line is read as what it was written for.
* `ModuleImport.toLine`, `IndexImport.toLine`: the import lines of generated modules.
* `ImportLine.target?`: the module that a line leads to, seen from a directory.
-/

namespace Stencil

open Text

section Intercalate

variable {α : Type} {sep : List α}

theorem exists_intercalate_cons (sep l : List α) (ls : List (List α)) :
    ∃ r, sep.intercalate (l :: ls) = l ++ r := by
  cases ls with
  | nil => exact ⟨[], by rw [List.intercalate_singleton, List.append_nil]⟩
  | cons m ls => exact ⟨_, by rw [List.intercalate_cons_cons, List.append_assoc]⟩

theorem mem_intercalate {a : α} {ls : List (List α)} (h : a ∈ sep.intercalate ls) :
    a ∈ sep ∨ ∃ l ∈ ls, a ∈ l := by
  induction ls with
  | nil => cases h
  | cons l ls ih =>
    cases ls with
    | nil =>
      rw [List.intercalate_singleton] at h
      exact .inr ⟨l, List.mem_cons_self, h⟩
    | cons m ls =>
      rw [List.intercalate_cons_cons, List.mem_append, List.mem_append] at h
      rcases h with (h | h) | h
      · exact .inr ⟨l, List.mem_cons_self, h⟩
      · exact .inl h
      · exact (ih h).imp_right fun ⟨k, hk, h⟩ => ⟨k, List.mem_cons_of_mem _ hk, h⟩

end Intercalate

/-- **An import line**: the points before the name of the module, the parts of that name, and the
names that are imported, each with the name it is bound to. -/
structure ImportLine where
  points : Nat
  module : List String
  names : List (String × String)
  deriving DecidableEq, Repr

namespace ImportLine

/-- What follows the start of a text. -/
def after? (start cs : List Char) : Option (List Char) :=
  if start.isPrefixOf cs then some (cs.drop start.length) else none

/-- A name that is imported, as itself or under another name. -/
def readName? (cs : List Char) : Option (String × String) :=
  match (cs.splitOn ' ').filter (· ≠ []) with
  | [n] => some (String.ofList n, String.ofList n)
  | [n, mid, m] => if mid = "as".toList then some (String.ofList n, String.ofList m) else none
  | _ => none

/-- **What an import line says.** -/
def read? (line : String) : Option ImportLine := do
  let cs ← after? "from ".toList line.toList
  let points := cs.takeWhile (· = '.')
  let cs := cs.dropWhile (· = '.')
  let module := cs.takeWhile (· ≠ ' ')
  let cs ← after? " import ".toList (cs.dropWhile (· ≠ ' '))
  let names ← (cs.splitOn ',').mapM readName?
  return ⟨points.length, if module = [] then [] else (module.splitOn '.').map String.ofList, names⟩

/-- A name that is imported, as it is written. -/
def nameText (n : String × String) : String := if n.1 = n.2 then n.1 else n.1 ++ " as " ++ n.2

/-- An import line as it is written. -/
def text (i : ImportLine) : String :=
  "from " ++ String.ofList (List.replicate i.points '.') ++ ".".intercalate i.module ++
    " import " ++ ", ".intercalate (i.names.map nameText)

/-! ## Lines are read as they were written -/

/-- All names of the line are identifiers, and it imports something. -/
structure IsPlain (i : ImportLine) : Prop where
  module : ∀ w ∈ i.module, isIdentifier w
  names : ∀ n ∈ i.names, isIdentifier n.1 ∧ isIdentifier n.2
  ne_nil : i.names ≠ []

theorem after?_append (start cs : List Char) : after? start (start ++ cs) = some cs := by
  rw [after?, if_pos (List.isPrefixOf_iff_prefix.mpr (List.prefix_append _ _)), List.drop_left]

theorem not_mem_of_isIdentifier {w : String} {c : Char} (h : isIdentifier w)
    (hc : isIdentifierPart c = false) : c ∉ w.toList := fun hm => by
  rw [isIdentifierPart_of_mem h hm] at hc
  cases hc

/-- An identifier goes up to a character that no identifier holds. -/
theorem takeWhile_identifier {w : String} {a : Char} (h : isIdentifier w)
    (ha : isIdentifierPart a = false) (rest : List Char) :
    (w.toList ++ a :: rest).takeWhile (· ≠ a) = w.toList ∧
      (w.toList ++ a :: rest).dropWhile (· ≠ a) = a :: rest :=
  takeWhile_run (fun _ hc => decide_eq_true fun he => not_mem_of_isIdentifier h ha (he ▸ hc))
    (by simp)

theorem ne_nil_of_isIdentifier {w : String} (h : isIdentifier w) : w.toList ≠ [] := fun he => by
  rw [isIdentifier, he] at h
  cases h

theorem splitOn_of_eq {c : Char} {cs : List Char} {ls : List (List Char)}
    (h : cs = [c].intercalate ls) (hmem : ∀ l ∈ ls, c ∉ l) (hne : ls ≠ []) : cs.splitOn c = ls := by
  rw [h, List.splitOn_intercalate c hmem hne]

/-- A name is read back, also if a blank stands before it. -/
theorem readName?_nameText {n : String × String} (h : isIdentifier n.1 ∧ isIdentifier n.2) :
    readName? (nameText n).toList = some n ∧ readName? (' ' :: (nameText n).toList) = some n := by
  obtain ⟨a, b⟩ := n
  have ha : a.toList ≠ [] := ne_nil_of_isIdentifier h.1
  have hb : b.toList ≠ [] := ne_nil_of_isIdentifier h.2
  have ha' : ' ' ∉ a.toList := not_mem_of_isIdentifier h.1 (by decide)
  have hb' : ' ' ∉ b.toList := not_mem_of_isIdentifier h.2 (by decide)
  unfold nameText
  split
  · rename_i heq
    obtain rfl : a = b := heq
    have hsplit : a.toList.splitOn ' ' = [a.toList] :=
      splitOn_of_eq (by simp) (by simpa using ha') (by simp)
    have hsplit' : (' ' :: a.toList).splitOn ' ' = [[], a.toList] :=
      splitOn_of_eq (by simp) (by simpa using ha') (by simp)
    constructor
    · rw [readName?, hsplit]
      simp [ha]
    · rw [readName?, hsplit']
      simp [ha]
  · have hsplit : (a ++ " as " ++ b).toList.splitOn ' ' = [a.toList, "as".toList, b.toList] :=
      splitOn_of_eq (by simp) (by simpa using ⟨ha', hb'⟩) (by simp)
    have hsplit' : (' ' :: (a ++ " as " ++ b).toList).splitOn ' ' =
        [[], a.toList, "as".toList, b.toList] :=
      splitOn_of_eq (by simp) (by simpa using ⟨ha', hb'⟩) (by simp)
    constructor
    · rw [readName?, hsplit]
      simp [ha, hb]
    · rw [readName?, hsplit']
      simp [ha, hb]

/-- Texts between which a comma and a blank stand are those between which commas stand; all but the
first one start with a blank. -/
theorem intercalate_comma (l : List Char) (ls : List (List Char)) :
    [',', ' '].intercalate (l :: ls) = [','].intercalate (l :: ls.map (' ' :: ·)) := by
  induction ls generalizing l with
  | nil => simp
  | cons m ls ih =>
    have hblank : [','].intercalate ((' ' :: m) :: ls.map (' ' :: ·)) =
        ' ' :: [','].intercalate (m :: ls.map (' ' :: ·)) := by
      cases ls with
      | nil => simp
      | cons k ls => rw [List.map_cons, List.intercalate_cons_cons, List.intercalate_cons_cons]; rfl
    rw [List.intercalate_cons_cons, ih, List.map_cons, List.intercalate_cons_cons, hblank]
    simp

theorem comma_not_mem_nameText {n : String × String} (h : isIdentifier n.1 ∧ isIdentifier n.2) :
    ',' ∉ (nameText n).toList := by
  have h₁ : ',' ∉ n.1.toList := not_mem_of_isIdentifier h.1 (by decide)
  have h₂ : ',' ∉ n.2.toList := not_mem_of_isIdentifier h.2 (by decide)
  unfold nameText
  split
  · exact h₁
  · simp [h₁, h₂]

theorem readNames_text {names : List (String × String)} (hne : names ≠ [])
    (h : ∀ n ∈ names, isIdentifier n.1 ∧ isIdentifier n.2) :
    ((", ".intercalate (names.map nameText)).toList.splitOn ',').mapM readName? = some names := by
  obtain ⟨n, ns, rfl⟩ := List.exists_cons_of_ne_nil hne
  have hsplit : (", ".intercalate ((n :: ns).map nameText)).toList.splitOn ',' =
      (nameText n).toList :: ns.map fun n => ' ' :: (nameText n).toList := by
    refine splitOn_of_eq ?_ ?_ (List.cons_ne_nil _ _)
    · have hcomma : ", ".toList = [',', ' '] := rfl
      rw [String.toList_intercalate, hcomma, List.map_cons, List.map_cons, intercalate_comma,
        List.map_map, List.map_map]
      rfl
    · intro l hl
      rw [List.mem_cons, List.mem_map] at hl
      rcases hl with rfl | ⟨m, hm, rfl⟩
      · exact comma_not_mem_nameText (h n List.mem_cons_self)
      · simpa using comma_not_mem_nameText (h m (List.mem_cons_of_mem _ hm))
  have hrest : (ns.map fun n => ' ' :: (nameText n).toList).mapM readName? = some ns := by
    have hns := fun m hm => (readName?_nameText (h m (List.mem_cons_of_mem _ hm))).2
    clear hsplit h hne
    induction ns with
    | nil => rfl
    | cons m ns ih =>
      rw [List.map_cons, List.mapM_cons, hns m List.mem_cons_self,
        ih fun m hm => hns m (List.mem_cons_of_mem _ hm)]
      rfl
  rw [hsplit, List.mapM_cons, (readName?_nameText (h n List.mem_cons_self)).1, hrest]
  rfl

/-- The name of a module, as it is written. -/
def moduleText (module : List String) : List Char := ['.'].intercalate (module.map String.toList)

section ModuleText

variable {module : List String} (h : ∀ w ∈ module, isIdentifier w)

include h

theorem blank_not_mem_moduleText : ' ' ∉ moduleText module := by
  intro hc
  rcases mem_intercalate hc with hc | ⟨l, hl, hc⟩
  · cases List.mem_singleton.mp hc
  · obtain ⟨w, hw, rfl⟩ := List.mem_map.mp hl
    exact not_mem_of_isIdentifier (h w hw) (by decide) hc

/-- The points before the name of a module end where the name starts. -/
theorem head?_moduleText_append (cs : List Char) (hcs : cs.head? ≠ some '.') :
    (moduleText module ++ cs).head? ≠ some '.' := by
  cases module with
  | nil => exact hcs
  | cons w ws =>
    have hw := h w List.mem_cons_self
    obtain ⟨r, hr⟩ := exists_intercalate_cons ['.'] w.toList (ws.map String.toList)
    rw [moduleText, List.map_cons, hr, List.append_assoc,
      List.head?_append_of_ne_nil _ (ne_nil_of_isIdentifier hw)]
    intro hc
    exact not_mem_of_isIdentifier hw (by decide) (List.mem_of_head? hc)

theorem read_moduleText : (if moduleText module = [] then [] else
    ((moduleText module).splitOn '.').map String.ofList) = module := by
  cases module with
  | nil => rfl
  | cons w ws =>
    have hsplit : (moduleText (w :: ws)).splitOn '.' = (w :: ws).map String.toList := by
      refine splitOn_of_eq rfl (fun l hl => ?_) (List.cons_ne_nil _ _)
      obtain ⟨v, hv, rfl⟩ := List.mem_map.mp hl
      exact not_mem_of_isIdentifier (h v hv) (by decide)
    have hne : moduleText (w :: ws) ≠ [] := by
      obtain ⟨r, hr⟩ := exists_intercalate_cons ['.'] w.toList (ws.map String.toList)
      rw [moduleText, List.map_cons, hr]
      exact List.append_ne_nil_of_left_ne_nil (ne_nil_of_isIdentifier (h w List.mem_cons_self)) r
    rw [if_neg hne, hsplit, List.map_map]
    simp

end ModuleText

/-- **A line is read as what it was written for.** -/
theorem read?_text {i : ImportLine} (h : i.IsPlain) : read? i.text = some i := by
  obtain ⟨k, module, names⟩ := i
  have hpoints : (".".intercalate module).toList = moduleText module := String.toList_intercalate
  have hnames := readNames_text h.ne_nil h.names
  generalize hn : (", ".intercalate (names.map nameText)).toList = n at hnames
  have htext : (text ⟨k, module, names⟩).toList =
      "from ".toList ++ (List.replicate k '.' ++ (moduleText module ++
        (" import ".toList ++ n))) := by
    simp [text, hpoints, ← hn]
  have himport : (" import ".toList ++ n).head? = some ' ' := rfl
  -- the points go as far as they are points, and the name of the module up to a blank
  have hpoint : ∀ c, (moduleText module ++ (" import ".toList ++ n)).head? = some c →
      decide (c = '.') = false := by
    intro c hc
    refine decide_eq_false ?_
    rintro rfl
    exact head?_moduleText_append h.module _ (by rw [himport]; decide) hc
  have hblank : ∀ c ∈ moduleText module, decide (c ≠ ' ') = true := by
    intro c hc
    refine decide_eq_true ?_
    rintro rfl
    exact blank_not_mem_moduleText h.module hc
  have hreplicate : ∀ c ∈ List.replicate k '.', decide (c = '.') = true := fun c hc =>
    decide_eq_true (List.eq_of_mem_replicate hc)
  obtain ⟨htake, hdrop⟩ := takeWhile_run hreplicate hpoint
  obtain ⟨htake', hdrop'⟩ := takeWhile_run hblank fun c hc => by
    rw [himport] at hc
    cases hc
    rfl
  rw [read?, htext, after?_append]
  simp only [Option.bind_eq_bind, Option.bind_some, htake, hdrop, htake', hdrop', after?_append,
    hnames, read_moduleText h.module, List.length_replicate]
  rfl

/-! ## Where a line leads to -/

/-- **The module that a line leads to**, seen from a directory: one point stands for the directory
itself and each further one for the directory above. A line without points leads elsewhere. -/
def target? (dir : List String) (i : ImportLine) : Option (List String) :=
  if i.points = 0 ∨ dir.length < i.points - 1 then none
  else some (dir.take (dir.length - (i.points - 1)) ++ i.module)

/-- With one point more than directories, a line starts at the root. -/
theorem target?_upward (dir : List String) (i : ImportLine) (h : i.points = dir.length + 1) :
    i.target? dir = some i.module := by
  simp [target?, h]

theorem target?_one (dir : List String) (i : ImportLine) (h : i.points = 1) :
    i.target? dir = some (dir ++ i.module) := by
  simp [target?, h]

end ImportLine

/-! ## The lines of generated modules -/

/-- What a line says that the module of a template imports for itself, in a directory that is some
points below the root. -/
def ModuleImport.toLine (points : Nat) : ModuleImport → ImportLine
  | helpers => ⟨points, [Names.utils], [("Content", "Content"), ("Html", "Html"),
      ("ToHtml", "ToHtml"), ("Writer", "Writer"), ("write_escaped", Names.writeEscaped),
      ("write_raw", Names.writeRaw)]⟩
  | template r => ⟨points, r.namespaces ++ [r.module], [(r.function, r.localName)]⟩
  | statics => ⟨points, [], [(Names.statics, Names.staticsAlias)]⟩

/-- A function is imported under another name. -/
theorem TemplateRef.function_ne_localName (r : TemplateRef) : r.function ≠ r.localName := by
  have hsuffix : ∀ ns : List (List Char), r.function.toList <:+
      ['_', '_'].intercalate (ns ++ [r.function.toList]) := by
    intro ns
    induction ns with
    | nil => simp
    | cons w ns ih =>
      obtain ⟨v, vs, he⟩ := List.exists_cons_of_ne_nil
        (List.append_ne_nil_of_right_ne_nil ns (List.cons_ne_nil r.function.toList []))
      rw [List.cons_append, he, List.intercalate_cons_cons, ← he]
      exact ih.trans (List.suffix_append _ _)
  intro h
  have hlength := congrArg List.length (congrArg String.toList h)
  have hle := (hsuffix (r.namespaces.map String.toList)).length_le
  rw [toList_localName, List.map_append, List.map_singleton, List.length_append] at hlength
  have hstart : 0 < "_tplc_".toList.length := by decide
  omega

theorem ModuleImport.line_upward (m : ModuleImport) (ns : List String) :
    m.line (upward ns) = (m.toLine (ns.length + 1)).text := by
  cases m with
  | helpers =>
    simp [line, toLine, ImportLine.text, upward, ImportLine.nameText, Names.writeEscaped,
      Names.writeRaw, String.append_assoc]
  | template r =>
    simp [line, toLine, ImportLine.text, upward, ImportLine.nameText, r.function_ne_localName,
      String.append_assoc]
  | statics =>
    simp [line, toLine, ImportLine.text, upward, ImportLine.nameText, Names.statics,
      Names.staticsAlias, String.append_assoc]

/-- What a line of an index says. -/
def Package.IndexImport.toLine : IndexImport → ImportLine
  | directory name => ⟨1, [], [(name, name)]⟩
  | statics => ⟨1, [], [(Names.statics, Names.statics)]⟩
  | template t => ⟨1, [t.module], (sortTexts (exports t)).map fun n => (n, n)⟩

theorem Package.IndexImport.line_eq (m : IndexImport) : m.line = m.toLine.text ++ "\n" := by
  cases m with
  | directory name =>
    show "from . import " ++ name ++ "\n" = _
    simp [toLine, ImportLine.text, ImportLine.nameText]
  | statics =>
    show "from . import " ++ Names.statics ++ "\n" = _
    simp [toLine, ImportLine.text, ImportLine.nameText]
  | template t =>
    have hnames : (sortTexts (exports t)).map (ImportLine.nameText ∘ fun n => (n, n)) =
        sortTexts (exports t) := by
      simp [Function.comp_def, ImportLine.nameText]
    show "from ." ++ t.module ++ " import " ++ ", ".intercalate (sortTexts (exports t)) ++ "\n" = _
    simp [toLine, ImportLine.text, hnames]

end Stencil
