import Stencil.Proofs.FileNames
import Stencil.Proofs.ReachedIndex
import Stencil.Proofs.ReadStatics
import Stencil.Proofs.StaticOrder

/-!
# The module of static files, read and run

The module that is written for an index of static files says what the index holds: its text is read
by its lines, and each file is held by its logical name.

* `Index.statements`: the statements of the module; `Index.moduleLines`: its lines.
* `Index.reads_moduleLines`: the lines are read as the statements; `Index.run_statements`: what the
  names hold after these.
* **`Index.moduleText_decodes`**: the text of the module, read and run.
* **`Index.module_misleads`**: a file with the name of the variable of a content takes its place,
  and a line feed in the name of a source ends the comment that it stands in.
-/

namespace Stencil

open Text StaticsModule

/-! ## Names -/

theorem isAsciiWord_hexDigits (width n : Nat) : ∀ c ∈ hexDigits width n, isAsciiWord c = true := by
  have hdigit : ∀ d < 16, isAsciiWord (hexDigit d) = true := by decide
  induction width generalizing n with
  | zero => exact fun c hc => by cases hc
  | succ width ih =>
    intro c hc
    rcases List.mem_append.mp hc with hc | hc
    · exact ih _ c hc
    · rw [List.mem_singleton.mp hc]
      exact hdigit _ (Nat.mod_lt _ (by decide))

/-- A word character starts a name, or it is a digit. -/
theorem isIdentifierPart_of_isAsciiWord {c : Char} (h : isAsciiWord c = true) :
    isIdentifierPart c = true ∧ (isDigit c = false → isIdentifierStart c = true) := by
  rw [isAsciiWord, Char.isAlphanum, Bool.or_eq_true, Bool.or_eq_true] at h
  rcases h with (h | h) | h
  · have hstart : isIdentifierStart c = true := by simp [isIdentifierStart, h]
    exact ⟨isIdentifierPart_of_start hstart, fun _ => hstart⟩
  · refine ⟨by simp [isIdentifierPart, h], fun hnot => ?_⟩
    rw [CodeExpr.isDigit_of_isDigit h] at hnot
    cases hnot
  · have hstart : isIdentifierStart c = true := by simp [isIdentifierStart, h]
    exact ⟨isIdentifierPart_of_start hstart, fun _ => hstart⟩

theorem isIdentifier_of_words {c : Char} {cs : List Char} (h : ∀ d ∈ c :: cs, isAsciiWord d = true)
    (hc : isDigit c = false) : isIdentifier (String.ofList (c :: cs)) := by
  rw [isIdentifier, String.toList_ofList]
  rw [List.forall_mem_cons] at h
  refine Bool.and_eq_true_iff.mpr ⟨(isIdentifierPart_of_isAsciiWord h.1).2 hc, ?_⟩
  exact List.all_eq_true.mpr fun d hd => (isIdentifierPart_of_isAsciiWord (h.2 d hd)).1

namespace Asset

theorem plainName_words (path : String) :
    (∀ c ∈ plainName path, isAsciiWord c = true) ∧
      ∃ c cs, plainName path = c :: cs ∧ isDigit c = false := by
  have hmap : ∀ d ∈ path.toList.map (fun c => if isAsciiWord c then c else '_'),
      isAsciiWord d = true := by
    intro d hd
    obtain ⟨c, -, rfl⟩ := List.mem_map.mp hd
    split
    · assumption
    · decide
  unfold plainName
  dsimp only
  split
  · exact ⟨List.forall_mem_cons.mpr ⟨by decide, hmap⟩, _, _, rfl, by decide⟩
  · rename_i hhead
    refine ⟨hmap, ?_⟩
    cases hcs : path.toList.map (fun c => if isAsciiWord c then c else '_') with
    | nil =>
      rw [hcs] at hhead
      exact absurd rfl hhead
    | cons c cs =>
      rw [hcs] at hhead
      exact ⟨c, cs, rfl, by simpa using hhead⟩

/-- **The identifier of a path can be bound.** -/
theorem isBindable_logicalName (path : String) : IsBindable (logicalName path) := by
  obtain ⟨hwords, c, cs, hname, hc⟩ := plainName_words path
  have hidentifier : isIdentifier (String.ofList (plainName path)) := by
    rw [hname] at hwords ⊢
    exact isIdentifier_of_words hwords hc
  rw [logicalName_eq]
  split
  · rename_i hreserved
    refine ⟨?_, isIdentifier_append hidentifier (List.all_eq_true.mp (by decide)), ?_⟩
    · rw [String.toList_append, String.toList_ofList]
      intro d hd
      rcases List.mem_append.mp hd with hd | hd
      · exact hwords d hd
      · rw [List.mem_singleton.mp hd]
        decide
    · -- no reserved word ends with an underscore
      have hends : ∀ w ∈ reservedWords, w.toList.getLast? ≠ some '_' := by decide
      rw [← Bool.not_eq_true]
      intro h
      refine hends _ (List.contains_iff_mem.mp h) ?_
      rw [String.toList_append]
      exact List.getLast?_concat
  · rename_i hfree
    exact ⟨by rwa [String.toList_ofList], hidentifier, Bool.eq_false_iff.mpr hfree⟩

end Asset

namespace Index

open Asset

theorem dataName_injective {d d' : String} (h : dataName d = dataName d') : d = d' :=
  (String.append_right_inj _).mp h

/-- The variable of a content can be bound. -/
theorem isBindable_dataName (content : List UInt8) : IsBindable (dataName (Md5.hex content)) := by
  have hhex : ∀ c ∈ (Md5.hex content).toList, isAsciiWord c = true := by
    rw [Md5.hex, String.toList_ofList]
    intro c hc
    obtain ⟨b, -, hc⟩ := List.mem_flatMap.mp hc
    exact isAsciiWord_hexDigits _ _ c hc
  refine ⟨?_, isIdentifier_append (by decide) fun c hc =>
    (isIdentifierPart_of_isAsciiWord (hhex c hc)).1, ?_⟩
  · rw [dataName, String.toList_append]
    intro c hc
    rcases List.mem_append.mp hc with hc | hc
    · exact List.all_eq_true.mp (by decide : "_data_".toList.all isAsciiWord = true) c hc
    · exact hhex c hc
  · -- no reserved word starts like this
    have hstarts : ∀ w ∈ reservedWords, ¬ "_data_".toList <+: w.toList := by decide
    rw [← Bool.not_eq_true, isReserved]
    intro h
    refine hstarts _ (List.contains_iff_mem.mp h) ?_
    rw [dataName, String.toList_append]
    exact List.prefix_append _ _

/-! ## Reading -/

/-- The code that makes the record of a file. -/
def fileCode (a : Asset) : String :=
  "StaticFile" ++ "(" ++ ", ".intercalate [dataName a.digest,
    quotePoints (CodePoint.ofString a.publicPath), quotePoints (CodePoint.ofString a.mime)] ++ ")"

/-- What that code says. -/
def fileExpr (a : Asset) : CodeExpr :=
  .call (.name "StaticFile") [.name (dataName a.digest), .text (CodePoint.ofString a.publicPath),
    .text (CodePoint.ofString a.mime)]

/-- The statements before those of the contents. -/
def importStatements : List Statement := [
  .imports ⟨0, ["__future__"], [("annotations", "annotations")]⟩,
  .imports ⟨0, ["typing"], [("Optional", "Optional")]⟩,
  .imports ⟨1, ["_utils"], [("StaticFile", "StaticFile")]⟩]

/-- The statements after that of the tuple. -/
def lookupStatements : List Statement := [
  .assign "_BY_NAME" (.table "STATICS"),
  .define "get" "name" (.call (.member (.name "_BY_NAME") "get") [.name "name"])]

/-- **The statements of the module**: what is imported, the contents, the files, the tuple of them
and what finds a file. -/
def statements (assets : List Asset) : List Statement :=
  importStatements ++
    (contents assets).map (fun x => Statement.assign (dataName x.1) (.bytes x.2)) ++
    assets.map (fun a => Statement.assign a.name (.expr (fileExpr a))) ++
    [Statement.assign "STATICS" (.tuple ((listed assets).map Prod.snd))] ++ lookupStatements

theorem isBindable_of_decide {n : String} (h : (n.toList.all isAsciiWord && isIdentifier n &&
    !isReserved n) = true) : IsBindable n := by
  rw [Bool.and_eq_true, Bool.and_eq_true, Bool.not_eq_true', List.all_eq_true] at h
  exact ⟨h.1.1, h.1.2, h.2⟩

theorem source?_fileCode {a : Asset} (h : IsBindable (dataName a.digest)) :
    source? (fileCode a).toList = some (.expr (fileExpr a)) := by
  have htext (ps : List CodePoint) : CodeExpr.Emits true (quotePoints ps) [.text ps] (.text ps) :=
    CodeExpr.emits_text ps
  have hcall : CodeExpr.Emits true (fileCode a) _ (fileExpr a) :=
    (emits_bindable (isBindable_of_decide rfl)).call
      (.cons (emits_bindable h).full (.cons (htext _).full (.cons (htext _).full .nil)))
  have hread := hcall.read
  obtain ⟨rest, hstart⟩ : ∃ rest, (fileCode a).toList = 'S' :: rest := by
    have hopen : "StaticFile".toList = 'S' :: "taticFile".toList := by decide
    delta fileCode
    simp only [String.toList_append, List.append_assoc, hopen, List.cons_append]
    exact ⟨_, rfl⟩
  rw [hstart] at hread ⊢
  exact source?_of_read rfl rfl hread

/-! ### Lines -/

def importLines : List String := [
  "# Generated by tplc from static files. Do not edit.", "from __future__ import annotations", "",
  "from typing import Optional", "", "from ._utils import StaticFile", ""]

def contentLines (x : String × List UInt8) : List (List Char) :=
  [(dataName x.1).toList ++ (" = ".toList ++ (quoteBytes x.2).toList)]

def fileLines (a : Asset) : List (List Char) :=
  [[], "# From ".toList ++ (origin a).toList,
    a.name.toList ++ (" = ".toList ++ (fileCode a).toList)]

def tupleLines (names : List String) : List (List Char) :=
  ("STATICS".toList ++ (" = ".toList ++ ['('])) ::
    (names.map (fun n => "    ".toList ++ (n.toList ++ [','])) ++ [[')']])

def lookupLines : List String := [
  "", "_BY_NAME = \x7bs.name: s for s in STATICS\x7d", "", "",
  "def get(name: str) -> Optional[StaticFile]:",
  "    \"\"\"Static file by its public name.\"\"\"", "    return _BY_NAME.get(name)"]

/-- **The lines of the module.** -/
def moduleLines (assets : List Asset) : List (List Char) :=
  importLines.map String.toList ++ (contents assets).flatMap contentLines ++
    assets.flatMap fileLines ++ [] :: tupleLines ((listed assets).map Prod.snd) ++
    lookupLines.map String.toList

theorem hasLines_dataLine (x : String × List UInt8) :
    HasLines (dataLine x.1 x.2) (contentLines x) := by
  have hbreak : "\n".toList = ['\n'] := by decide
  delta dataLine contentLines HasLines
  simp only [String.toList_append, List.flatMap_cons, List.flatMap_nil, hbreak,
    List.append_assoc, List.append_nil]

theorem hasLines_assetLines (a : Asset) : HasLines (assetLines a) (fileLines a) := by
  have hfrom : "\n# From ".toList = '\n' :: "# From ".toList := by decide
  have hcall : " = StaticFile(".toList = " = ".toList ++ ("StaticFile".toList ++ "(".toList) := by
    decide
  have hend : ")\n".toList = ")".toList ++ ['\n'] := by decide
  have hbreak : "\n".toList = ['\n'] := by decide
  delta assetLines fileLines fileCode quote HasLines
  simp only [String.toList_append, List.flatMap_cons, List.flatMap_nil, hfrom, hcall, hend, hbreak,
    String.intercalate_cons_cons, String.intercalate_singleton, List.append_assoc,
    List.cons_append, List.nil_append, List.append_nil]

theorem hasLines_tuple (names : List String) :
    HasLines ("\nSTATICS = (\n" ++ String.join (names.map fun n => "    " ++ n ++ ",\n") ++ ")\n")
      ([] :: tupleLines names) := by
  have hitems : HasLines (String.join (names.map fun n => "    " ++ n ++ ",\n"))
      (names.flatMap fun n => ["    ".toList ++ (n.toList ++ [','])]) := by
    refine hasLines_join fun n _ => ?_
    have hend : ",\n".toList = [','] ++ ['\n'] := by decide
    rw [HasLines]
    simp only [String.toList_append, List.flatMap_cons, List.flatMap_nil, hend, List.append_assoc,
      List.append_nil]
  have hopen : HasLines "\nSTATICS = (\n" [[], "STATICS".toList ++ (" = ".toList ++ ['('])] := by
    rw [HasLines]
    decide
  have hclose : HasLines ")\n" [[')']] := by
    rw [HasLines]
    decide
  have hlines := (hopen.append hitems).append hclose
  rwa [← List.map_eq_flatMap] at hlines

theorem moduleText_ok {ix : Index} {text : String} (h : ix.moduleText = .ok text) :
    (∀ a ∈ ix.assets, a.name ∉ reservedNames) ∧ HasLines text (moduleLines ix.assets) := by
  unfold moduleText at h
  dsimp only at h
  split at h
  · cases h
  rename_i hfree
  refine ⟨fun a ha hr => ?_, ?_⟩
  · have := List.find?_eq_none.mp hfree a ha
    exact this (List.contains_iff_mem.mpr hr)
  · have hstart : moduleStart = String.join (importLines.map (· ++ "\n")) := rfl
    have hend : moduleEnd = String.join (lookupLines.map (· ++ "\n")) := rfl
    have hcontents : HasLines (String.join ((contents ix.assets).map fun x => dataLine x.1 x.2))
        ((contents ix.assets).flatMap contentLines) := hasLines_join fun x _ => hasLines_dataLine x
    have hfiles : HasLines (String.join (ix.assets.map assetLines)) (ix.assets.flatMap fileLines) :=
      hasLines_join fun a _ => hasLines_assetLines a
    have htuple := hasLines_tuple ((listed ix.assets).map Prod.snd)
    have htext := ((((hasLines_lines importLines).append hcontents).append hfiles).append
      htuple).append (hasLines_lines lookupLines)
    rw [List.map_map, ← hstart, ← hend] at htext
    obtain rfl := Except.ok.inj h
    simp only [-String.reduceAppend, ← String.append_assoc] at htext
    exact htext

/-! ### Contents and public names -/

section Tables

variable {assets : List Asset}

theorem mem_contents {x : String × List UInt8} (h : x ∈ contents assets) :
    ∃ a ∈ assets, x = (a.digest, a.content) :=
  (mem_foldl_putNew ((mem_sortBy _).mp h)).resolve_left List.not_mem_nil

theorem exists_mem_contents {a : Asset} (h : a ∈ assets) :
    ∃ c, (a.digest, c) ∈ contents assets := by
  obtain ⟨c, hc⟩ := exists_mem_foldl_putNew Asset.digest Asset.content h
  exact ⟨c, (mem_sortBy _).mpr hc⟩

theorem pairwise_contents (assets : List Asset) :
    (contents assets).Pairwise fun x y => x.1 < y.1 :=
  pairwise_lt_sortBy (nodup_foldl_putNew .nil)

theorem mem_listed {x : String × String} (h : x ∈ listed assets) :
    ∃ a ∈ assets, x = (a.publicPath, a.name) :=
  (mem_foldl_putNew ((mem_sortBy _).mp h)).resolve_left List.not_mem_nil

theorem exists_mem_listed {a : Asset} (h : a ∈ assets) :
    ∃ n, (a.publicPath, n) ∈ listed assets := by
  obtain ⟨n, hn⟩ := exists_mem_foldl_putNew Asset.publicPath Asset.name h
  exact ⟨n, (mem_sortBy _).mpr hn⟩

theorem pairwise_listed (assets : List Asset) :
    (listed assets).Pairwise fun x y => x.1 < y.1 :=
  pairwise_lt_sortBy (nodup_foldl_putNew .nil)

/-- The names of listed files can be bound. -/
theorem isBindable_listed (hnames : ∀ a ∈ assets, IsBindable a.name) :
    ∀ n ∈ (listed assets).map Prod.snd, IsBindable n := by
  intro n hn
  obtain ⟨x, hx, rfl⟩ := List.mem_map.mp hn
  obtain ⟨a, ha, rfl⟩ := mem_listed hx
  exact hnames a ha

/-! ### The statements of the lines -/

theorem reads_importLines : Reads (importLines.map String.toList) importStatements := by
  have hfuture : Reads ["from __future__ import annotations".toList] _ :=
    reads_imports rfl rfl (rfl :
      ImportLine.read? _ = some ⟨0, ["__future__"], [("annotations", "annotations")]⟩)
  have htyping : Reads ["from typing import Optional".toList] _ :=
    reads_imports rfl rfl (rfl :
      ImportLine.read? _ = some ⟨0, ["typing"], [("Optional", "Optional")]⟩)
  have hutils : Reads ["from ._utils import StaticFile".toList] _ :=
    reads_imports rfl rfl (rfl :
      ImportLine.read? _ = some ⟨1, ["_utils"], [("StaticFile", "StaticFile")]⟩)
  have hblank : Reads ["".toList] [] := reads_silent rfl
  have hcomment : Reads ["# Generated by tplc from static files. Do not edit.".toList] [] :=
    reads_silent rfl
  exact (((((hcomment.append hfuture).append hblank).append htyping).append hblank).append
    hutils).append hblank

theorem reads_contentLines {x : String × List UInt8} (h : IsBindable (dataName x.1)) :
    Reads (contentLines x) [.assign (dataName x.1) (.bytes x.2)] := by
  refine reads_assign h ?_ fun he => ?_
  · rw [source?, bytesLiteral?_quoteBytes]
  · have hread := bytesLiteral?_quoteBytes x.2
    rw [he] at hread
    cases hread

theorem isSilent_comment (cs : List Char) : isSilent ("# From ".toList ++ cs) = true := by
  have hstart : "# From ".toList = '#' :: " From ".toList := rfl
  rw [hstart]
  rfl

theorem reads_fileLines {a : Asset} (h : IsBindable a.name)
    (hdata : IsBindable (dataName a.digest)) :
    Reads (fileLines a) [.assign a.name (.expr (fileExpr a))] := by
  have hsource := source?_fileCode hdata
  refine ((reads_silent (by decide : isSilent [] = true)).append
    (reads_silent (isSilent_comment _))).append (reads_assign h hsource fun he => ?_)
  rw [he] at hsource
  cases hsource

theorem source?_table : source? "\x7bs.name: s for s in STATICS\x7d".toList =
    some (.table "STATICS") := by
  have hcons : "\x7bs.name: s for s in STATICS\x7d".toList =
      '\x7b' :: "s.name: s for s in STATICS\x7d".toList := rfl
  have hsplit : "s.name: s for s in STATICS\x7d".toList.splitOn ' ' =
      ["s.name:".toList, "s".toList, "for".toList, "s".toList, "in".toList,
        "STATICS\x7d".toList] := rfl
  have hlast : "STATICS\x7d".toList.dropLast = "STATICS".toList := rfl
  have htable : table? ('\x7b' :: "s.name: s for s in STATICS\x7d".toList) =
      some (.table "STATICS") := by
    rw [table?, hsplit]
    simp only [hlast]
    rw [if_pos (by decide), String.ofList_toList]
  have hbytes : bytesLiteral? ('\x7b' :: "s.name: s for s in STATICS\x7d".toList) = none := rfl
  rw [hcons, source?, hbytes, htable]

theorem result?_lookup : result? "    return _BY_NAME.get(name)".toList =
    some (.call (.member (.name "_BY_NAME") "get") [.name "name"]) := by
  have hsplit : "    return _BY_NAME.get(name)".toList =
      "    return ".toList ++ "_BY_NAME.get(name)".toList := rfl
  have htable : IsBindable "_BY_NAME" := isBindable_of_decide rfl
  have hname : IsBindable "name" := isBindable_of_decide rfl
  have hmember : Expr.IsName "get" := ⟨rfl, rfl, rfl⟩
  rw [hsplit, result?, ImportLine.after?_append, Option.bind_some]
  have hcall : CodeExpr.Emits true "_BY_NAME.get(name)" _ _ :=
    ((emits_bindable htable).member hmember).call (.cons (emits_bindable hname).full .nil)
  exact hcall.read

theorem reads_lookupLines : Reads (lookupLines.map String.toList) lookupStatements := by
  have hblank : Reads ["".toList] [] := reads_silent rfl
  have htable : Reads ["_BY_NAME = \x7bs.name: s for s in STATICS\x7d".toList]
      [.assign "_BY_NAME" (.table "STATICS")] := by
    have hline : "_BY_NAME = \x7bs.name: s for s in STATICS\x7d" =
        "_BY_NAME" ++ (" = " ++ "\x7bs.name: s for s in STATICS\x7d") := rfl
    rw [hline, String.toList_append, String.toList_append]
    exact reads_assign (isBindable_of_decide rfl) source?_table (by decide)
  have hget : Reads ["def get(name: str) -> Optional[StaticFile]:".toList,
      "    \"\"\"Static file by its public name.\"\"\"".toList,
      "    return _BY_NAME.get(name)".toList] _ :=
    reads_function rfl rfl rfl (by decide +kernel : head? _ = some ("get", "name")) rfl rfl rfl rfl
      result?_lookup
  exact (((hblank.append htable).append hblank).append hblank).append hget

theorem reads_contents (hdata : ∀ a ∈ assets, IsBindable (dataName a.digest)) :
    Reads ((contents assets).flatMap contentLines)
      ((contents assets).map fun x => .assign (dataName x.1) (.bytes x.2)) := by
  rw [List.map_eq_flatMap]
  refine reads_flatMap fun x hx => reads_contentLines ?_
  obtain ⟨a, ha, rfl⟩ := mem_contents hx
  exact hdata a ha

theorem reads_files (hnames : ∀ a ∈ assets, IsBindable a.name)
    (hdata : ∀ a ∈ assets, IsBindable (dataName a.digest)) :
    Reads (assets.flatMap fileLines)
      (assets.map fun a => .assign a.name (.expr (fileExpr a))) := by
  rw [List.map_eq_flatMap]
  exact reads_flatMap fun a ha => reads_fileLines (hnames a ha) (hdata a ha)

/-- **The lines of the module are read as its statements.** -/
theorem reads_moduleLines (hnames : ∀ a ∈ assets, IsBindable a.name)
    (hdata : ∀ a ∈ assets, IsBindable (dataName a.digest)) :
    Reads (moduleLines assets) (statements assets) := by
  have htuple : Reads ([] :: tupleLines ((listed assets).map Prod.snd))
      [.assign "STATICS" (.tuple ((listed assets).map Prod.snd))] :=
    (reads_silent (by decide : isSilent [] = true)).append
      (reads_tuple (isBindable_of_decide rfl) (isBindable_listed hnames))
  exact (((reads_importLines.append (reads_contents hdata)).append (reads_files hnames hdata)).append
    htuple).append reads_lookupLines

/-! ### Lines that are not broken -/

theorem isPlainLine_importLines : ∀ l ∈ importLines.map String.toList, IsPlainLine l :=
  isPlainLine_of_all rfl

theorem isPlainLine_contentLines (hdata : ∀ a ∈ assets, IsBindable (dataName a.digest)) :
    ∀ l ∈ (contents assets).flatMap contentLines, IsPlainLine l := by
  intro l hl
  obtain ⟨x, hx, hl⟩ := List.mem_flatMap.mp hl
  obtain ⟨a, ha, rfl⟩ := mem_contents hx
  rw [List.mem_singleton.mp hl]
  exact (isPlainLine_of_words (hdata a ha).word).append (IsPlainLine.append (by decide)
    (isPlainLine_of_printable fun _ => isPrintable_of_mem_quoteBytes))

theorem isPlainLine_fileCode {a : Asset} (hdata : IsBindable (dataName a.digest)) :
    IsPlainLine (fileCode a).toList := by
  have hopen : IsPlainLine ("StaticFile" ++ "(").toList := by decide
  have hcomma : IsPlainLine ", ".toList := by decide
  have hclose : IsPlainLine ")".toList := by decide
  have hquoted (text : String) : IsPlainLine (quote text).toList :=
    isPlainLine_of_printable fun _ => isPrintable_of_mem_quote
  delta fileCode
  rw [String.intercalate_cons_cons, String.intercalate_cons_cons, String.intercalate_singleton]
  simp only [-String.reduceAppend, String.toList_append] at hopen ⊢
  exact (hopen.append (((isPlainLine_of_words hdata.word).append hcomma).append
    (((hquoted _).append hcomma).append (hquoted _)))).append hclose

/-- The lines of files are not broken if the names of their sources are not. -/
theorem isPlainLine_fileLines (hnames : ∀ a ∈ assets, IsBindable a.name)
    (hdata : ∀ a ∈ assets, IsBindable (dataName a.digest))
    (hsources : ∀ a ∈ assets, IsPlainLine (origin a).toList) :
    ∀ l ∈ assets.flatMap fileLines, IsPlainLine l := by
  intro l hl
  obtain ⟨a, ha, hl⟩ := List.mem_flatMap.mp hl
  simp only [fileLines, List.mem_cons, List.not_mem_nil, or_false] at hl
  rcases hl with rfl | rfl | rfl
  · exact List.forall_mem_nil _
  · exact IsPlainLine.append (by decide) (hsources a ha)
  · exact (isPlainLine_of_words (hnames a ha).word).append
      (IsPlainLine.append (by decide) (isPlainLine_fileCode (hdata a ha)))

theorem isPlainLine_tupleLines {names : List String} (h : ∀ n ∈ names, IsBindable n) :
    ∀ l ∈ tupleLines names, IsPlainLine l := by
  intro l hl
  rw [tupleLines, List.mem_cons, List.mem_append, List.mem_singleton] at hl
  rcases hl with rfl | hl | rfl
  · decide
  · obtain ⟨n, hn, rfl⟩ := List.mem_map.mp hl
    exact IsPlainLine.append (by decide)
      ((isPlainLine_of_words (h n hn).word).append (by decide))
  · decide

theorem isPlainLine_moduleLines (hnames : ∀ a ∈ assets, IsBindable a.name)
    (hdata : ∀ a ∈ assets, IsBindable (dataName a.digest))
    (hsources : ∀ a ∈ assets, IsPlainLine (origin a).toList) :
    ∀ l ∈ moduleLines assets, IsPlainLine l := by
  have hlookup : ∀ l ∈ lookupLines.map String.toList, IsPlainLine l := isPlainLine_of_all rfl
  intro l hl
  simp only [moduleLines, List.mem_append, List.mem_cons] at hl
  rcases hl with (((hl | hl) | hl) | rfl | hl) | hl
  · exact isPlainLine_importLines l hl
  · exact isPlainLine_contentLines hdata l hl
  · exact isPlainLine_fileLines hnames hdata hsources l hl
  · exact List.forall_mem_nil _
  · exact isPlainLine_tupleLines (isBindable_listed hnames) l hl
  · exact hlookup l hl

end Tables

/-! ## Running -/

/-- The record of a file with some content. -/
def record (a : Asset) (content : Value) : Value :=
  .file content (CodePoint.ofString a.publicPath) (CodePoint.ofString a.mime)

theorem dataName_ne {n : String} (digest : String) (h : ¬ "_data_".toList <+: n.toList) :
    dataName digest ≠ n := by
  rintro rfl
  refine h ?_
  rw [dataName, String.toList_append]
  exact List.prefix_append _ _

section Run

variable {env : Names} {assets : List Asset}

/-- **The contents** are held by their variables. -/
theorem run_contents {xs : List (String × List UInt8)} (h : xs.Pairwise fun x y => x.1 ≠ y.1)
    (env : Names) :
    ∃ env', run (xs.map fun x => .assign (dataName x.1) (.bytes x.2)) env = some env' ∧
      (∀ x ∈ xs, env' (dataName x.1) = some (.bytes x.2)) ∧
      ∀ n, (∀ x ∈ xs, n ≠ dataName x.1) → env' n = env n := by
  induction xs generalizing env with
  | nil => exact ⟨env, rfl, List.forall_mem_nil _, fun _ _ => rfl⟩
  | cons x xs ih =>
    obtain ⟨hx, hxs⟩ := List.pairwise_cons.mp h
    obtain ⟨env', hrun, hheld, hkept⟩ :=
      ih hxs (Function.update env (dataName x.1) (some (.bytes x.2)))
    refine ⟨env', ?_, List.forall_mem_cons.mpr ⟨?_, hheld⟩, fun n hn => ?_⟩
    · rw [List.map_cons, run_cons (run_assign (dataName_ne _ (by decide)) rfl), hrun]
    · rw [hkept _ fun y hy he => hx y hy (dataName_injective he), Function.update_self]
    · rw [List.forall_mem_cons] at hn
      rw [hkept n hn.2, Function.update_of_ne hn.1]

/-- **The files** are held by their names. The content of one is what its variable held before the
files, unless a file before it has the name of this variable. -/
theorem run_files (hsorted : assets.Pairwise fun a b => a.name < b.name)
    (hnames : ∀ a ∈ assets, a.name ≠ "__debug__" ∧ a.name ≠ "StaticFile")
    (hfunction : env "StaticFile" = some (.imported 1 ["_utils"] "StaticFile"))
    (hdata : ∀ a ∈ assets, ∃ v, env (dataName a.digest) = some v) :
    ∃ env', run (assets.map fun a => .assign a.name (.expr (fileExpr a))) env = some env' ∧
      (∀ n, (∀ a ∈ assets, n ≠ a.name) → env' n = env n) ∧
      ∀ a ∈ assets, ∃ v, env' a.name = some (record a v) ∧
        ((∃ b ∈ assets, b.name = dataName a.digest ∧ b.name < a.name) → v.isFile = true) ∧
        ((∀ b ∈ assets, b.name = dataName a.digest → a.name ≤ b.name) →
          env (dataName a.digest) = some v) := by
  induction assets generalizing env with
  | nil => exact ⟨env, rfl, fun _ _ => rfl, List.forall_mem_nil _⟩
  | cons a assets ih =>
    obtain ⟨hbefore, hsorted⟩ := List.pairwise_cons.mp hsorted
    rw [List.forall_mem_cons] at hnames hdata
    obtain ⟨w, hw⟩ := hdata.1
    have hvalue : (Source.expr (fileExpr a)).value? env = some (record a w) := by
      rw [fileExpr, Source.value?, hfunction]
      exact congrArg (Option.map _) hw
    have hfunction' : Function.update env a.name (some (record a w)) "StaticFile" =
        some (.imported 1 ["_utils"] "StaticFile") := by
      rw [Function.update_of_ne hnames.1.2.symm, hfunction]
    have hdata' : ∀ b ∈ assets,
        ∃ v, Function.update env a.name (some (record a w)) (dataName b.digest) = some v := by
      intro b hb
      by_cases he : dataName b.digest = a.name
      · exact ⟨_, by rw [he, Function.update_self]⟩
      · rw [Function.update_of_ne he]
        exact hdata.2 b hb
    obtain ⟨env', hrun, hkept, hheld⟩ := ih hsorted hnames.2 hfunction' hdata'
    refine ⟨env', ?_, fun n hn => ?_, List.forall_mem_cons.mpr ⟨⟨w, ?_, ?_, fun _ => hw⟩, ?_⟩⟩
    · rw [List.map_cons, run_cons (run_assign hnames.1.1 hvalue), hrun]
    · rw [List.forall_mem_cons] at hn
      rw [hkept n hn.2, Function.update_of_ne hn.1]
    · rw [hkept a.name fun b hb he => String.lt_irrefl _ (he ▸ hbefore b hb), Function.update_self]
    · rintro ⟨b, hb, -, hlt⟩
      rcases List.mem_cons.mp hb with rfl | hb
      · exact absurd hlt (String.lt_irrefl _)
      · exact absurd (String.lt_trans hlt (hbefore b hb)) (String.lt_irrefl _)
    · intro b hb
      obtain ⟨v, hv, hfile, hbytes⟩ := hheld b hb
      refine ⟨v, hv, ?_, fun hnone => ?_⟩
      · rintro ⟨c, hc, hname, hlt⟩
        rcases List.mem_cons.mp hc with rfl | hc
        · -- the variable now holds the file before, and no other one has its name
          have hheld := hbytes fun d hd hdname => by
            rw [← hname] at hdname
            exact absurd (hbefore d hd) (hdname ▸ String.lt_irrefl _)
          rw [← hname, Function.update_self, Option.some.injEq] at hheld
          rw [← hheld]
          rfl
        · exact hfile ⟨c, hc, hname, hlt⟩
      · rw [List.forall_mem_cons] at hnone
        have hne : dataName b.digest ≠ a.name := fun he =>
          String.not_le.mpr (hbefore b hb) (hnone.1 he.symm)
        rw [← hbytes hnone.2, Function.update_of_ne hne]

/-- **The module runs**: each file is held by its name, and the tuple holds the listed ones. -/
theorem run_statements (hsorted : assets.Pairwise fun a b => a.name < b.name)
    (hnames : ∀ a ∈ assets, a.name ≠ "__debug__" ∧ a.name ∉ reservedNames)
    (hcontents : ∀ a ∈ assets, ∀ b ∈ assets, a.digest = b.digest → a.content = b.content) :
    ∃ env, run (statements assets) (fun _ => none) = some env ∧
      (∀ a ∈ assets, ∃ v, env a.name = some (record a v) ∧
        ((∃ b ∈ assets, b.name = dataName a.digest ∧ b.name < a.name) → v.isFile = true) ∧
        ((∀ b ∈ assets, b.name = dataName a.digest → a.name ≤ b.name) → v = .bytes a.content)) ∧
      ∃ vs, env "STATICS" = some (.tuple vs) ∧
        List.Forall₂ (fun x v => env x.2 = some v) (listed assets) vs := by
  have hne : ∀ a ∈ assets, ∀ n ∈ reservedNames, a.name ≠ n := fun a ha n hn he =>
    (hnames a ha).2 (he ▸ hn)
  obtain ⟨env₀, himports, hfunction⟩ : ∃ env, run importStatements (fun _ => none) = some env ∧
      env "StaticFile" = some (.imported 1 ["_utils"] "StaticFile") := ⟨_, rfl, rfl⟩
  have hdistinct : (contents assets).Pairwise fun x y => x.1 ≠ y.1 :=
    (pairwise_contents assets).imp fun {x y} (h : x.1 < y.1) (he : x.1 = y.1) =>
      String.lt_irrefl y.1 (he ▸ h)
  obtain ⟨env₁, hrun₁, hheld₁, hkept₁⟩ := run_contents hdistinct env₀
  have hdata : ∀ a ∈ assets, env₁ (dataName a.digest) = some (.bytes a.content) := by
    intro a ha
    obtain ⟨c, hc⟩ := exists_mem_contents ha
    obtain ⟨b, hb, hx⟩ := mem_contents hc
    obtain ⟨hdigest, rfl⟩ := Prod.mk.inj hx
    rw [hheld₁ _ hc, hcontents b hb a ha hdigest.symm]
  obtain ⟨env₂, hrun₂, -, hheld₂⟩ := run_files hsorted
    (fun a ha => ⟨(hnames a ha).1, hne a ha _ (by decide)⟩)
    ((hkept₁ _ fun x _ => (dataName_ne x.1 (by decide)).symm).trans hfunction)
    fun a ha => ⟨_, hdata a ha⟩
  have hlisted : ∀ n ∈ (listed assets).map Prod.snd, ∃ v, env₂ n = some v := by
    intro n hn
    obtain ⟨x, hx, rfl⟩ := List.mem_map.mp hn
    obtain ⟨a, ha, rfl⟩ := mem_listed hx
    obtain ⟨v, hv, -⟩ := hheld₂ a ha
    exact ⟨_, hv⟩
  obtain ⟨vs, hvs, hall⟩ := exists_mapM hlisted
  rw [List.forall₂_map_left_iff] at hall
  have hfiles : vs.all Value.isFile = true := by
    refine List.all_eq_true.mpr fun v hv => ?_
    obtain ⟨x, hx, hheld⟩ := exists_left_of_forall₂ hall hv
    obtain ⟨a, ha, rfl⟩ := mem_listed hx
    obtain ⟨w, hw, -⟩ := hheld₂ a ha
    obtain rfl := Option.some.inj (hw.symm.trans hheld)
    rfl
  -- the last three names are none of those of files
  let env₃ := Function.update env₂ "STATICS" (some (.tuple vs))
  let env₄ := Function.update env₃ "_BY_NAME" (some (.table vs))
  let env₅ := Function.update env₄ "get" (some (.function "name"
    (.call (.member (.name "_BY_NAME") "get") [.name "name"])))
  have htuple : (Statement.assign "STATICS" (.tuple ((listed assets).map Prod.snd))).run env₂ =
      some env₃ := run_assign (by decide) (by rw [Source.value?, hvs]; rfl)
  have htable : (Statement.assign "_BY_NAME" (.table "STATICS")).run env₃ = some env₄ := by
    refine run_assign (by decide) ?_
    have hstatics : env₃ "STATICS" = some (.tuple vs) := Function.update_self ..
    rw [Source.value?, hstatics]
    exact if_pos hfiles
  have hkept : ∀ n, n ≠ "STATICS" → n ≠ "_BY_NAME" → n ≠ "get" → env₅ n = env₂ n := by
    intro n h h' h''
    dsimp only [env₅, env₄, env₃]
    rw [Function.update_of_ne h'', Function.update_of_ne h', Function.update_of_ne h]
  have hasset : ∀ a ∈ assets, env₅ a.name = env₂ a.name := fun a ha =>
    hkept _ (hne a ha _ (by decide)) (hne a ha _ (by decide)) (hne a ha _ (by decide))
  refine ⟨env₅, ?_, fun a ha => ?_, vs, ?_, ?_⟩
  · rw [statements, List.append_assoc, List.append_assoc, List.append_assoc, run_append himports,
      run_append hrun₁, run_append hrun₂, List.singleton_append, run_cons htuple, lookupStatements,
      run_cons htable]
    rfl
  · obtain ⟨v, hv, hfile, hbytes⟩ := hheld₂ a ha
    refine ⟨v, (hasset a ha).trans hv, hfile, fun hnone => ?_⟩
    exact Option.some.inj ((hbytes hnone).symm.trans (hdata a ha))
  · dsimp only [env₅, env₄, env₃]
    rw [Function.update_of_ne (by decide), Function.update_of_ne (by decide), Function.update_self]
  · have hlisted := (List.forall₂_and_left _ _).mpr ⟨fun x hx => mem_listed hx, hall⟩
    refine hlisted.imp ?_
    rintro _ v ⟨⟨a, ha, rfl⟩, hv⟩
    exact (hasset a ha).trans hv

/-- One name cannot be bound, so that a file of this name makes the module fail. -/
theorem run_statements_eq_none {a : Asset} (ha : a ∈ assets) (hname : a.name = "__debug__") :
    run (statements assets) env = none := by
  have hmem : .assign a.name (.expr (fileExpr a)) ∈ statements assets := by
    simp only [statements, List.mem_append]
    exact .inl (.inl (.inr (List.mem_map.mpr ⟨a, ha, rfl⟩)))
  refine run_eq_none hmem (fun env => ?_) env
  rw [Statement.run, hname, Option.bind_eq_none_iff]
  exact fun v _ => if_pos rfl

end Run

/-! ## Decoding -/

section Decoding

variable {ix : Index}

theorem Valid.pairwise_assets (h : ix.Valid) : ix.assets.Pairwise fun a b => a.name < b.name :=
  pairwise_lt_sortBy (h.map_name_entries ▸ h.nodup_entries)

/-- Files of one digest have one content. -/
theorem Valid.content_eq (h : ix.Valid) {a b : Asset} (ha : a ∈ ix.assets) (hb : b ∈ ix.assets)
    (hdigest : a.digest = b.digest) : a.content = b.content := by
  have hkept := h.kept (h.mem_assets.mp ha)
  rw [hdigest, h.kept (h.mem_assets.mp hb)] at hkept
  exact (Option.some.inj hkept).symm

/-- Each content is written once. -/
theorem Valid.mem_contents_iff (h : ix.Valid) {x : String × List UInt8} :
    x ∈ contents ix.assets ↔ ∃ a ∈ ix.assets, x = (a.digest, a.content) := by
  refine ⟨mem_contents, ?_⟩
  rintro ⟨a, ha, rfl⟩
  obtain ⟨c, hc⟩ := exists_mem_contents ha
  obtain ⟨b, hb, hx⟩ := mem_contents hc
  obtain ⟨hdigest, rfl⟩ := Prod.mk.inj hx
  rwa [h.content_eq ha hb hdigest]

/-- The names that the module binds can be bound. -/
theorem Reached.isBindable (h : ix.Reached) :
    (∀ a ∈ ix.assets, IsBindable a.name) ∧ ∀ a ∈ ix.assets, IsBindable (dataName a.digest) := by
  refine ⟨fun a ha => ?_, fun a ha => ?_⟩
  · obtain ⟨path, hname⟩ := h.exists_logicalName (h.valid.mem_assets.mp ha)
    rw [hname]
    exact isBindable_logicalName path
  · rw [← h.valid.hex_content (h.valid.mem_assets.mp ha)]
    exact isBindable_dataName a.content

/-- **The module is read as its statements.** -/
theorem parse_moduleText {text : String} (h : ix.Reached) (htext : ix.moduleText = .ok text)
    (hsources : ∀ a ∈ ix.assets, IsPlainLine (origin a).toList) :
    parse text = some (statements ix.assets) := by
  obtain ⟨hnames, hdata⟩ := h.isBindable
  rw [parse_of_lines (moduleText_ok htext).2 (isPlainLine_moduleLines hnames hdata hsources)]
  exact (reads_moduleLines hnames hdata).read

/-- **A source whose name has two lines** breaks the comment that it stands in: if the second line
cannot be read, the module cannot. -/
theorem parse_moduleText_eq_none {text : String} {before after : List Asset} {a : Asset}
    {x y : List Char} (h : ix.Reached) (htext : ix.moduleText = .ok text)
    (hassets : ix.assets = before ++ a :: after)
    (hbefore : ∀ b ∈ before, IsPlainLine (origin b).toList)
    (hbreak : (origin a).toList = x ++ '\n' :: y) (hx : IsPlainLine x) (hy : IsPlainLine y)
    (hfails : ∀ rest, read .outside (y :: rest) = none) : parse text = none := by
  obtain ⟨hnames, hdata⟩ := h.isBindable
  have hmem : ∀ b ∈ before, b ∈ ix.assets := fun b hb =>
    hassets ▸ List.mem_append_left _ hb
  have hcontents := reads_contents hdata
  have hplain := isPlainLine_contentLines hdata
  have hlines := (moduleText_ok htext).2
  rw [moduleLines] at hlines
  generalize (contents ix.assets).flatMap contentLines = contents at hcontents hplain hlines
  obtain ⟨cs, hcs⟩ : ∃ cs, text.toList = (importLines.map String.toList ++ contents ++
      before.flatMap fileLines ++ [[], "# From ".toList ++ x]).flatMap (· ++ ['\n']) ++
        (y ++ '\n' :: cs) := by
    rw [HasLines, hassets] at hlines
    rw [hlines]
    simp only [List.flatMap_append, List.flatMap_cons, List.flatMap_nil, fileLines, hbreak,
      List.append_assoc, List.cons_append, List.nil_append, List.append_nil]
    exact ⟨_, rfl⟩
  refine parse_eq_none hcs ?_ hy (((reads_importLines.append hcontents).append
    (reads_files (fun b hb => hnames b (hmem b hb)) fun b hb => hdata b (hmem b hb))).append
    ((reads_silent (by decide : isSilent [] = true)).append
      (reads_silent (isSilent_comment x)))) hfails
  intro l hl
  simp only [List.mem_append, List.mem_cons, List.not_mem_nil, or_false] at hl
  rcases hl with ((hl | hl) | hl) | rfl | rfl
  · exact isPlainLine_importLines l hl
  · exact hplain l hl
  · exact isPlainLine_fileLines (fun b hb => hnames b (hmem b hb))
      (fun b hb => hdata b (hmem b hb)) hbefore l hl
  · exact List.forall_mem_nil _
  · exact IsPlainLine.append (by decide) hx

/-- **The module says what the index holds.** It is read as its statements: each content once, in
the order of digests and before all files, then the files, and the tuple of one file for each public
name, in the order of these. When they are run, the name of each file holds its record; the content
in it is that of the file exactly if no file before has the name of the variable of this content. -/
theorem moduleText_decodes {text : String} (h : ix.Reached) (htext : ix.moduleText = .ok text)
    (hsources : ∀ a ∈ ix.assets, IsPlainLine (origin a).toList)
    (hnames : ∀ a ∈ ix.assets, a.name ≠ "__debug__") :
    parse text = some (statements ix.assets) ∧
    ((contents ix.assets).Pairwise (fun x y => x.1 < y.1) ∧
      ∀ x, x ∈ contents ix.assets ↔ ∃ a ∈ ix.assets, x = (a.digest, a.content)) ∧
    ((listed ix.assets).Pairwise (fun x y => x.1 < y.1) ∧
      (∀ x ∈ listed ix.assets, ∃ a ∈ ix.assets, x = (a.publicPath, a.name)) ∧
      ∀ a ∈ ix.assets, ∃ n, (a.publicPath, n) ∈ listed ix.assets) ∧
    ∃ env, run (statements ix.assets) (fun _ => none) = some env ∧
      (∀ a ∈ ix.assets, ∃ v, env a.name = some (record a v) ∧
        (v = .bytes a.content ↔
          ∀ b ∈ ix.assets, b.name = dataName a.digest → a.name ≤ b.name)) ∧
      ∃ vs, env "STATICS" = some (.tuple vs) ∧
        List.Forall₂ (fun x v => env x.2 = some v) (listed ix.assets) vs := by
  have hvalid := h.valid
  obtain ⟨env, hrun, hheld, htuple⟩ := run_statements hvalid.pairwise_assets
    (fun a ha => ⟨hnames a ha, (moduleText_ok htext).1 a ha⟩)
    fun a ha b hb => hvalid.content_eq ha hb
  refine ⟨parse_moduleText h htext hsources,
    ⟨pairwise_contents _, fun x => hvalid.mem_contents_iff⟩,
    ⟨pairwise_listed _, fun x => mem_listed, fun a => exists_mem_listed⟩,
    env, hrun, fun a ha => ?_, htuple⟩
  obtain ⟨v, hv, hfile, hbytes⟩ := hheld a ha
  refine ⟨v, hv, fun hcontent b hb hname => ?_, hbytes⟩
  rw [← String.not_lt]
  intro hlt
  have hrecord := hfile ⟨b, hb, hname, hlt⟩
  rw [hcontent] at hrecord
  cases hrecord

end Decoding

/-! ## Odd files -/

/-- The module is written if no file has a name that the module uses. -/
theorem exists_moduleText {ix : Index} (h : ∀ a ∈ ix.assets, a.name ∉ reservedNames) :
    ∃ text, ix.moduleText = .ok text := by
  have hfree : ix.assets.find? (fun a => reservedNames.contains a.name) = none :=
    List.find?_eq_none.mpr fun a ha hr => h a ha (List.contains_iff_mem.mp hr)
  rw [moduleText]
  dsimp only
  rw [hfree]
  exact ⟨_, rfl⟩

/-- A file with a reserved word for a name, one with quotes and breaks in its name and content, and
one with the content of the first one. -/
def oddFiles : List (Origin × Addition) := [
  (stylesheets, .content (.parse "class") [0x78] none),
  (stylesheets, .content (.parse "it's \"odd\".txt") [0x27, 0x22, 0x0a, 0x00, 0xff]
    (some (.parse "lib/#\t.txt"))),
  (stylesheets, .file (.parse "a.css"))]

theorem assets_oddFiles : (after oddFiles).assets = [
    ⟨some (.parse "a.css"), "a_css", "9dd4e461268c8034f5c8564e155c67a6", "a-ndTkYSaM.css",
      "text/css", [0x78]⟩,
    ⟨none, "class_", "9dd4e461268c8034f5c8564e155c67a6", "class-ndTkYSaM",
      "application/octet-stream", [0x78]⟩,
    ⟨some (.parse "lib/#\t.txt"), "it_s__odd__txt", "6e2ea03063a1bb42f3dab85cce07e8ad",
      "it's \"odd\"-bi6gMGOh.txt", "text/plain", [0x27, 0x22, 0x0a, 0x00, 0xff]⟩] := by
  decide +kernel

theorem moduleText_decodes_oddFiles :
    ∃ text ss env, (after oddFiles).moduleText = .ok text ∧ parse text = some ss ∧
      run ss (fun _ => none) = some env ∧
      (∀ a ∈ (after oddFiles).assets, env a.name = some (record a (.bytes a.content))) ∧
      ∃ vs, env "STATICS" = some (.tuple vs) ∧ vs.length = 3 := by
  have hassets := assets_oddFiles
  have hreserved : ∀ a ∈ (after oddFiles).assets, a.name ∉ reservedNames := by
    rw [hassets]
    decide
  have hsources : ∀ a ∈ (after oddFiles).assets, IsPlainLine (origin a).toList := by
    rw [hassets]
    decide
  have hnames : ∀ a ∈ (after oddFiles).assets, a.name ≠ "__debug__" := by
    rw [hassets]
    decide
  have hfree : ∀ a ∈ (after oddFiles).assets, ∀ b ∈ (after oddFiles).assets,
      b.name = dataName a.digest → a.name ≤ b.name := by
    rw [hassets]
    decide
  have hlength : (listed (after oddFiles).assets).length = 3 := by
    rw [hassets]
    decide
  obtain ⟨text, htext⟩ := exists_moduleText hreserved
  obtain ⟨hparse, -, -, env, hrun, hheld, vs, hvs, hall⟩ :=
    moduleText_decodes (reached_after oddFiles) htext hsources hnames
  refine ⟨text, _, env, htext, hparse, hrun, fun a ha => ?_, vs, hvs, hall.length_eq ▸ hlength⟩
  obtain ⟨v, hv, hcontent⟩ := hheld a ha
  rwa [hcontent.mpr (hfree a ha)] at hv

/-- A file with the name of the variable of another content. -/
def overwriting : List (Origin × Addition) := [
  (stylesheets, .content (.parse "_data_d41d8cd98f00b204e9800998ecf8427e") [0x31] none),
  (stylesheets, .content (.parse "x.txt") [] none)]

theorem assets_overwriting : (after overwriting).assets = [
    ⟨none, "_data_d41d8cd98f00b204e9800998ecf8427e", "c4ca4238a0b923820dcc509a6f75849b",
      "_data_d41d8cd98f00b204e9800998ecf8427e-xMpCOKC5", "application/octet-stream", [0x31]⟩,
    ⟨none, "x_txt", "d41d8cd98f00b204e9800998ecf8427e", "x-1B2M2Y8A.txt", "text/plain", []⟩] := by
  decide +kernel

/-- A file from a place whose name has two lines. -/
def brokenSource : List (Origin × Addition) := [
  (stylesheets, .content (.parse "x.txt") [] (some (.parse "a\nb")))]

theorem assets_brokenSource : (after brokenSource).assets = [
    ⟨some (.parse "a\nb"), "x_txt", "d41d8cd98f00b204e9800998ecf8427e", "x-1B2M2Y8A.txt",
      "text/plain", []⟩] := by
  decide +kernel

/-- **Not every module says what its index holds**: a record may hold another record for a content,
and a comment may end before the name of a source does. -/
theorem module_misleads :
    (∃ text ss env, (after overwriting).moduleText = .ok text ∧ parse text = some ss ∧
      run ss (fun _ => none) = some env ∧ ∃ a ∈ (after overwriting).assets,
        a.name = "x_txt" ∧ a.content = [] ∧
          ∃ v, env a.name = some (record a v) ∧ v.isFile = true) ∧
    ∃ text, (after brokenSource).moduleText = .ok text ∧ parse text = none := by
  constructor
  · have hreached := reached_after overwriting
    have hassets := assets_overwriting
    have hreserved : ∀ a ∈ (after overwriting).assets, a.name ∉ reservedNames := by
      rw [hassets]
      decide
    have hsources : ∀ a ∈ (after overwriting).assets, IsPlainLine (origin a).toList := by
      rw [hassets]
      decide
    have hnames : ∀ a ∈ (after overwriting).assets, a.name ≠ "__debug__" := by
      rw [hassets]
      decide
    obtain ⟨text, htext⟩ := exists_moduleText hreserved
    obtain ⟨env, hrun, hheld, -⟩ := run_statements hreached.valid.pairwise_assets
      (fun a ha => ⟨hnames a ha, hreserved a ha⟩) fun a ha b hb => hreached.valid.content_eq ha hb
    obtain ⟨a, ha, hname, hcontent, hoverwritten⟩ : ∃ a ∈ (after overwriting).assets,
        a.name = "x_txt" ∧ a.content = [] ∧
          ∃ b ∈ (after overwriting).assets, b.name = dataName a.digest ∧ b.name < a.name := by
      rw [hassets]
      decide
    obtain ⟨v, hv, hfile, -⟩ := hheld a ha
    exact ⟨text, _, env, htext, parse_moduleText hreached htext hsources, hrun, a, ha, hname,
      hcontent, v, hv, hfile hoverwritten⟩
  · have hassets := assets_brokenSource
    have hreserved : ∀ a ∈ (after brokenSource).assets, a.name ∉ reservedNames := by
      rw [hassets]
      decide
    obtain ⟨text, htext⟩ := exists_moduleText hreserved
    refine ⟨text, htext, ?_⟩
    exact parse_moduleText_eq_none (x := ['a']) (y := ['b']) (reached_after brokenSource) htext
      (hassets.trans (List.nil_append _).symm) (List.forall_mem_nil _) (by decide) (by decide)
      (by decide) fun rest => rfl

end Index

end Stencil
