import Mathlib.Logic.Function.Basic
import Stencil.Proofs.ByteLiterals
import Stencil.Proofs.EmittedCode
import Stencil.Proofs.ImportLines

/-!
# Reading and running a module of static files

Such a module binds names, one statement after the other: to what is imported, to byte strings, to
static files, to a tuple and a table of them and to a function. It is read by its lines, and run
from its first statement to its last.

* `StaticsModule.Statement`: a statement; `StaticsModule.parse`: the statements of a text.
* `StaticsModule.Value`: what a name holds; `StaticsModule.run`: what the names hold at the end.
* `StaticsModule.Reads`: lines are read as statements, whatever lines follow.
* **`StaticsModule.parse_of_lines`**: a text is read by the lines it was made of.
-/

namespace Stencil.StaticsModule

open Text ImportLine

/-! ## Lines -/

/-- The text with a line feed for every line break. -/
def unifyBreaks : List Char → List Char
  | '\r' :: '\n' :: cs => '\n' :: unifyBreaks cs
  | '\r' :: cs => '\n' :: unifyBreaks cs
  | c :: cs => c :: unifyBreaks cs
  | [] => []

/-- A line that says nothing: it is blank, or all of it is a comment. -/
def isSilent (l : List Char) : Bool := (l.dropWhile CodeToken.isSpace).head?.all (· == '#')

/-! ## Statements -/

/-- **What a name is bound to**, as it is written. -/
inductive Source where
  | bytes (content : List UInt8)
  | expr (e : CodeExpr)
  | tuple (names : List String)
  /-- The files that a name holds, by their public names. -/
  | table (name : String)

/-- **A statement.** -/
inductive Statement where
  | imports (line : ImportLine)
  | assign (name : String) (source : Source)
  /-- A function of one parameter, with what it returns. -/
  | define (name param : String) (result : CodeExpr)

/-- A name at the start of a text, and the text after it. -/
def name? (cs : List Char) : Option (String × List Char) :=
  let n := String.ofList (cs.takeWhile isAsciiWord)
  if isIdentifier n && !isReserved n then some (n, cs.dropWhile isAsciiWord) else none

/-- The name that a line assigns to, and what is written after the equals sign. -/
def assignment? (l : List Char) : Option (String × List Char) := do
  let (n, cs) ← name? l
  return (n, ← after? " = ".toList cs)

/-- The whole text is one name. -/
def isName (cs : List Char) : Bool := (name? cs).any (·.2.isEmpty)

/-- A table of the files that a name holds, by their public names. -/
def table? : List Char → Option Source
  | '\x7b' :: cs =>
    match cs.splitOn ' ' with
    | [key, v, w, v', w', last] =>
      if key = v ++ ".name:".toList ∧ w = "for".toList ∧ v' = v ∧ w' = "in".toList ∧
          last = last.dropLast ++ ['\x7d'] ∧ isName v ∧ isName last.dropLast then
        some (.table (String.ofList last.dropLast))
      else none
    | _ => none
  | _ => none

/-- **What stands after an equals sign**, on one line. -/
def source? (cs : List Char) : Option Source :=
  match bytesLiteral? cs, table? cs with
  | some content, _ => some (.bytes content)
  | none, some t => some t
  | none, none => (CodeExpr.read cs).map .expr

/-- The name and the parameter of a function, as its first line says. -/
def head? (l : List Char) : Option (String × String) := do
  let (f, cs) ← name? (← after? "def ".toList l)
  let (p, cs) ← name? (← after? "(".toList cs)
  let cs ← after? ": ".toList cs
  let _ ← CodeExpr.read (cs.takeWhile (· ≠ ')'))
  let cs ← after? ") -> ".toList (cs.dropWhile (· ≠ ')'))
  let _ ← CodeExpr.read cs.dropLast
  if cs.getLast? = some ':' then return (f, p) else none

/-- A line of a function that only describes it. -/
def isDescription (l : List Char) : Bool :=
  (after? "    \"\"\"".toList l).any fun cs =>
    cs == cs.take (cs.length - 3) ++ "\"\"\"".toList &&
      (cs.take (cs.length - 3)).all fun c => !(c == '"' || c == '\\')

/-- What a function returns, as its last line says. -/
def result? (l : List Char) : Option CodeExpr := (after? "    return ".toList l).bind CodeExpr.read

/-- **Where a line stands**: outside, in the tuple that a name is bound to, of which some names have
been read, or in a function. -/
inductive Place where
  | outside
  | tuple (name : String) (names : List String)
  | function (name param : String)

/-- **The statements of lines.** -/
def read : Place → List (List Char) → Option (List Statement)
  | .outside, [] => some []
  | _, [] => none
  | place, l :: ls =>
    if isSilent l then read place ls
    else match place with
      | .outside =>
        match assignment? l with
        | some (n, cs) =>
          if cs = ['('] then read (.tuple n []) ls
          else (source? cs).bind fun s => (read .outside ls).map (.assign n s :: ·)
        | none =>
          match ImportLine.read? (String.ofList l) with
          | some i => (read .outside ls).map (.imports i :: ·)
          | none => (head? l).bind fun (f, p) => read (.function f p) ls
      | .tuple n ns =>
        if l.dropWhile CodeToken.isSpace = [')'] then
          (read .outside ls).map (.assign n (.tuple ns) :: ·)
        else (name? (l.dropWhile CodeToken.isSpace)).bind fun (m, cs) =>
          if cs = [','] then read (.tuple n (ns ++ [m])) ls else none
      | .function f p =>
        if isDescription l then read place ls
        else (result? l).bind fun e => (read .outside ls).map (.define f p e :: ·)

/-- **The statements of a text.** A text with a null character is none. -/
def parse (text : String) : Option (List Statement) :=
  if '\x00' ∈ text.toList then none
  else read .outside ((unifyBreaks text.toList).splitOn '\n')

/-! ## Running -/

/-- **What a name holds.** -/
inductive Value where
  | imported (points : Nat) (module : List String) (name : String)
  | bytes (content : List UInt8)
  | file (content : Value) (publicPath mime : List CodePoint)
  | tuple (items : List Value)
  /-- A table of files, by their public names. -/
  | table (files : List Value)
  | function (param : String) (result : CodeExpr)

def Value.isFile : Value → Bool
  | .file .. => true
  | _ => false

/-- What all names hold. -/
abbrev Names := String → Option Value

/-- The names with one more; one name cannot be bound. -/
def Names.bind (env : Names) (n : String) (v : Value) : Option Names :=
  if n = "__debug__" then none else some (Function.update env n (some v))

/-- The value of what is written. The only function that is called makes a record of a file. -/
def Source.value? (env : Names) : Source → Option Value
  | .bytes content => some (.bytes content)
  | .expr (.call (.name f) [.name c, .text publicPath, .text mime]) =>
    match env f with
    | some (.imported 1 ["_utils"] "StaticFile") => (env c).map (.file · publicPath mime)
    | _ => none
  | .expr _ => none
  | .tuple ns => (ns.mapM env).map .tuple
  | .table n =>
    match env n with
    | some (.tuple vs) => if vs.all Value.isFile then some (.table vs) else none
    | _ => none

/-- What the names hold after a statement, unless it fails. -/
def Statement.run (env : Names) : Statement → Option Names
  | .imports i => i.names.foldlM (fun env n => env.bind n.2 (.imported i.points i.module n.1)) env
  | .assign n s => (s.value? env).bind (env.bind n)
  | .define f p e => env.bind f (.function p e)

/-- **What the names hold after statements**, one after the other. -/
def run (statements : List Statement) (env : Names) : Option Names :=
  statements.foldlM Statement.run env

section Run

variable {env env' : Names} {n : String} {v : Value} {s : Statement} {ss ss' : List Statement}

theorem Names.bind_eq (h : n ≠ "__debug__") :
    env.bind n v = some (Function.update env n (some v)) := if_neg h

theorem run_cons (h : s.run env = some env') : run (s :: ss) env = run ss env' := by
  rw [run, List.foldlM_cons, h]
  rfl

theorem run_append (h : run ss env = some env') : run (ss ++ ss') env = run ss' env' := by
  rw [run, List.foldlM_append, ← run, h]
  rfl

theorem run_assign {source : Source} (hn : n ≠ "__debug__") (h : source.value? env = some v) :
    (Statement.assign n source).run env = some (Function.update env n (some v)) := by
  rw [Statement.run, h, Option.bind_some, Names.bind_eq hn]

/-- If one statement fails whatever was run before it, all fail. -/
theorem run_eq_none (hs : s ∈ ss) (h : ∀ env, s.run env = none) (env : Names) :
    run ss env = none := by
  induction ss generalizing env with
  | nil => cases hs
  | cons t ss ih =>
    rw [run, List.foldlM_cons]
    rcases List.mem_cons.mp hs with rfl | hs
    · rw [h]
      rfl
    · cases t.run env with
      | none => rfl
      | some env' => exact ih hs env'

/-- The names of a tuple hold something. -/
theorem exists_mapM {ns : List String} (h : ∀ m ∈ ns, ∃ v, env m = some v) :
    ∃ vs, ns.mapM env = some vs ∧ List.Forall₂ (fun m v => env m = some v) ns vs := by
  induction ns with
  | nil => exact ⟨[], rfl, .nil⟩
  | cons m ns ih =>
    rw [List.forall_mem_cons] at h
    obtain ⟨v, hv⟩ := h.1
    obtain ⟨vs, hvs, hall⟩ := ih h.2
    refine ⟨v :: vs, ?_, .cons hv hall⟩
    rw [List.mapM_cons, hv, hvs]
    rfl

end Run

/-! ## Names -/

/-- **A name that can be bound**: word characters, the first one no digit, and not reserved. -/
structure IsBindable (n : String) : Prop where
  word : ∀ c ∈ n.toList, isAsciiWord c = true
  identifier : isIdentifier n
  not_reserved : isReserved n = false

section Bindable

variable {n : String} {cs rest : List Char}

theorem isIdentifierStart_of_isDigit {c : Char} (h : c.isDigit = true) :
    isIdentifierStart c = false := by
  have hall : ∀ m < 58, 48 ≤ m → isIdentifierStart (Char.ofNat m) = false := by decide
  obtain ⟨hlower, hupper⟩ : 48 ≤ c.toNat ∧ c.toNat ≤ 57 := Char.isDigit_iff_toNat.mp h
  have hc := hall c.toNat (by omega) hlower
  rwa [Char.ofNat_toNat] at hc

theorem IsBindable.exists_cons (h : IsBindable n) :
    ∃ c cs, n.toList = c :: cs ∧ isAsciiWord c = true ∧ c.isDigit = false := by
  cases hn : n.toList with
  | nil => exact absurd hn (ne_nil_of_isIdentifier h.identifier)
  | cons c cs =>
    have hid := h.identifier
    rw [isIdentifier, hn, Bool.and_eq_true] at hid
    refine ⟨c, cs, rfl, h.word c (hn ▸ List.mem_cons_self), ?_⟩
    rw [← Bool.not_eq_true]
    intro hdigit
    rw [isIdentifierStart_of_isDigit hdigit] at hid
    cases hid.1

theorem name?_append (h : IsBindable n)
    (hrest : ∀ c, rest.head? = some c → isAsciiWord c = false) :
    name? (n.toList ++ rest) = some (n, rest) := by
  obtain ⟨htake, hdrop⟩ := takeWhile_run h.word hrest
  rw [name?, htake, hdrop, String.ofList_toList, if_pos (by simp [h.identifier, h.not_reserved])]

/-- **A name in code** is read as one. -/
theorem emits_bindable (h : IsBindable n) : CodeExpr.Emits true n [.word n] (.name n) := by
  obtain ⟨c, cs, hn, hword, hdigit⟩ := h.exists_cons
  have hne : ∀ w, isReserved w = true → n ≠ w := fun w hw he => by
    rw [← he, h.not_reserved] at hw
    cases hw
  refine CodeExpr.emits_word ?_ ⟨c, cs, hn, hdigit, ?_, ?_⟩ (hne _ (by decide +kernel)) ?_
  · exact List.all_eq_true.mpr fun d hd => isWord_of_isAsciiWord (h.word d hd)
  · rintro rfl
    exact absurd hword (by decide)
  · rintro rfl
    exact absurd hword (by decide)
  · rw [CodeExpr.ofWord?, if_neg (hne _ (by decide +kernel)), if_neg (hne _ (by decide +kernel)),
      if_neg (hne _ (by decide +kernel)), if_neg (by simp [h.not_reserved])]

/-- Spaces may stand before a name. -/
theorem dropWhile_spaces {spaces : List Char} (h : IsBindable n)
    (hspaces : ∀ c ∈ spaces, CodeToken.isSpace c = true) :
    (spaces ++ (n.toList ++ rest)).dropWhile CodeToken.isSpace = n.toList ++ rest := by
  obtain ⟨c, cs, hn, hword, -⟩ := h.exists_cons
  refine (takeWhile_run hspaces fun d hd => ?_).2
  rw [hn] at hd
  cases hd
  rw [← Bool.not_eq_true]
  intro hs
  simp only [CodeToken.isSpace, Bool.or_eq_true, beq_iff_eq] at hs
  rcases hs with (rfl | rfl) | rfl <;> exact absurd hword (by decide)

/-- A line with a name at its start says something. -/
theorem isSilent_eq_false {spaces : List Char} (h : IsBindable n)
    (hspaces : ∀ c ∈ spaces, CodeToken.isSpace c = true) :
    isSilent (spaces ++ (n.toList ++ rest)) = false := by
  obtain ⟨c, cs, hn, hword, -⟩ := h.exists_cons
  have hcomment : c ≠ '#' := by
    rintro rfl
    exact absurd hword (by decide)
  rw [isSilent, dropWhile_spaces h hspaces, hn]
  simpa using hcomment

theorem isSilent_name (h : IsBindable n) : isSilent (n.toList ++ rest) = false :=
  isSilent_eq_false h (List.forall_mem_nil _)

theorem assignment?_append (h : IsBindable n) :
    assignment? (n.toList ++ (" = ".toList ++ cs)) = some (n, cs) := by
  have hrest : ∀ c, (" = ".toList ++ cs).head? = some c → isAsciiWord c = false := by
    intro c hc
    cases hc
    decide
  rw [assignment?, name?_append h hrest]
  simp only [Option.bind_eq_bind, Option.bind_some, after?_append, Option.pure_def]

end Bindable

/-- What is neither a byte string nor a table is an expression. -/
theorem source?_of_read {cs : List Char} {e : CodeExpr} (hbytes : bytesLiteral? cs = none)
    (htable : table? cs = none) (hread : CodeExpr.read cs = some e) :
    source? cs = some (.expr e) := by
  rw [source?, hbytes, htable, hread]
  rfl

/-! ## Lines in a row -/

/-- **Lines are read as statements**, whatever lines follow. -/
def Reads (ls : List (List Char)) (ss : List Statement) : Prop :=
  ∀ rest, read .outside (ls ++ rest) = (read .outside rest).map (ss ++ ·)

section Reads

variable {l : List Char} {ls ls' : List (List Char)} {ss ss' : List Statement} {n : String}

theorem reads_nil : Reads [] [] := fun rest => by simp

theorem Reads.append (h : Reads ls ss) (h' : Reads ls' ss') : Reads (ls ++ ls') (ss ++ ss') := by
  intro rest
  rw [List.append_assoc, h, h', Option.map_map]
  simp only [Function.comp_def, List.append_assoc]

theorem reads_flatMap {α : Type} {f : α → List (List Char)} {g : α → List Statement}
    {xs : List α} (h : ∀ x ∈ xs, Reads (f x) (g x)) : Reads (xs.flatMap f) (xs.flatMap g) := by
  induction xs with
  | nil => exact reads_nil
  | cons x xs ih =>
    rw [List.forall_mem_cons] at h
    rw [List.flatMap_cons, List.flatMap_cons]
    exact h.1.append (ih h.2)

/-- A line is read where it stands. -/
theorem read_cons (place : Place) (l : List Char) (ls : List (List Char)) :
    read place (l :: ls) =
      if isSilent l then read place ls
      else match place with
        | .outside =>
          match assignment? l with
          | some (n, cs) =>
            if cs = ['('] then read (.tuple n []) ls
            else (source? cs).bind fun s => (read .outside ls).map (.assign n s :: ·)
          | none =>
            match ImportLine.read? (String.ofList l) with
            | some i => (read .outside ls).map (.imports i :: ·)
            | none => (head? l).bind fun (f, p) => read (.function f p) ls
        | .tuple n ns =>
          if l.dropWhile CodeToken.isSpace = [')'] then
            (read .outside ls).map (.assign n (.tuple ns) :: ·)
          else (name? (l.dropWhile CodeToken.isSpace)).bind fun (m, cs) =>
            if cs = [','] then read (.tuple n (ns ++ [m])) ls else none
        | .function f p =>
          if isDescription l then read place ls
          else (result? l).bind fun e => (read .outside ls).map (.define f p e :: ·) := by
  cases place <;> rfl

theorem reads_silent (h : isSilent l = true) : Reads [l] [] := by
  intro rest
  rw [List.singleton_append, read_cons, if_pos h]
  simp

/-- A name is bound on one line. -/
theorem reads_assign {cs : List Char} {s : Source} (h : IsBindable n) (hs : source? cs = some s)
    (hcs : cs ≠ ['(']) : Reads [n.toList ++ (" = ".toList ++ cs)] [.assign n s] := by
  intro rest
  have hsilent : ¬ isSilent (n.toList ++ (" = ".toList ++ cs)) = true :=
    Bool.eq_false_iff.mp (isSilent_name h)
  rw [List.singleton_append, read_cons, if_neg hsilent]
  simp only [assignment?_append h, if_neg hcs, hs, Option.bind_some]
  rfl

theorem reads_imports {i : ImportLine} (hsilent : isSilent l = false)
    (hassign : assignment? l = none) (h : ImportLine.read? (String.ofList l) = some i) :
    Reads [l] [.imports i] := by
  intro rest
  rw [List.singleton_append, read_cons, if_neg (by simp [hsilent])]
  simp only [hassign, h]
  rfl

/-- The names of a tuple stand on lines of their own. -/
theorem read_tuple_items {ms ns : List String} (h : ∀ m ∈ ms, IsBindable m)
    (rest : List (List Char)) :
    read (.tuple n ns) (ms.map (fun m => "    ".toList ++ (m.toList ++ [','])) ++ rest) =
      read (.tuple n (ns ++ ms)) rest := by
  induction ms generalizing ns with
  | nil => rw [List.map_nil, List.nil_append, List.append_nil]
  | cons m ms ih =>
    rw [List.forall_mem_cons] at h
    have hspaces : ∀ c ∈ "    ".toList, CodeToken.isSpace c = true :=
      List.all_eq_true.mp (by decide)
    have hitem : ("    ".toList ++ (m.toList ++ [','])).dropWhile CodeToken.isSpace =
        m.toList ++ [','] := dropWhile_spaces h.1 hspaces
    have hsilent : ¬ isSilent ("    ".toList ++ (m.toList ++ [','])) = true :=
      Bool.eq_false_iff.mp (isSilent_eq_false h.1 hspaces)
    have hclose : m.toList ++ [','] ≠ [')'] := by
      obtain ⟨c, cs, hm, hword, -⟩ := h.1.exists_cons
      rw [hm]
      intro he
      rw [(List.cons.inj he).1] at hword
      exact absurd hword (by decide)
    have hname : name? (m.toList ++ [',']) = some (m, [',']) :=
      name?_append h.1 fun c hc => by cases hc; decide
    rw [List.map_cons, List.cons_append, read_cons, if_neg hsilent]
    simp only [hitem, if_neg hclose, hname, Option.bind_some, if_true]
    rw [ih h.2, List.append_assoc, List.singleton_append]

/-- **A tuple of names**, each on a line of its own. -/
theorem reads_tuple {ms : List String} (h : IsBindable n) (hms : ∀ m ∈ ms, IsBindable m) :
    Reads ((n.toList ++ (" = ".toList ++ ['('])) ::
      (ms.map (fun m => "    ".toList ++ (m.toList ++ [','])) ++ [[')']]))
      [.assign n (.tuple ms)] := by
  intro rest
  have hsilent : ¬ isSilent (n.toList ++ (" = ".toList ++ ['('])) = true :=
    Bool.eq_false_iff.mp (isSilent_name h)
  rw [List.cons_append, List.append_assoc, read_cons, if_neg hsilent]
  simp only [assignment?_append h, if_true]
  rw [read_tuple_items hms, List.nil_append, List.singleton_append, read_cons, if_neg (by decide)]
  rfl

/-- A function of one parameter, with a line that describes it. -/
theorem reads_function {f p : String} {k m : List Char} {e : CodeExpr} (hl : isSilent l = false)
    (hassign : assignment? l = none) (himport : ImportLine.read? (String.ofList l) = none)
    (hhead : head? l = some (f, p)) (hk : isSilent k = false) (hdescribes : isDescription k = true)
    (hm : isSilent m = false) (hplain : isDescription m = false) (hresult : result? m = some e) :
    Reads [l, k, m] [.define f p e] := by
  intro rest
  rw [List.cons_append, read_cons, if_neg (by simp [hl])]
  simp only [hassign, himport, hhead, Option.bind_some]
  rw [List.cons_append, read_cons, if_neg (by simp [hk])]
  simp only [hdescribes, if_true]
  rw [List.cons_append, read_cons, if_neg (by simp [hm])]
  simp only [hplain, hresult, Option.bind_some]
  rfl

/-- Lines to the end of a text. -/
theorem Reads.read (h : Reads ls ss) : read .outside (ls ++ [[]]) = some ss := by
  rw [h, read_cons, if_pos (by decide)]
  exact congrArg some (List.append_nil ss)

end Reads

/-! ## Texts -/

/-- A line without the characters that end lines and the null character. -/
def IsPlainLine (l : List Char) : Prop := ∀ c ∈ l, c ∉ ['\n', '\r', '\x00']

instance : DecidablePred IsPlainLine := fun l =>
  List.decidableBAll (· ∉ ['\n', '\r', '\x00']) l

theorem IsPlainLine.append {a b : List Char} (ha : IsPlainLine a) (hb : IsPlainLine b) :
    IsPlainLine (a ++ b) := by
  intro c hc
  rcases List.mem_append.mp hc with hc | hc
  · exact ha c hc
  · exact hb c hc

theorem isPlainLine_of_words {l : List Char} (h : ∀ c ∈ l, isAsciiWord c = true) :
    IsPlainLine l := by
  have hends : ['\n', '\r', '\x00'].any isAsciiWord = false := by decide
  rw [List.any_eq_false] at hends
  exact fun c hc hend => hends c hend (h c hc)

theorem isPlainLine_of_printable {l : List Char} (h : ∀ c ∈ l, isPrintable (.ofChar c) = true) :
    IsPlainLine l := by
  have hends : ['\n', '\r', '\x00'].any (isPrintable <| .ofChar ·) = false := by decide +kernel
  rw [List.any_eq_false] at hends
  exact fun c hc hend => hends c hend (h c hc)

theorem isPlainLine_of_all {lines : List String}
    (h : (lines.all fun s => s.toList.all fun c => c ∉ ['\n', '\r', '\x00']) = true) :
    ∀ l ∈ lines.map String.toList, IsPlainLine l := by
  intro l hl
  obtain ⟨s, hs, rfl⟩ := List.mem_map.mp hl
  rw [List.all_eq_true] at h
  exact fun c hc => of_decide_eq_true (List.all_eq_true.mp (h s hs) c hc)

section Breaks

variable {l cs : List Char} {ls : List (List Char)}

theorem unifyBreaks_cons {c : Char} (h : c ≠ '\r') :
    unifyBreaks (c :: cs) = c :: unifyBreaks cs := by
  rw [unifyBreaks]
  · exact fun _ he _ => h he
  · exact h

theorem unifyBreaks_append (h : '\r' ∉ l) (cs : List Char) :
    unifyBreaks (l ++ '\n' :: cs) = l ++ '\n' :: unifyBreaks cs := by
  induction l with
  | nil => exact unifyBreaks_cons (by decide)
  | cons c l ih =>
    rw [List.mem_cons, not_or] at h
    rw [List.cons_append, unifyBreaks_cons (Ne.symm h.1), ih h.2, List.cons_append]

/-- A line ends where a line feed follows. -/
theorem splitOn_unifyBreaks (h : IsPlainLine l) (cs : List Char) :
    (unifyBreaks (l ++ '\n' :: cs)).splitOn '\n' = l :: (unifyBreaks cs).splitOn '\n' := by
  rw [unifyBreaks_append (fun hm => h _ hm (by decide)), List.splitOn_eq_splitOnP,
    List.splitOn_eq_splitOnP]
  refine List.splitOnP_append_cons_of_forall_mem (fun c hc => ?_) _ (by decide) _
  rw [beq_eq_false_iff_ne]
  rintro rfl
  exact h _ hc (by decide)

theorem splitOn_lines (h : ∀ l ∈ ls, IsPlainLine l) (cs : List Char) :
    (unifyBreaks (ls.flatMap (· ++ ['\n']) ++ cs)).splitOn '\n' =
      ls ++ (unifyBreaks cs).splitOn '\n' := by
  induction ls with
  | nil => rfl
  | cons l ls ih =>
    rw [List.forall_mem_cons] at h
    rw [List.flatMap_cons, List.append_assoc, List.append_assoc, List.singleton_append,
      splitOn_unifyBreaks h.1, ih h.2, List.cons_append]

end Breaks

/-- **A text is made of lines.** -/
def HasLines (text : String) (ls : List (List Char)) : Prop :=
  text.toList = ls.flatMap (· ++ ['\n'])

theorem hasLines_single (s : String) : HasLines (s ++ "\n") [s.toList] := by
  rw [HasLines, String.toList_append, List.flatMap_singleton]
  rfl

theorem HasLines.append {text text' : String} {ls ls' : List (List Char)} (h : HasLines text ls)
    (h' : HasLines text' ls') : HasLines (text ++ text') (ls ++ ls') := by
  rw [HasLines, String.toList_append, h, h', List.flatMap_append]

theorem hasLines_join {α : Type} {f : α → String} {g : α → List (List Char)} {xs : List α}
    (h : ∀ x ∈ xs, HasLines (f x) (g x)) : HasLines (String.join (xs.map f)) (xs.flatMap g) := by
  rw [HasLines, String.toList_join, List.flatMap_map, List.flatMap_assoc]
  exact List.flatMap_congr h

theorem hasLines_lines (lines : List String) :
    HasLines (String.join (lines.map (· ++ "\n"))) (lines.map String.toList) := by
  have hlines : HasLines (String.join (lines.map (· ++ "\n")))
      (lines.flatMap fun s => [s.toList]) := hasLines_join fun s _ => hasLines_single s
  rwa [← List.map_eq_flatMap] at hlines

section Parse

variable {text : String} {ls : List (List Char)}

/-- **A text is read by the lines it was made of.** -/
theorem parse_of_lines (h : HasLines text ls) (hls : ∀ l ∈ ls, IsPlainLine l) :
    parse text = read .outside (ls ++ [[]]) := by
  have hnull : '\x00' ∉ text.toList := by
    intro hm
    rw [h, List.mem_flatMap] at hm
    obtain ⟨l, hl, hm⟩ := hm
    rcases List.mem_append.mp hm with hm | hm
    · exact hls l hl _ hm (by decide)
    · exact absurd (List.mem_singleton.mp hm) (by decide)
  have hsplit := splitOn_lines hls []
  rw [List.append_nil, ← h] at hsplit
  rw [parse, if_neg hnull, hsplit]
  rfl

/-- **A text with a line that cannot be read cannot be read**, whatever stands after this line. -/
theorem parse_eq_none {ss : List Statement} {l cs : List Char}
    (h : text.toList = ls.flatMap (· ++ ['\n']) ++ (l ++ '\n' :: cs))
    (hls : ∀ l ∈ ls, IsPlainLine l) (hl : IsPlainLine l) (hreads : Reads ls ss)
    (hfails : ∀ rest, read .outside (l :: rest) = none) : parse text = none := by
  rw [parse]
  split
  · rfl
  · rw [h, splitOn_lines hls, splitOn_unifyBreaks hl, hreads, hfails, Option.map_none]

end Parse

end Stencil.StaticsModule
