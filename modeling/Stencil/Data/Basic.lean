import Stencil.Data.Scalar

/-!
# Structured data

* `Data`: what a configuration file holds.
* `Data.find?`: the value of a key; `Data.shown`: the text of a value, if it `Data.isWritable`.
-/

namespace Stencil

/-- **Structured data**: scalars, days, lists, and mappings in the order of their keys. -/
inductive Data where
  | scalar (value : Scalar)
  /-- A day of the calendar. -/
  | date (year month day : Nat)
  | list (items : List Data)
  | map (entries : List (Data × Data))
  deriving Inhabited, Repr

namespace Data

def null : Data := scalar .null

def text (s : String) : Data := scalar (.text s)

/-- A number with at least the given number of digits. -/
def padded (width n : Nat) : String :=
  let digits := Nat.toDigits 10 n
  String.ofList (List.replicate (width - digits.length) '0' ++ digits)

mutual

/-- The text of a value as a part of another one. -/
def inspected : Data → String
  | scalar v => v.inspected
  | date y m d => "datetime.date(" ++ ", ".intercalate [toString y, toString m, toString d] ++ ")"
  | list items => "[" ++ ", ".intercalate (inspectedAll items) ++ "]"
  | map entries => "\x7b" ++ ", ".intercalate (inspectedEntries entries) ++ "\x7d"

/-- The texts of the items of a list. -/
def inspectedAll : List Data → List String
  | [] => []
  | d :: ds => d.inspected :: inspectedAll ds

/-- The texts of the entries of a mapping. -/
def inspectedEntries : List (Data × Data) → List String
  | [] => []
  | (k, v) :: es => (k.inspected ++ ": " ++ v.inspected) :: inspectedEntries es

end

/-- **The text of a value**: a text is itself. -/
def shown : Data → String
  | scalar v => v.shown
  | date y m d => padded 4 y ++ "-" ++ padded 2 m ++ "-" ++ padded 2 d
  | d => d.inspected

mutual

/-- **The value has a text**: all integers in it do. -/
def isWritable : Data → Bool
  | scalar v => v.isWritable
  | date .. => true
  | list items => allWritable items
  | map entries => entriesWritable entries

/-- All items of a list have texts. -/
def allWritable : List Data → Bool
  | [] => true
  | d :: ds => d.isWritable && allWritable ds

/-- All keys and values of a mapping have texts. -/
def entriesWritable : List (Data × Data) → Bool
  | [] => true
  | (k, v) :: es => k.isWritable && v.isWritable && entriesWritable es

end

/-- A text, if the value is one. -/
def text? : Data → Option String
  | scalar (.text s) => some s
  | _ => none

/-- Nothing, zero, or something without parts. -/
def isEmpty : Data → Bool
  | scalar .null | scalar (.bool false) | scalar (.int 0) | scalar (.text "") | list [] | map [] =>
    true
  | scalar (.float x) =>
    match x.view with
    | .finite _ 0 _ _ => true
    | _ => false
  | _ => false

/-- The value of a key in a list of entries. -/
def find? (entries : List (Data × Data)) (key : String) : Option Data :=
  (entries.find? fun e => e.1.text? == some key).map Prod.snd

end Data

end Stencil
