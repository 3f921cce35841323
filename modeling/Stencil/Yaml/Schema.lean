import Stencil.Data.Basic
import Stencil.Decimal.Read
import Stencil.Yaml.Node

/-!
# The data of configuration texts

* `Yaml.plainData`: what a plain scalar means by its looks.
* `Yaml.Node.toData`: the data of a node; keys are not repeated.
* `Yaml.parse`: the data of a text.
-/

namespace Stencil.Yaml

/-! ## Scalars -/

/-- A text without its sign, and whether the sign is a minus. -/
def splitSign : List Char → Bool × List Char
  | '-' :: cs => (true, cs)
  | '+' :: cs => (false, cs)
  | cs => (false, cs)

/-- A text that has characters, all of which pass a test or are underscores. -/
def isRun (test : Char → Bool) (cs : List Char) : Bool :=
  !cs.isEmpty && cs.all fun c => test c || c = '_'

/-- A digit of the base eight. -/
def isOctal (c : Char) : Bool := '0' ≤ c && c ≤ '7'

/-- A digit of the base two. -/
def isBinary (c : Char) : Bool := c = '0' || c = '1'

/-- A text that writes an integer, in base ten or with the mark of another base. -/
def looksInteger (cs : List Char) : Bool :=
  match (splitSign cs).2 with
  | '0' :: 'b' :: ds => isRun isBinary ds
  | '0' :: 'o' :: ds => isRun isOctal ds
  | '0' :: 'x' :: ds => isRun Text.isHexDigit ds
  | ds => isRun Char.isDigit ds

/-- The integer of digits in a base; there must be some. -/
def digitsIn (base : Nat) (digits : List Char) : Except Problem Nat :=
  match digits.mapM fun c => (Text.hexValue? c).filter (· < base) with
  | some (d :: ds) => .ok (Text.ofDigits base (d :: ds))
  | _ => .error .unreadableNumber

/-- **The integer of a text.** -/
def integerOf (cs : List Char) : Except Problem Int := do
  let (negative, digits) := splitSign (withoutUnderscores cs)
  let n ←
    match digits with
    | '0' :: 'b' :: ds => digitsIn 2 ds
    | '0' :: 'o' :: ds => digitsIn 8 ds
    | '0' :: 'x' :: ds => digitsIn 16 ds
    | ds => if ds.length > maxDecimalDigits then throw .unreadableNumber else digitsIn 10 ds
  return if negative then -(n : Int) else n

/-- An exponent with its letter; `signed` says that it must have a sign. -/
def isExponent (signed : Bool) : List Char → Bool
  | c :: cs =>
    let hasSign := cs.head?.any fun d => d = '+' || d = '-'
    (c = 'e' || c = 'E') && (hasSign || !signed) &&
      !(splitSign cs).2.isEmpty && (splitSign cs).2.all Char.isDigit
  | [] => false

/-- A text that writes a number with a point or an exponent. -/
def looksReal (cs : List Char) : Bool :=
  let ds := (splitSign cs).2
  let isDigit (c : Char) : Bool := c.isDigit || c = '_'
  let whole := ds.takeWhile isDigit
  match ds.dropWhile isDigit with
  | '.' :: rest =>
    let fraction := rest.takeWhile isDigit
    let exponent := rest.dropWhile isDigit
    if whole.isEmpty then
      (!fraction.isEmpty && (exponent.isEmpty || isExponent true exponent)) ||
        [".inf", ".Inf", ".INF"].contains (String.ofList ds) ||
        [".nan", ".NaN", ".NAN"].contains (String.ofList cs)
    else whole.head? != some '_' && (exponent.isEmpty || isExponent false exponent)
  | rest => !whole.isEmpty && whole.head? != some '_' && isExponent false rest

/-- **The number of a text** with a point or an exponent. -/
def realOf (cs : List Char) : Except Problem Binary64 := do
  let (negative, digits) := splitSign ((withoutUnderscores cs).map Char.toLower)
  let x ←
    if digits = ".inf".toList then pure .infinity
    else if digits = ".nan".toList then pure .undefined
    else if digits.any Char.isDigit then pure (.ofText digits)
    else throw .unreadableNumber
  return if negative then x.neg else x

/-- The number of days of a month. -/
def daysIn (year month : Nat) : Nat :=
  if month = 2 then
    if year % 4 = 0 && (year % 100 != 0 || year % 400 = 0) then 29 else 28
  else if [4, 6, 9, 11].contains month then 30
  else 31

/-- The number of some digits; none if one is no digit. -/
def naturalOf? (cs : List Char) : Option Nat :=
  if cs.all Char.isDigit then some (decimalOf cs) else none

/-- A text that writes a day: year, month and day with dashes between them. -/
def dayOf? : List Char → Option (Nat × Nat × Nat)
  | [a, b, c, d, '-', e, f, '-', g, h] => do
    return (← naturalOf? [a, b, c, d], ← naturalOf? [e, f], ← naturalOf? [g, h])
  | _ => none

/-- The data of a day, which must exist. -/
def dateData (day : Nat × Nat × Nat) : Except Problem Data :=
  let (y, m, d) := day
  if 1 ≤ y ∧ 1 ≤ m ∧ m ≤ 12 ∧ 1 ≤ d ∧ d ≤ daysIn y m then .ok (.date y m d)
  else .error .unreadableNumber

/-- The words for nothing. -/
def nullWords : List String := ["", "~", "null", "Null", "NULL"]

def trueWords : List String := ["true", "True", "TRUE"]

def falseWords : List String := ["false", "False", "FALSE"]

/-- The key that merges a mapping into another one. -/
def mergeKey : List Char := ['<', '<']

/-- The key of a default value. -/
def defaultKey : List Char := ['=']

/-- **What a plain scalar means by its looks**: nothing, a truth value, a number, a day, a text. -/
def plainData (cs : List Char) : Except Problem Data :=
  let s := String.ofList cs
  if nullWords.contains s then .ok .null
  else if trueWords.contains s then .ok (.scalar (.bool true))
  else if falseWords.contains s then .ok (.scalar (.bool false))
  else if looksReal cs then (realOf cs).map fun x => .scalar (.float x)
  else if cs.head? != some '_' && looksInteger cs then
    (integerOf cs).map fun n => .scalar (.int n)
  else
    match dayOf? cs with
    | some day => dateData day
    | none =>
      if cs = mergeKey || cs = defaultKey then .error (.unknownTag s) else .ok (.text s)

/-- The words of truth values after a tag. -/
def taggedWords : List (String × Bool) := [
  ("yes", true), ("no", false), ("y", true), ("n", false), ("true", true), ("false", false),
  ("on", true), ("off", false)]

/-- The data of a scalar with a tag. -/
def taggedData (tag : String) (cs : List Char) : Except Problem Data :=
  if tag = coreTags ++ "str" then .ok (.text (String.ofList cs))
  else if tag = coreTags ++ "null" then .ok .null
  else if tag = coreTags ++ "int" then (integerOf cs).map fun n => .scalar (.int n)
  else if tag = coreTags ++ "float" then (realOf cs).map fun x => .scalar (.float x)
  else if tag = coreTags ++ "bool" then
    match taggedWords.lookup (String.ofList (cs.map Char.toLower)) with
    | some b => .ok (.scalar (.bool b))
    | none => .error (.unknownTag tag)
  else .error (.unknownTag tag)

/-! ## Mappings -/

/-- Two keys are the same: numbers and truth values are compared by value. -/
def sameKey : Data → Data → Bool
  | .scalar a, .scalar b => number a == number b
  | .date y m d, .date y' m' d' => y = y' && m = m' && d = d'
  | _, _ => false
where
  /-- A truth value as a number. -/
  number : Scalar → Scalar
    | .bool b => .int (if b then 1 else 0)
    | s => s

/-- The entries with another value for a key, which keeps its place if it has one. -/
def putEntry (key value : Data) : List (Data × Data) → List (Data × Data)
  | [] => [(key, value)]
  | (k, v) :: es => if sameKey k key then (k, value) :: es else (k, v) :: putEntry key value es

/-- Entries over other ones. -/
def putEntries (below above : List (Data × Data)) : List (Data × Data) :=
  above.foldl (fun es e => putEntry e.1 e.2 es) below

/-- The entries that data to be merged gives: a mapping, or a list of mappings of which the first
one goes before the others. -/
def mergedEntries : Data → Except Problem (List (Data × Data))
  | .map es => .ok es
  | .list items => do
    let maps ← items.mapM fun
      | .map es => .ok es
      | _ => .error .badMerge
    return maps.reverse.foldl putEntries []
  | _ => .error .badMerge

/-- An entry of a mapping: a key with its value, or data to be merged. -/
inductive Entry where
  | pair (key value : Data)
  | merge (value : Data)

/-- The entries that are not merged; their keys must differ if nothing is merged. -/
def ownEntries (checked : Bool) : List (Data × Data) → List Entry →
    Except Problem (List (Data × Data))
  | es, [] => .ok es
  | es, .merge _ :: l => ownEntries checked es l
  | es, .pair k v :: l =>
    if checked && es.any (sameKey k ·.1) then .error .repeatedKey
    else ownEntries checked (putEntry k v es) l

/-- **The data of a mapping**: own entries go before merged ones. -/
def mappingData (entries : List Entry) : Except Problem Data := do
  let merged := entries.filterMap fun
    | .merge d => some d
    | .pair _ _ => none
  match merged with
  | [] => .map <$> ownEntries true [] entries
  | [d] => .map <$> (putEntries (← mergedEntries d) <$> ownEntries false [] entries)
  | _ => .error .repeatedKey

/-- A tag of a collection is the usual one. -/
def checkTag (tag : Option String) (name : String) : Except Problem Unit :=
  match tag with
  | some t => if t = coreTags ++ name then .ok () else .error (.unknownTag t)
  | none => .ok ()

mutual

/-- **The data of a node.** -/
def Node.toData : Node → Except Problem Data
  | .scalar none text true => plainData text
  | .scalar none text false => .ok (.text (String.ofList text))
  | .scalar (some tag) text _ => taggedData tag text
  | .sequence tag items => do
    checkTag tag "seq"
    return .list (← dataOfItems items)
  | .mapping tag entries => do
    checkTag tag "map"
    mappingData (← dataOfEntries entries)

/-- The data of the items of a sequence. -/
def dataOfItems : List Node → Except Problem (List Data)
  | [] => .ok []
  | n :: ns => do return (← n.toData) :: (← dataOfItems ns)

/-- The entries of a mapping. -/
def dataOfEntries : List (Node × Node) → Except Problem (List Entry)
  | [] => .ok []
  | (.scalar tag text plain, v) :: es => do
    let entry ←
      if tag.isNone && plain && text = mergeKey then pure (.merge (← v.toData))
      else if tag.isNone && plain && text = defaultKey then
        pure (.pair (.text (String.ofList text)) (← v.toData))
      else pure (.pair (← Node.toData (.scalar tag text plain)) (← v.toData))
    return entry :: (← dataOfEntries es)
  | (.sequence tag items, v) :: es => do
    checkTag tag "seq"
    let key := Data.list (← dataOfItems items)
    let entry := Entry.pair key (← v.toData)
    return entry :: (← dataOfEntries es)
  | (.mapping _ _, _) :: _ => .error .mappingAsKey

end

/-- **The data of a text.** An empty text is nothing. -/
def parse (text : List Char) : Except Problem Data := do
  match ← document text with
  | none => return .null
  | some n => n.toData

end Stencil.Yaml
