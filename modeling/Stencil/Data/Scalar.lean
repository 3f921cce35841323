import Stencil.Decimal.Read
import Stencil.Decimal.Shortest
import Stencil.Text.Quoted

/-!
# Scalar values

* `Scalar.shown`: the text of a value; `Scalar.inspected`: the text inside a list, where texts stand
  in quotes.
* `Scalar.isWritable`: the values that have a text.
-/

namespace Stencil

/-- **A value without parts.** -/
inductive Scalar where
  | null
  | bool (b : Bool)
  | int (n : Int)
  | float (x : Binary64)
  | text (s : String)
  deriving DecidableEq, Repr

/-- **The text of a value as a part of another one.** -/
def Scalar.inspected : Scalar → String
  | null => "None"
  | bool true => "True"
  | bool false => "False"
  | int n => toString n
  | float x => x.text .literal
  | text s => Text.quote s

/-- An integer whose decimal digits can be written, or another value. -/
def Scalar.isWritable : Scalar → Bool
  | int n => n.natAbs < Nat.pow 10 maxDecimalDigits
  | _ => true

/-- **The text of a value.** -/
def Scalar.shown : Scalar → String
  | text s => s
  | v => v.inspected

end Stencil
