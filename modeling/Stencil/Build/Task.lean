import Stencil.Error
import Stencil.Order

/-!
# Tasks

Tasks do not depend on each other. Their outcomes are judged together, in the order of the tasks,
whatever the order in which they were finished.

* `Outcome`: what a task gave.
* `gather`: the values of all tasks, or the failure to report, with the lines to log.
-/

namespace Stencil.Build

/-- How grave a line of the log is. -/
inductive Level where
  | info
  | error
  deriving DecidableEq, Repr

/-- **A line of the log.** -/
structure LogLine where
  level : Level
  text : String
  deriving DecidableEq, Repr

def Level.label : Level → String
  | info => "INFO"
  | error => "ERROR"

/-- The text of a line. -/
def LogLine.shown (l : LogLine) : String := "[" ++ l.level.label ++ "] " ++ l.text

/-- **What a task gave**, with the key by which failures are put in order. -/
structure Outcome (α : Type) where
  key : String
  result : Except Error α

namespace Outcome

variable {α : Type}

/-- The fault of a task. -/
def fault? (o : Outcome α) : Option Fault :=
  match o.result with
  | .error (.fault f) => some f
  | _ => none

/-- The error of a task, with its key. -/
def failure? (o : Outcome α) : Option (String × Error) :=
  match o.result with
  | .error e => some (o.key, e)
  | .ok _ => none

/-- The value of a task. -/
def value? (o : Outcome α) : Option α :=
  match o.result with
  | .ok a => some a
  | .error _ => none

end Outcome

variable {α : Type}

/-- The failures of tasks, in the order of their keys. -/
def failures (outcomes : List (Outcome α)) : List (String × Error) :=
  sortBy (fun a b => textLe a.1 b.1) (outcomes.filterMap Outcome.failure?)

/-- The lines that report failures; more than one are counted. -/
def failureLines (failed : List (String × Error)) : List LogLine :=
  failed.map (fun f => ⟨.error, f.2.message⟩) ++
    (if failed.length > 1 then [⟨.error, toString failed.length ++ " templates failed"⟩] else [])

/-- **The values of all tasks, or the failure to report**, with the lines to log. The first fault
goes before all failures and is not logged; of the failures all are logged and the first one by key
is reported. -/
def gather (outcomes : List (Outcome α)) : List LogLine × Except Error (List α) :=
  match outcomes.findSome? Outcome.fault? with
  | some f => ([], .error (.fault f))
  | none =>
    match failures outcomes with
    | [] => ([], .ok (outcomes.filterMap Outcome.value?))
    | first :: others => (failureLines (first :: others), .error first.2)

end Stencil.Build
