import Stencil.CommandLine.Options
import Stencil.Config.Load
import Stencil.Report

/-!
# Running commands

* `CommandLine.execute`: runs a command on a disk; `CommandLine.Reply`: what the program answers.
-/

namespace Stencil.CommandLine

open Build

/-- **What the program answers**: its exit code and what it writes to its two streams. -/
structure Reply where
  exitCode : Nat
  output : String
  errors : String
  deriving DecidableEq, Repr

/-- What is written if the version is asked for. -/
def versionLine : String := "tplc " ++ Report.version ++ "\n"

/-- The settings of a command: relative paths start at the current directory. -/
def settings (processors : Option Nat) (disk : Disk) (root : Path) (o : Options) :
    Except Error Config := do
  let c ← Config.load processors disk root o.config
  c.withOverrides ⟨o.templates.map (root / ·), o.output.map (root / ·), o.package, o.workers⟩

/-- Runs a command; gives the settings and the result. -/
def perform (processors : Option Nat) (make : Asset.Preprocessor) (root : Path) (o : Options) :
    Action (Config × Result) := do
  let c ← MonadExcept.ofExcept (settings processors (← get).disk root o)
  return (c, ← runProject c make (o.command = .build))

/-- A report as a line. -/
def reportLine (d : Data) : String := d.json ++ "\n"

/-- What is written if a command succeeds. -/
def outputOf (root : Path) (o : Options) (c : Config) (r : Result) : String :=
  if o.json then reportLine (Report.ofResult root c r)
  else if o.command = .check then "OK: " ++ toString r.templates.length ++ " templates\n"
  else ""

/-- The log as it is written. -/
def logText (log : List LogLine) : String := String.join (log.map fun l => l.shown ++ "\n")

/-- The exit code for an error: that of files and directories differs from all others. -/
def exitCodeOf : Error → Nat
  | .io .. => 1
  | _ => 2

/-- The text of an error as it is written. -/
def errorText (e : Error) : String :=
  String.ofList (Text.trimEnd e.message.toList) ++ "\n"

/-- The answer to the outcome of a command; a fault has none. -/
def replyTo (root : Path) (o : Options) (log : List LogLine) :
    Except Error (Config × Result) → Except Fault Reply
  | .ok (c, r) => .ok ⟨0, outputOf root o c r, logText log⟩
  | .error (.fault f) => .error f
  | .error e =>
    .ok ⟨exitCodeOf e, if o.json then reportLine (Report.ofError e) else "",
      logText log ++ errorText e⟩

/-- **Runs a command on a disk**: the answer, and the disk as it is then. -/
def execute (processors : Option Nat) (make : Asset.Preprocessor) (disk : Disk) (o : Options) :
    Except Fault Reply × Disk :=
  let root : Path := ⟨"/", disk.current⟩
  let (outcome, state) := (perform processors make root o).run.run ⟨disk, []⟩
  (replyTo root o state.log outcome, state.disk)

end Stencil.CommandLine
