import Stencil.CommandLine.Run
import Stencil.Disk.Tree

/-!
# The program

The files that a command may read are named on standard input, one a line; a name that ends with a
slash is that of a directory. What a command adds or changes is written when it has ended.
-/

namespace Stencil.CommandLine

/-- The help of the program. -/
def usage : String :=
  "usage: tplc [-h] [--version] [-v] (build | check) [--config FILE] [--templates DIR]\n" ++
  "            [--output DIR] [--package NAME] [--workers N] [--json]\n" ++
  "The files of the project are named on standard input, one a line.\n"

/-- The lines of standard input, without their ends. -/
partial def inputLines (lines : List String) : IO (List String) := do
  let line ← (← IO.getStdin).getLine
  if line.isEmpty then return lines.reverse
  inputLines ((line.dropEndWhile (· = '\n')).toString :: lines)

/-- Puts a named file or directory of the machine on a disk. -/
def supply (disk : Disk) (name : String) : IO Disk := do
  let p := Path.parse name
  if name.endsWith "/" then return ((Disk.makeDirs p).run.run disk).2
  let bytes ← IO.FS.readBinFile name
  let action : Disk.Action Unit := do
    Disk.makeDirs p.parent
    Disk.write p bytes.toList
  return (action.run.run disk).2

/-- Writes a file of the machine, or makes a directory. -/
def store (place : List String) (t : FileTree) : IO Unit :=
  let name := (Path.mk "/" place).toString
  match t with
  | .file content => IO.FS.writeBinFile name ⟨content.toArray⟩
  | .dir _ => IO.FS.createDirAll name

/-- Runs a command on the named files, writes what it adds and gives its answer. -/
def runNamed (o : Options) : IO UInt32 := do
  let current := Path.parse ((← IO.getEnv "PWD").getD "/")
  let names := (← inputLines []).filter (!·.isEmpty)
  let before ← names.foldlM supply (Disk.empty current.parts)
  let (answer, after) := execute none (Asset.Preprocessor.ofCompiler none) before o
  for (place, t) in before.tree.additions after.tree do
    store place t
  match answer with
  | .ok reply =>
    IO.print reply.output
    IO.eprint reply.errors
    return reply.exitCode.toUInt32
  | .error _ =>
    IO.eprintln "stopped without an answer"
    return 1

end Stencil.CommandLine

open Stencil.CommandLine in
/-- Reads the arguments and does what they ask for. -/
def main (args : List String) : IO UInt32 := do
  match Request.parse args with
  | none =>
    IO.eprint usage
    return 2
  | some .help =>
    IO.print usage
    return 0
  | some .version =>
    IO.print versionLine
    return 0
  | some (.run o) => runNamed o
