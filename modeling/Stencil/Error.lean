import Stencil.Problem
import Stencil.Source

/-!
# Errors of a build

* `Error`: the causes, each with what its text needs; `Error.message`: the one text of each.
* `Fault`: what ends a run without a message for the user.
-/

namespace Stencil

/-- What cannot be done with a file or a directory. -/
inductive IoProblem where
  | notADirectory
  | unreadableDirectory
  | unreadableTemplate
  | unreadableStatic
  | unreadableOutput
  | unwritableOutput
  | missingConfiguration
  | unreadableConfiguration
  | other (text : String)
  deriving DecidableEq, Repr

/-- The text of a file problem. -/
def IoProblem.message : IoProblem → String
  | notADirectory => "Not a directory"
  | unreadableDirectory => "Cannot read directory"
  | unreadableTemplate => "Cannot read template"
  | unreadableStatic => "Cannot read static file"
  | unreadableOutput => "Cannot read generated file"
  | unwritableOutput => "Cannot write generated file"
  | missingConfiguration => "Configuration file not found"
  | unreadableConfiguration => "Cannot read configuration"
  | other text => text

/-- What is wrong with a configuration. -/
inductive ConfigProblem where
  | unknownKeys (place : String) (keys : List String)
  | notTexts (place : String)
  | entryNotMapping
  | entryWithoutDir
  | staticNotMapping
  | entriesNotList
  | badPackage (shown : String)
  | workersNotInteger
  | workersNotPositive (n : Int)
  | invalidYaml (path : String)
  | notMapping (path : String)
  | other (text : String)
  deriving DecidableEq, Repr

/-- The text of a configuration problem. -/
def ConfigProblem.message : ConfigProblem → String
  | unknownKeys place keys => "Unknown key(s) in " ++ place ++ ": " ++ ", ".intercalate keys
  | notTexts place => "'" ++ place ++ "' must be a string or a list of strings"
  | entryNotMapping => "Each 'static.files_as' entry must be a mapping with 'dir' and 'prefix'"
  | entryWithoutDir => "'static.files_as' entry requires 'dir'"
  | staticNotMapping => "'static' must be a mapping"
  | entriesNotList => "'static.files_as' must be a list"
  | badPackage shown => "Package name must be a Python identifier: " ++ shown
  | workersNotInteger => "'workers' must be an integer"
  | workersNotPositive n => "'workers' must be a positive integer, got " ++ toString n
  | invalidYaml path => "Invalid YAML in " ++ path
  | notMapping path => "YAML must be a mapping: " ++ path
  | other text => text

/-- What a duplicate name is the name of. -/
inductive NameKind where
  | template
  | static
  | publicPath
  deriving DecidableEq, Repr

/-- The word for a kind of name. -/
def NameKind.label : NameKind → String
  | template => "template"
  | static => "static"
  | publicPath => "static public"

/-- **What ends a run without a message for the user.** -/
inductive Fault where
  /-- A number has no digits, or more decimal digits than can be read or written. -/
  | unreadableNumber
  /-- An unknown configuration key is no text. -/
  | keyNotText
  /-- The configuration file is not well-formed UTF-8. -/
  | undecodableConfiguration
  /-- A regular file stands where a directory is needed. -/
  | notADirectory
  /-- A directory stands where a regular file is needed. -/
  | isADirectory
  /-- A path without a file name is to get another suffix. -/
  | noFileName
  /-- A path does not lie below the directory that it is to be seen from. -/
  | outside
  /-- The bound on the number of steps was reached. -/
  | outOfSteps
  deriving DecidableEq, Repr

/-- **How a build fails.** -/
inductive Error where
  | general (text : String)
  | io (problem : IoProblem) (path : String)
  | parse (problem : Problem) (place : Place)
  | duplicate (kind : NameKind) (name first second : String)
  | stylesheet (reason path : String)
  | config (problem : ConfigProblem)
  | fault (fault : Fault)
  deriving DecidableEq, Repr

namespace Error

/-- **The text of an error**; a fault has none. -/
def message : Error → String
  | general text => text
  | io problem path => problem.message ++ ": " ++ path
  | parse problem place => place.describe problem.message
  | duplicate kind name first second =>
    "Duplicate " ++ kind.label ++ " name '" ++ name ++ "': " ++ first ++ " and " ++ second
  | stylesheet reason path => "Stylesheet preprocessor failed for " ++ path ++ ": " ++ reason
  | config problem => problem.message
  | fault _ => ""

end Error

/-- **A failure as an error at a place of its source.** -/
def Source.error (s : Source) : Failure → Error
  | .at problem position => .parse problem (s.place position)
  | .unreadableNumber => .fault .unreadableNumber
  | .outOfSteps => .fault .outOfSteps

/-- The result of reading a source, with its failure as an error. -/
def Source.lift {α : Type} (s : Source) : Except Failure α → Except Error α
  | .ok a => .ok a
  | .error f => .error (s.error f)

end Stencil
