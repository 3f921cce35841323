import Stencil.Digest.Base64
import Stencil.Digest.Md5
import Stencil.Path
import Stencil.Text.DecimalDigit
import Stencil.Text.Identifier
import Stencil.Text.Word

/-!
# Names and types of static files

* `Asset.logicalName`: the identifier under which templates know a file.
* `Asset.token`, `Asset.hashedName`: a file name that changes with the content.
* `Asset.mimeOf`: the type that goes with an extension.
-/

namespace Stencil.Asset

open Text

/-- **The identifier of a path**: everything that cannot stand in one becomes an underscore; an
underscore goes before a digit and after a reserved word. -/
def logicalName (path : String) : String :=
  let cs := path.toList.map fun c => if isAsciiWord c then c else '_'
  let name := String.ofList (if cs.head?.all isDigit then '_' :: cs else cs)
  if isReserved name then name ++ "_" else name

/-- The number of bytes of a digest that a token shows. -/
def tokenBytes : Nat := 6

/-- **The token of a content**: the first bytes of its digest as text. -/
def token (content : List UInt8) : String :=
  String.ofList (Base64.encode Base64.urlSafe ((Md5.digest content).take tokenBytes))

/-- A file name cut before the point of its extension; a name that starts with its only point has no
extension. -/
def splitExtension (name : String) : Option (String × String) :=
  match Path.splitLastPoint name.toList with
  | some ([], _) => none
  | some (before, after) => some (String.ofList before, String.ofList after)
  | none => none

/-- **The public name of a file**: the token of its content stands before its extension. -/
def hashedName (name : String) (content : List UInt8) : String :=
  match splitExtension name with
  | some (before, after) => before ++ "-" ++ token content ++ "." ++ after
  | none => name ++ "-" ++ token content

/-- The extension of a file name, without its point. -/
def extension (name : String) : String := ((splitExtension name).map Prod.snd).getD ""

/-! ## Types -/

/-- The type of files with an unknown extension. -/
def defaultMime : String := "application/octet-stream"

/-- The types of known extensions. -/
def mimeTypes : List (String × String) := [
  ("avif", "image/avif"),
  ("bmp", "image/bmp"),
  ("css", "text/css"),
  ("csv", "text/csv"),
  ("eot", "application/vnd.ms-fontobject"),
  ("gif", "image/gif"),
  ("htm", "text/html"),
  ("html", "text/html"),
  ("ico", "image/x-icon"),
  ("jpeg", "image/jpeg"),
  ("jpg", "image/jpeg"),
  ("js", "application/javascript"),
  ("json", "application/json"),
  ("jsonp", "application/javascript"),
  ("map", "application/json"),
  ("mjs", "application/javascript"),
  ("mp3", "audio/mpeg"),
  ("mp4", "video/mp4"),
  ("otf", "font/otf"),
  ("pdf", "application/pdf"),
  ("png", "image/png"),
  ("svg", "image/svg+xml"),
  ("ttf", "font/ttf"),
  ("txt", "text/plain"),
  ("wasm", "application/wasm"),
  ("webm", "video/webm"),
  ("webp", "image/webp"),
  ("woff", "font/woff"),
  ("woff2", "font/woff2"),
  ("xml", "application/xml")]

/-- **The type that goes with an extension**, in any case. -/
def mimeOf (extension : String) : String :=
  (mimeTypes.lookup (String.ofList (extension.toList.map Char.toLower))).getD defaultMime

end Stencil.Asset
