import FileExchange.Media.Registry
import FileExchange.Path
import FileExchange.Text.Letters

/-!
# Media types of files

The media type of a file as its name tells it, and the way of serving a file that follows from it.
-/

set_option autoImplicit false

namespace FileExchange.Media

/-! ## The general registry -/

/-- A name cut at its last dot, unless nothing but dots stand before it in the last component. -/
def splitExtension (s : List Char) : List Char × List Char :=
  let back := s.reverse
  let tail := back.takeWhile fun c => c != '.' && c != '/'
  match back.drop tail.length with
  | '.' :: front =>
    if (front.takeWhile (· != '/')).all (· == '.') then (s, [])
    else (front.reverse, '.' :: tail.reverse)
  | _ => (s, [])

/-! ### Schemes

A name with a scheme is read as a reference: only what names the file behind the colon counts. A name has no slash, so
no host follows the colon.
-/

/-- The control characters and the space, which a reference is trimmed of in front. -/
def isControlOrSpace (c : Char) : Bool :=
  c.toNat ≤ 0x20

/-- The characters that do not count in a reference, wherever they stand. -/
def isLayout (c : Char) : Bool :=
  c == '\t' || c == '\n' || c == '\r'

def isSchemeChar (c : Char) : Bool :=
  c.isAlphanum || c == '+' || c == '-' || c == '.'

/-- A scheme begins with a letter, and a letter by itself is the name of a drive. -/
def isScheme : List Char → Bool
  | c :: rest => c.isAlpha && rest.all isSchemeChar && !rest.isEmpty
  | [] => false

/-- The characters of a name that count in it as a reference. -/
def referenceOf (s : List Char) : List Char :=
  (s.dropWhile isControlOrSpace).filter fun c => !isLayout c

/-- The schemes whose references carry parameters behind a semicolon. -/
def schemesWithParameters : List String :=
  ["ftp", "hdl", "prospero", "http", "imap", "https", "shttp", "rtsp", "rtsps", "rtspu", "sip", "sips", "mms", "sftp",
   "tel"]

/-- What names the file ends at the fragment, the query or the parameters. -/
def endsLocation (scheme : List Char) (c : Char) : Bool :=
  c == '#' || c == '?' || (c == ';' && schemesWithParameters.contains (String.ofList scheme))

/-- A scheme in front of a colon, in lower case, and what names the file behind it. -/
def splitScheme (s : List Char) : Option (List Char × List Char) :=
  let reference := referenceOf s
  let front := reference.takeWhile (· != ':')
  match reference.drop front.length with
  | ':' :: rest =>
    if isScheme front then
      let scheme := Text.lower front
      some (scheme, rest.takeWhile fun c => !endsLocation scheme c)
    else none
  | _ => none

/-- The type that a `data:` name announces in front of its comma. -/
def announcedType (s : List Char) : Option String :=
  if s.contains ',' then
    let front := s.takeWhile (· != ',')
    let type := front.takeWhile (· != ';')
    if type.contains '=' || !type.contains '/' then some "text/plain" else some (String.ofList type)
  else none

/-- An abbreviation stands for two extensions; the second of them is a packing. -/
def expandExtension (base ext : List Char) : List Char × List Char :=
  match abbreviations.lookup (String.ofList (Text.lower ext)) with
  | some long => splitExtension (base ++ long.toList)
  | none => (base, ext)

/-- The type of what a packing holds, or of the file itself where it is not packed. -/
def registeredTypeOf (s : List Char) : Option String :=
  let (base, ext) := splitExtension s
  let (base, ext) := expandExtension base ext
  let ext := if packings.contains (String.ofList ext) then (splitExtension base).2 else ext
  registeredTypes.lookup (String.ofList (Text.lower ext))

def guess (name : String) : Option String :=
  match splitScheme name.toList with
  | some (scheme, rest) =>
    if String.ofList scheme == "data" then announcedType rest else registeredTypeOf rest
  | none => registeredTypeOf name.toList

/-! ## Types of files -/

/-- The server's own table goes before the general registry. -/
def typeOf? (p : Path) : Option String :=
  match ownTypes.lookup (String.ofList (Text.lower p.suffix)) with
  | some type => some type
  | none => guess p.name

inductive Kind where
  | text
  | image
  | binary
  | unknown
  deriving Repr, DecidableEq

def Kind.name : Kind → String
  | .text => "text"
  | .image => "image"
  | .binary => "binary"
  | .unknown => "unknown"

def kindOf : Option String → Kind
  | none => .unknown
  | some type =>
    if Text.startsWith "text/" type then .text
    else if Text.startsWith "image/" type then .image
    else .binary

def fallbackType : String := "application/octet-stream"

def classify (p : Path) : Kind × String :=
  let type := typeOf? p
  (kindOf type, type.getD fallbackType)

end FileExchange.Media
