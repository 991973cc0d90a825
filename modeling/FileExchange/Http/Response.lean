import FileExchange.Text.Utf8
import FileExchange.Time.HttpDate

/-!
# Responses

The head of a response, a short body kept beside it, and the fixed answers of the server.
-/

set_option autoImplicit false

namespace FileExchange

/-- There are two outcomes on the wire: found, and all else. -/
inductive Status where
  | ok
  | notFound
  deriving Repr, DecidableEq

namespace Status

def code : Status → Nat
  | .ok => 200
  | .notFound => 404

def phrase : Status → String
  | .ok => "OK"
  | .notFound => "Not Found"

def ofCode? (n : Int) : Option Status :=
  if n == 200 then some .ok else if n == 404 then some .notFound else none

end Status

/-- Fields in the order of their first appearance. -/
abbrev Fields := List (String × String)

namespace Fields

/-- A field given again keeps its place and takes the new value. -/
def insert (name value : String) : Fields → Fields
  | [] => [(name, value)]
  | (n, v) :: rest => if n == name then (n, value) :: rest else (n, v) :: insert name value rest

def ofList (pairs : List (String × String)) : Fields :=
  pairs.foldl (fun fields (name, value) => insert name value fields) []

end Fields

structure Response where
  status : Status := .ok
  fields : Fields := []
  body : Bytes := []
  version : String := "HTTP/1.0"
  deriving Repr, DecidableEq

namespace Response

def lineEnd : String := "\r\n"

def statusLine (r : Response) : String :=
  r.version ++ " " ++ toString r.status.code ++ " " ++ r.status.phrase

def fieldLine (field : String × String) : String :=
  field.1 ++ ": " ++ field.2

/-- The status line, the fields and the empty line that ends them. -/
def headText (r : Response) : String :=
  String.join ((r.statusLine :: r.fields.map fieldLine ++ [""]).map (· ++ lineEnd))

def head (r : Response) : Bytes :=
  Utf8.encode r.headText

def bytes (r : Response) : Bytes :=
  r.head ++ r.body

/-! ## Fixed answers -/

def htmlHead (status : Status) : Response :=
  { status := status, fields := [("Content-Type", "text/html")] }

def notFoundBody : String :=
  "<html><body><h1>404: Page Not Found</h1></body></html>"

/-- The one answer to everything that is not served. -/
def notFound : Response :=
  { htmlHead .notFound with body := Utf8.encode (notFoundBody ++ lineEnd) }

/-! ## Downloads -/

/-- Inside a quoted string a backslash stands before a quote and before a backslash. -/
def escapeQuotedChar (c : Char) : List Char :=
  if c == '\\' || c == '"' then ['\\', c] else [c]

def quotedString (s : String) : String :=
  String.ofList ('"' :: s.toList.flatMap escapeQuotedChar ++ ['"'])

/-- The head of a download: the type, the exact size, and the name to save it under. -/
def attachmentHead (now : Instant) (type : String) (size : Int) (fileName serverName : String) :
    Response :=
  { fields := [
      ("Server", serverName),
      ("Date", HttpDate.text now),
      ("Content-Type", type),
      ("Content-Length", toString size),
      ("Content-Disposition", "attachment; filename=" ++ quotedString fileName)] }

end Response

end FileExchange
