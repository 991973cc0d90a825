import FileExchange.Text.Blank
import FileExchange.Text.Percent
import FileExchange.Text.Quoted

/-!
# Request lines

The one line that a connection carries: `GET <target> <version>` asks for a file or a directory,
`UPLOAD <name>` announces a file whose bytes follow the line.
-/

set_option autoImplicit false

namespace FileExchange

inductive Method where
  | get
  | upload
  | unknown
  deriving Repr, DecidableEq

namespace Method

/-- Methods are spelled in capitals. -/
def ofToken (token : String) : Method :=
  if token == "GET" then .get else if token == "UPLOAD" then .upload else .unknown

def name : Method → String
  | .get => "GET"
  | .upload => "UPLOAD"
  | .unknown => "UNKNOWN"

end Method

/-- The target of a `GET` is the decoded path; of an `UPLOAD` it is the name as it stands. -/
structure Request where
  method : Method
  target : String
  rest : String
  raw : String
  deriving Repr, DecidableEq

namespace Request

inductive Malformed where
  | absent
  | blank
  | tokenCount (method : Method) (expected found : Nat)
  | unknownMethod (line : String)
  deriving Repr, DecidableEq

def Malformed.message : Malformed → String
  | .absent => "Connection closed before a request line was sent"
  | .blank => "Empty request line"
  | .tokenCount method expected found =>
    method.name ++ " request line must have " ++ toString expected ++ " tokens, got " ++
      toString found
  | .unknownMethod line => "Unknown method in request line: " ++ Quoted.quote line

/-! ## Reading -/

/-- A line without the line feed at its end and a carriage return before that. -/
def dropTerminator (line : Bytes) : Bytes :=
  let body := if line.getLast? == some 0x0A then line.dropLast else line
  if body.getLast? == some 0x0D then body.dropLast else body

def decodeLine (line : Bytes) : String :=
  Utf8.decode (dropTerminator line)

/-- The decoded path in front of the query; an empty one stands for the root. -/
def targetOf (uri : List Char) : String :=
  let path := Percent.decodeChars (uri.takeWhile (· != '?'))
  if path.isEmpty then "/" else String.ofList path

def ofWords (line : String) : List (List Char) → Except Malformed Request
  | [] => .error .blank
  | first :: rest =>
    match Method.ofToken (String.ofList first) with
    | .get =>
      match rest with
      | [uri, version] => .ok ⟨.get, targetOf uri, String.ofList version, line⟩
      | _ => .error (.tokenCount .get 3 (rest.length + 1))
    | .upload =>
      match rest with
      | [name] => .ok ⟨.upload, String.ofList name, "", line⟩
      | _ => .error (.tokenCount .upload 2 (rest.length + 1))
    | .unknown => .error (.unknownMethod line)

/-- The request of a line, or of a connection that ended before it sent one. -/
def parse : Option String → Except Malformed Request
  | none => .error .absent
  | some line => ofWords line (Text.words line.toList)

def isUpload (r : Request) : Bool :=
  r.method == .upload

end Request

end FileExchange
