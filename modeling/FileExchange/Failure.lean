import FileExchange.Fault
import FileExchange.Number.Integer

/-!
# Failures

Everything that can keep an operation of this library from its result, by cause.
-/

set_option autoImplicit false

namespace FileExchange

inductive Refusal where
  | invalid (name : String)
  | hasSeparator (name : String)
  | hasControl (name : String)
  | escapes (name : String)
  deriving Repr, DecidableEq

def Refusal.message : Refusal → String
  | .invalid name => "Invalid upload name: " ++ Quoted.quote name
  | .hasSeparator name => "Upload name must not contain path separators: " ++ Quoted.quote name
  | .hasControl name => "Upload name must not contain control characters: " ++ Quoted.quote name
  | .escapes name => "Upload name escapes the upload directory: " ++ Quoted.quote name

inductive Defect where
  | port (port : Int) (least : Nat)
  | tooSmall (field : String)
  | timeout
  | logFormat (format : String)
  | root (directory : String)
  deriving Repr, DecidableEq

def Defect.message : Defect → String
  | .port number least =>
    "Invalid port: " ++ toString number ++ ". Must be " ++ toString least ++ "-65535."
  | .tooSmall field => field ++ " must be >= 1"
  | .timeout => "timeout must be > 0"
  | .logFormat format => "Invalid log_format: " ++ format ++ ". Use 'text' or 'json'."
  | .root directory => "Server root is not a directory: " ++ directory

inductive Failure where
  | system (fault : Fault)
  | embeddedNul
  | linkLoop (path : String)
  | refused (refusal : Refusal)
  | lineTooLong (limit : Nat)
  | misconfigured (defect : Defect)
  | unreadable (cause : Number.Unreadable)
  /-- A run of characters at a place of a page that must be ASCII. -/
  | notAscii (run : List Char) (position : Nat)
  | unknownLevel (text : String)
  | unsendable (name : String)
  /-- A percent sign that is followed by this character. -/
  | strayPercent (next : Char) (position : Nat)
  /-- A value that a call does not take, in the words of the call. -/
  | unfit (complaint : String)
  deriving Repr, DecidableEq

namespace Failure

def escapeOf (c : Char) : List Char :=
  if c.toNat < 0x100 then '\\' :: 'x' :: Quoted.hex 2 c.toNat
  else if c.toNat < 0x10000 then '\\' :: 'u' :: Quoted.hex 4 c.toNat
  else '\\' :: 'U' :: Quoted.hex 8 c.toNat

def notAsciiPlace (run : List Char) (position : Nat) : String :=
  match run with
  | [c] => "character '" ++ String.ofList (escapeOf c) ++ "' in position " ++ toString position
  | run =>
    "characters in position " ++ toString position ++ "-" ++ toString (position + run.length - 1)

def plainDigits (n : Nat) : List Char :=
  (Quoted.hex 6 n).dropWhile (· == '0')

def strayPercentPlace (next : Char) (position : Nat) : String :=
  let shown := if 31 ≤ next.toNat && next.toNat < 127 then next else '?'
  String.ofList ['\'', shown, '\''] ++ " (0x" ++ String.ofList (plainDigits next.toNat) ++
    ") at index " ++ toString position

def message : Failure → String
  | .system fault => fault.message
  | .embeddedNul => "embedded null byte"
  | .linkLoop path => "Symlink loop from " ++ Quoted.quote path
  | .refused refusal => refusal.message
  | .lineTooLong limit => "No line terminator within " ++ toString limit ++ " bytes"
  | .misconfigured defect => defect.message
  | .unreadable cause => cause.message
  | .notAscii run position =>
    "'ascii' codec can't encode " ++ notAsciiPlace run position ++ ": ordinal not in range(128)"
  | .unknownLevel text => "Unknown level: " ++ Quoted.quote text
  | .unsendable name => "File name can't be sent on a request line: " ++ Quoted.quote name
  | .strayPercent next position =>
    "unsupported format character " ++ strayPercentPlace next position
  | .unfit complaint => complaint

/-- Whether the operating system reported it. -/
def isSystem : Failure → Bool
  | .system _ => true
  | _ => false

end Failure

end FileExchange
