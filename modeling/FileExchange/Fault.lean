import FileExchange.Text.Quoted

/-!
# System faults

What the operating system reports when a call fails, with its number, its words and the paths that
the call was given.
-/

set_option autoImplicit false

namespace FileExchange

inductive Errno where
  | noEntry
  | inputOutput
  | badDescriptor
  | alreadyExists
  | notDirectory
  | isDirectory
  | tooManyOpen
  | brokenPipe
  | nameTooLong
  | tooManyLinks
  | addressInUse
  | connectionReset
  | notConnected
  | connectionRefused
  | permissionDenied
  /-- One that does not mean that something is absent. -/
  | other (number : Nat) (text : String) (h : number ∉ [2, 9, 20, 40])
  deriving Repr, DecidableEq

namespace Errno

def number : Errno → Nat
  | .noEntry => 2
  | .inputOutput => 5
  | .badDescriptor => 9
  | .alreadyExists => 17
  | .notDirectory => 20
  | .isDirectory => 21
  | .tooManyOpen => 24
  | .brokenPipe => 32
  | .nameTooLong => 36
  | .tooManyLinks => 40
  | .addressInUse => 98
  | .connectionReset => 104
  | .notConnected => 107
  | .connectionRefused => 111
  | .permissionDenied => 13
  | .other number _ _ => number

def text : Errno → String
  | .noEntry => "No such file or directory"
  | .inputOutput => "Input/output error"
  | .badDescriptor => "Bad file descriptor"
  | .alreadyExists => "File exists"
  | .notDirectory => "Not a directory"
  | .isDirectory => "Is a directory"
  | .tooManyOpen => "Too many open files"
  | .brokenPipe => "Broken pipe"
  | .nameTooLong => "File name too long"
  | .tooManyLinks => "Too many levels of symbolic links"
  | .addressInUse => "Address already in use"
  | .connectionReset => "Connection reset by peer"
  | .notConnected => "Transport endpoint is not connected"
  | .connectionRefused => "Connection refused"
  | .permissionDenied => "Permission denied"
  | .other _ text _ => text

end Errno

inductive Fault where
  /-- A call failed; `paths` are the paths it was given. -/
  | coded (errno : Errno) (paths : List String)
  | timedOut
  | unknownHost
  | noTemporaryName
  deriving Repr, DecidableEq

namespace Fault

def plain (errno : Errno) : Fault := .coded errno []

def numbered (number : String) (text : String) : String :=
  "[Errno " ++ number ++ "] " ++ text

def message : Fault → String
  | .coded errno [] => numbered (toString errno.number) errno.text
  | .coded errno paths =>
    numbered (toString errno.number) errno.text ++ ": " ++
      String.intercalate " -> " (paths.map Quoted.quote)
  | .timedOut => "timed out"
  | .unknownHost => numbered "-2" "Name or service not known"
  | .noTemporaryName => numbered "17" "No usable temporary file name found"

end Fault

end FileExchange
