/-!
# Journal

What the program reports while it runs: records with a level and the part of the program that
speaks. A record below the threshold is not kept.
-/

set_option autoImplicit false

namespace FileExchange

/-- A level is its rank; five ranks have names. -/
structure Level where
  rank : Int
  deriving Repr, DecidableEq

namespace Level

def all : Level := ⟨0⟩
def debug : Level := ⟨10⟩
def info : Level := ⟨20⟩
def warning : Level := ⟨30⟩
def error : Level := ⟨40⟩
def critical : Level := ⟨50⟩

def name (l : Level) : String :=
  if l == all then "NOTSET"
  else if l == debug then "DEBUG"
  else if l == info then "INFO"
  else if l == warning then "WARNING"
  else if l == error then "ERROR"
  else if l == critical then "CRITICAL"
  else "Level " ++ toString l.rank

end Level

inductive Speaker where
  | access
  | dispatcher
  | files
  | upload
  | connection
  | listener
  | server
  | client
  deriving Repr, DecidableEq

def Speaker.name : Speaker → String
  | .access => "fileshare.access"
  | .dispatcher => "fileshare.dispatcher"
  | .files => "fileshare.handlers.files"
  | .upload => "fileshare.handlers.upload"
  | .connection => "fileshare.core.connection"
  | .listener => "fileshare.core.socket_server"
  | .server => "fileshare.server"
  | .client => "fileshare.client"

structure Record where
  level : Level
  speaker : Speaker
  message : String
  deriving Repr, DecidableEq

def Record.text (r : Record) : String :=
  r.level.name ++ " " ++ r.speaker.name ++ ": " ++ r.message

structure Journal where
  threshold : Level := .info
  records : Array Record := #[]
  deriving Repr, DecidableEq

namespace Journal

def add (j : Journal) (r : Record) : Journal :=
  if j.threshold.rank ≤ r.level.rank then { j with records := j.records.push r } else j

end Journal

end FileExchange
