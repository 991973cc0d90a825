import FileExchange.Journal
import FileExchange.Number.Fixed
import FileExchange.Text.JsonText

/-!
# Access records

One record per connection: who asked for what, how it ended and how many bytes went either way,
written as a line of words or as a JSON record.
-/

set_option autoImplicit false

namespace FileExchange

structure AccessRecord where
  requestId : String
  method : String
  target : String
  clientIp : String
  statusCode : Int
  bytesSent : Int
  bytesReceived : Int
  durationMs : Binary64
  timestamp : String
  deriving Repr, DecidableEq

namespace AccessRecord

/-- The fields in order, the duration rounded to two places. -/
def fields (r : AccessRecord) : List (String × JsonText.Value) :=
  [("request_id", .text r.requestId), ("method", .text r.method), ("target", .text r.target),
   ("client_ip", .text r.clientIp), ("status_code", .integer r.statusCode),
   ("bytes_sent", .integer r.bytesSent), ("bytes_received", .integer r.bytesReceived),
   ("duration_ms", .number r.durationMs.roundToHundredths), ("timestamp", .text r.timestamp)]

/-- A request without a response shows a dash for its status. -/
def statusText (code : Int) : String :=
  if code == 0 then "-" else toString code

def line (r : AccessRecord) : String :=
  r.clientIp ++ " - - [" ++ r.timestamp ++ "] \"" ++ r.method ++ " " ++ r.target ++ "\" " ++
    statusText r.statusCode ++ " " ++ toString r.bytesSent ++ " " ++ r.durationMs.fixedText ++ "ms"

/-- The name of the format that writes JSON; every other name means words. -/
def jsonFormat : String := "json"

/-- What is reported, if no number is too long. -/
def message (r : AccessRecord) (format : String) (limit : Option Nat) : Except Failure String :=
  if format == jsonFormat then JsonText.encodeRecord limit r.fields
  else Number.write limit [r.statusCode, r.bytesSent] r.line

/-- The text of a record, however long its numbers. -/
def text (r : AccessRecord) (format : String) : String :=
  if format == jsonFormat then JsonText.recordText r.fields else r.line

/-- The record of a connection, which counts nothing that comes near the limit. -/
def record (r : AccessRecord) (format : String) (level : Level) : Record :=
  ⟨level, .access, r.text format⟩

end AccessRecord

end FileExchange
