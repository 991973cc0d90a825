import FileExchange.Time.HttpDate

/-!
# Time stamps of records

A second of universal time as access records show it.
-/

set_option autoImplicit false

namespace FileExchange.LogStamp

def text (i : Instant) : String :=
  let d := i.date
  let rest := i.seconds % 86400
  HttpDate.twoDigits d.day ++ "/" ++ HttpDate.monthNames.getD (d.month - 1) "" ++ "/" ++
    toString d.year ++ ":" ++ HttpDate.twoDigits (rest / 3600) ++ ":" ++
    HttpDate.twoDigits (rest / 60 % 60) ++ ":" ++ HttpDate.twoDigits (rest % 60) ++ " +0000"

end FileExchange.LogStamp
