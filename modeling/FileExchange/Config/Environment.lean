import FileExchange.Failure
import FileExchange.Number.Decimal

/-!
# Environment variables

The variables that give settings their default values, and how a number is read from one.
-/

set_option autoImplicit false

namespace FileExchange

abbrev Environment := List (String × String)

namespace Environment

def get (env : Environment) (name byDefault : String) : String :=
  (env.lookup name).getD byDefault

/-- A variable that is not set stands for a default, one that is set must hold a whole number. -/
def getInteger (env : Environment) (name : String) (byDefault : Int) : Except Failure Int :=
  match env.lookup name with
  | none => .ok byDefault
  | some text => (Number.readInteger text).mapError .unreadable

/-- A variable that is not set or holds only blanks stands for no number. -/
def getDecimal? (env : Environment) (name : String) : Except Failure (Option Binary64) :=
  match env.lookup name with
  | none => .ok none
  | some text =>
    if Text.isBlankText text.toList then .ok none
    else (Number.readDecimal text).map some |>.mapError .unreadable

end Environment

end FileExchange
