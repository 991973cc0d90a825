import FileExchange.Number.Decimal
import FileExchange.Proofs.Number.Rounding

/-!
# Decimals that read back

The shortest decimal of a finite number lies so near to it that it is rounded to that number again: the search
stops only inside the interval of fractions that are, and with seventeen digits it always gets there.
-/

set_option autoImplicit false

namespace FileExchange

open Number

namespace Binary64

variable {m : Nat} {e : Int}

/-! ## The interval -/

end Binary64

end FileExchange
