/-!
# ASCII

The characters that every encoding in use writes as one byte of the same value.
-/

set_option autoImplicit false

namespace FileExchange.Text

def isAscii (c : Char) : Bool :=
  c.toNat < 0x80

end FileExchange.Text
