import FileExchange.CommandLine.Serve
import FileExchange.Proofs.Serve.Sites
import FileExchange.Proofs.Tree.Lookup
import Mathlib.Tactic.ByContra

/-!
# Valid settings

Which settings of the server pass, and which failures report the others. Two kinds of settings are not refused as they
should be: a timeout that is no number compares with nothing, and looking the root up can fail in ways that are not
reported as a bad value.
-/

set_option autoImplicit false

namespace FileExchange

/-- The numbers greater than zero. -/
def Binary64.IsPositive : Binary64 → Prop
  | .notANumber => False
  | .infinite negative => negative = false
  | .finite negative mantissa _ => negative = false ∧ 0 < mantissa

namespace ServerConfig

variable {c : ServerConfig} {t : Tree}

/-! ## What settings must be like -/

/-- The root is a directory that exists. -/
def HasRoot (c : ServerConfig) (t : Tree) : Prop :=
  ∃ root, c.rootPath t = .ok root ∧ t.stat root = .ok .directory

/-- Settings that the server can run with. -/
structure Sound (c : ServerConfig) (t : Tree) : Prop where
  port : 0 ≤ c.port ∧ c.port < 65536
  backlog : 1 ≤ c.backlog
  bufferSize : 1 ≤ c.bufferSize
  chunkSize : 1 ≤ c.chunkSize
  timeout : ∀ x, c.timeout = some x → x.IsPositive
  logFormat : c.logFormat = "text" ∨ c.logFormat = "json"
  root : c.HasRoot t

open CommandLine

end ServerConfig

end FileExchange
