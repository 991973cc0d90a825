import FileExchange.Number.Fixed
import Mathlib.Algebra.Order.Field.Power
import Mathlib.Algebra.Order.Field.Rat
import Mathlib.Tactic.FieldSimp
import Mathlib.Tactic.Linarith
import Mathlib.Tactic.NormNum
import Mathlib.Tactic.Positivity
import Mathlib.Tactic.Ring

/-!
# Rounding to binary floating point

Every fraction between the neighbours of a finite number, up to half of the way, is rounded to that number.
-/

set_option autoImplicit false

namespace FileExchange

namespace Number

/-! ## Fractions -/

/-- A number that is rounded to `k`: it is nearer to no other one, and if it is as near, `k` is even. -/
def Rounds (k : Nat) (x : ℚ) : Prop :=
  (k : ℚ) - 1 / 2 ≤ x ∧ x ≤ k + 1 / 2 ∧ (((k : ℚ) - 1 / 2 < x ∧ x < k + 1 / 2) ∨ k % 2 = 0)

theorem Rounds.le {k l : Nat} {x : ℚ} (h : Rounds k x) (hx : x ≤ l) : k ≤ l := by
  have hcast : (k : ℚ) < l + 1 := by linarith [h.1]
  exact Nat.lt_succ_iff.mp (by exact_mod_cast hcast)

end Number

open Number

namespace Binary64

/-! ## The exponent -/

theorem two_zpow_pos (e : Int) : (0 : ℚ) < 2 ^ e :=
  zpow_pos (by norm_num) e

theorem two_zpow_succ (e : Int) : (2 : ℚ) ^ (e + 1) = 2 * 2 ^ e := by
  rw [zpow_add_one₀ (by norm_num), mul_comm]

/-- The exponent of a number of this size: the mantissa has 53 bits, or the exponent is the least one. -/
structure Scale (x : ℚ) (e : Int) : Prop where
  least : -1074 ≤ e
  below : x < 2 ^ 53 * 2 ^ e
  full : e = -1074 ∨ 2 ^ 52 * 2 ^ e ≤ x

theorem Scale.le {x : ℚ} {e e' : Int} (h : Scale x e) (h' : Scale x e') : e ≤ e' := by
  by_contra hlt
  have hfull := h.full.resolve_left (by have := h'.least; omega)
  have hstep : (2 : ℚ) ^ (e' + 1) ≤ 2 ^ e := zpow_le_zpow_right₀ (by norm_num) (by omega)
  rw [two_zpow_succ] at hstep
  have hbelow := h'.below
  linarith

/-- A mantissa with its exponent as they stand in a finite number. -/
structure Canonical (m : Nat) (e : Int) : Prop where
  bits : m < 2 ^ 53
  least : -1074 ≤ e
  greatest : e ≤ 971
  full : e = -1074 ∨ 2 ^ 52 ≤ m

/-- How far below a number the fractions begin that are rounded to it. Below the least mantissa numbers are
twice as dense, unless the exponent is the least one. -/
def gapBelow (m : Nat) (e : Int) : ℚ :=
  if m = 2 ^ 52 ∧ -1074 < e then 1 / 4 else 1 / 2

/-- The fractions from halfway to the number below up to halfway to the number above, with the ends if the
mantissa is even. -/
def Within (m : Nat) (e : Int) (x : ℚ) : Prop :=
  (m - gapBelow m e) * 2 ^ e ≤ x ∧ x ≤ (m + 1 / 2) * 2 ^ e ∧
    (((m - gapBelow m e) * 2 ^ e < x ∧ x < (m + 1 / 2) * 2 ^ e) ∨ m % 2 = 0)

theorem gapBelow_le (m : Nat) (e : Int) : gapBelow m e ≤ 1 / 2 := by
  unfold gapBelow
  split <;> norm_num

theorem Within.rounds {m : Nat} {e : Int} {x : ℚ} (h : Within m e x) : Rounds m (x / 2 ^ e) := by
  obtain ⟨hlow, hhigh, htie⟩ := h
  have hpos := two_zpow_pos e
  have hgap := gapBelow_le m e
  have hlow' : (m : ℚ) - gapBelow m e ≤ x / 2 ^ e := (le_div_iff₀ hpos).mpr hlow
  have hhigh' : x / 2 ^ e ≤ (m : ℚ) + 1 / 2 := (div_le_iff₀ hpos).mpr hhigh
  refine ⟨by linarith, hhigh', ?_⟩
  refine htie.imp_left fun ⟨hlow, hhigh⟩ => ⟨?_, (div_lt_iff₀ hpos).mpr hhigh⟩
  have hlow' : (m : ℚ) - gapBelow m e < x / 2 ^ e := (lt_div_iff₀ hpos).mpr hlow
  linarith

/-- Below the binade of a number there are only fractions that are rounded to the least mantissa. -/
theorem Within.least {m : Nat} {e : Int} {x : ℚ} (h : Within m e x) (hc : Canonical m e) (he : e ≠ -1074)
    (hx : x < 2 ^ 52 * 2 ^ e) : m = 2 ^ 52 := by
  have hm := hc.full.resolve_left he
  by_contra hne
  have hm' : (2 ^ 52 : ℚ) + 1 ≤ m := by exact_mod_cast (show 2 ^ 52 + 1 ≤ m by omega)
  have hgap := gapBelow_le m e
  have hless := mul_lt_mul_of_pos_right (show (2 ^ 52 : ℚ) < m - gapBelow m e by linarith) (two_zpow_pos e)
  exact absurd (hless.trans_le h.1) (not_lt.mpr hx.le)

end Binary64

end FileExchange
