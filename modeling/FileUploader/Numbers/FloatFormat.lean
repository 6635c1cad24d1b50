import Mathlib.Algebra.Order.Field.Power
import Mathlib.Data.Rat.Cast.Order
import Mathlib.Tactic.Linarith
import Mathlib.Tactic.Positivity

/-! # Floating point numbers times powers of two

A finite number of a binary format is `m * 2 ^ e`, with bounds for `m` and `e`. Its product
with a power of two needs no rounding: it is a number of the format again, or too large.
-/

/-- A binary format: the bits of the significand and the range of the exponent. -/
structure FloatFormat where
  bits : ℕ
  minExp : ℤ
  maxExp : ℕ
  bits_pos : 0 < bits
  minExp_le : minExp ≤ 0

/-- Double precision. -/
def binary64 : FloatFormat := ⟨53, -1074, 971, by decide, by decide⟩

namespace FloatFormat

variable (f : FloatFormat)

/-- From 2 to this power on, numbers are too large. -/
def limit : ℕ := f.bits + f.maxExp

/-- `q` is a finite number of the format. -/
def IsFloat (q : ℚ) : Prop :=
  ∃ m e : ℤ, |m| < 2 ^ f.bits ∧ f.minExp ≤ e ∧ e ≤ f.maxExp ∧ q = m * 2 ^ e

variable {f} {q : ℚ}

/-- The largest exponent and the bits make up the limit. -/
theorem two_pow_limit : (2 : ℚ) ^ f.limit = 2 ^ f.bits * 2 ^ (f.maxExp : ℤ) := by
  rw [limit, pow_add, zpow_natCast]

theorem IsFloat.abs_lt (h : f.IsFloat q) : |q| < 2 ^ f.limit := by
  rcases h with ⟨m, e, hm, _, he, rfl⟩
  have hm' : |(m : ℚ)| < 2 ^ f.bits := by exact_mod_cast hm
  have he' : (2 : ℚ) ^ e ≤ 2 ^ (f.maxExp : ℤ) := zpow_le_zpow_right₀ (by norm_num) he
  have hpos : (0 : ℚ) < 2 ^ e := by positivity
  calc |(m : ℚ) * 2 ^ e| = |(m : ℚ)| * 2 ^ e := by rw [abs_mul, abs_of_pos hpos]
    _ < 2 ^ f.bits * 2 ^ e := by gcongr
    _ ≤ 2 ^ f.bits * 2 ^ (f.maxExp : ℤ) := by gcongr
    _ = 2 ^ f.limit := two_pow_limit.symm

/-- The product with a power of two, unless it is too large. -/
theorem IsFloat.mul_two_pow (h : f.IsFloat q) {n : ℕ} (hlt : |q * 2 ^ n| < 2 ^ f.limit) :
    f.IsFloat (q * 2 ^ n) := by
  rcases h with ⟨m, e, hm, hlow, he, rfl⟩
  have hjoin : (m : ℚ) * 2 ^ e * 2 ^ n = m * 2 ^ (e + n) := by
    rw [mul_assoc, zpow_add₀ (by norm_num), zpow_natCast]
  rw [hjoin] at hlt ⊢
  by_cases hfits : e + n ≤ f.maxExp
  · exact ⟨m, e + n, hm, by omega, hfits, rfl⟩
  · -- what does not fit into the exponent goes into the significand
    obtain ⟨k, hk⟩ : ∃ k : ℕ, e + n = k + f.maxExp := ⟨(e + n - f.maxExp).toNat, by omega⟩
    have hshift : (m : ℚ) * 2 ^ (e + n) = ((m * 2 ^ k : ℤ) : ℚ) * 2 ^ (f.maxExp : ℤ) := by
      rw [hk, zpow_add₀ (by norm_num), zpow_natCast]
      push_cast
      rw [mul_assoc]
    have hpos : (0 : ℚ) < 2 ^ (f.maxExp : ℤ) := by positivity
    rw [hshift] at hlt ⊢
    rw [abs_mul, abs_of_pos hpos, two_pow_limit] at hlt
    have hsmall := lt_of_mul_lt_mul_right hlt hpos.le
    exact ⟨m * 2 ^ k, f.maxExp, by exact_mod_cast hsmall, f.minExp_le.trans (by omega), le_rfl,
      rfl⟩

theorem isFloat_one : f.IsFloat 1 := by
  have hbits : (1 : ℤ) < 2 ^ f.bits := one_lt_pow₀ (by norm_num) f.bits_pos.ne'
  exact ⟨1, 0, by simpa using hbits, f.minExp_le, by omega, by simp⟩

/-- The powers of two in the format. -/
theorem isFloat_two_pow_iff {n : ℕ} : f.IsFloat (2 ^ n) ↔ n < f.limit := by
  constructor
  · intro h
    have hlt := h.abs_lt
    rw [abs_of_pos (by positivity)] at hlt
    exact (pow_lt_pow_iff_right₀ (by norm_num)).1 hlt
  · intro h
    have hlt : |(1 : ℚ) * 2 ^ n| < 2 ^ f.limit := by
      rw [one_mul, abs_of_pos (by positivity)]
      exact (pow_lt_pow_iff_right₀ (by norm_num)).2 h
    have hpow := isFloat_one.mul_two_pow hlt
    rwa [one_mul] at hpow

instance (n : ℕ) : Decidable (f.IsFloat (2 ^ n)) := decidable_of_iff _ isFloat_two_pow_iff.symm

variable (f) in
/-- A finite number of the format. -/
structure Finite where
  val : ℚ
  isFloat : f.IsFloat val

variable (f) in
/-- A number of the format, or an infinity. -/
inductive Number where
  | finite (x : f.Finite)
  | infinity (negative : Bool)

/-- The value, if it is finite. -/
def Number.toRat? : f.Number → Option ℚ
  | .finite x => some x.val
  | .infinity _ => none

namespace Finite

variable (x : f.Finite) (n : ℕ)

/-- `x * 2 ** n` with both factors in the format. -/
def scale : f.Number :=
  if h : |x.val * 2 ^ n| < 2 ^ f.limit then .finite ⟨x.val * 2 ^ n, x.isFloat.mul_two_pow h⟩
  else .infinity (x.val < 0)

/-- `x * 2 ** n` with an integer for the second factor, which is converted first; `none` is
where it is too large for that. -/
def timesTwoPow : Option f.Number := if f.IsFloat (2 ^ n) then some (x.scale n) else none

variable {x n}

theorem timesTwoPow_of_le (h : f.limit ≤ n) : x.timesTwoPow n = none :=
  if_neg fun hpow => absurd (isFloat_two_pow_iff.1 hpow) (by omega)

theorem timesTwoPow_of_lt (h : n < f.limit) : x.timesTwoPow n = some (x.scale n) :=
  if_pos (isFloat_two_pow_iff.2 h)

/-- When the product is exact. -/
theorem timesTwoPow_exact_iff :
    (∃ y, x.timesTwoPow n = some y ∧ y.toRat? = some (x.val * 2 ^ n)) ↔
      n < f.limit ∧ |x.val| * 2 ^ n < 2 ^ f.limit := by
  have habs : |x.val * 2 ^ n| = |x.val| * 2 ^ n := by
    rw [abs_mul, abs_of_pos (by positivity : (0 : ℚ) < 2 ^ n)]
  rw [← habs]
  constructor
  · intro h
    rcases h with ⟨y, hy, hval⟩
    rcases Nat.lt_or_ge n f.limit with hn | hn
    · rw [timesTwoPow_of_lt hn] at hy
      cases hy
      unfold scale at hval
      split at hval
      · rename_i hlt
        exact ⟨hn, hlt⟩
      · cases hval
    · rw [timesTwoPow_of_le hn] at hy
      cases hy
  · intro h
    rcases h with ⟨hn, hlt⟩
    exact ⟨_, timesTwoPow_of_lt hn, by rw [scale, dif_pos hlt]; rfl⟩

/-- A product in range is not infinite. -/
theorem timesTwoPow_ne_infinity (h : |x.val| * 2 ^ n < 2 ^ f.limit) (negative : Bool) :
    x.timesTwoPow n ≠ some (.infinity negative) := by
  intro hinf
  rcases Nat.lt_or_ge n f.limit with hn | hn
  · rcases timesTwoPow_exact_iff.2 ⟨hn, h⟩ with ⟨y, hy, hval⟩
    rw [hinf] at hy
    cases hy
    cases hval
  · rw [timesTwoPow_of_le hn] at hinf
    cases hinf

end Finite

end FloatFormat
