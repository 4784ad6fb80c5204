import Mathlib.Data.Int.Log
import Mathlib.Algebra.Order.Archimedean.Basic
import Mathlib.Tactic.Linarith
import Mathlib.Tactic.Positivity
import Mathlib.Tactic.Ring
import Mathlib.Tactic.FieldSimp
import Mathlib.Tactic.NormNum

/-!
# Doubles

The nearest double of a rational number: 53 bits, the even one of two neighbours. Rounding keeps
the order and leaves what has 53 bits as it is, and with that a number between two such numbers
stays between them.
-/
namespace Doubles

/-! ## To the nearest integer -/

/-- The nearest integer, and the even one of two. -/
def roundEven (x : ℚ) : Int :=
  if Int.fract x < 1 / 2 then ⌊x⌋
  else if 1 / 2 < Int.fract x then ⌊x⌋ + 1
  else if ⌊x⌋ % 2 = 0 then ⌊x⌋
  else ⌊x⌋ + 1

theorem roundEven_bounds (x : ℚ) : ⌊x⌋ ≤ roundEven x ∧ roundEven x ≤ ⌊x⌋ + 1 := by
  unfold roundEven
  split_ifs <;> omega

@[simp] theorem roundEven_intCast (n : Int) : roundEven n = n := by
  simp [roundEven]

theorem roundEven_mono {x y : ℚ} (hxy : x ≤ y) : roundEven x ≤ roundEven y := by
  obtain hlt | heq := lt_or_eq_of_le (Int.floor_mono hxy)
  · exact (roundEven_bounds x).2.trans ((Int.add_one_le_iff.mpr hlt).trans (roundEven_bounds y).1)
  · have hfract : Int.fract x ≤ Int.fract y := by
      rw [Int.fract, Int.fract, heq]
      linarith
    unfold roundEven
    rw [heq]
    split_ifs <;> first | omega | (exfalso; linarith)

/-- Rounding to even is symmetric about zero. -/
theorem roundEven_neg (x : ℚ) : roundEven (-x) = -roundEven x := by
  by_cases hx : Int.fract x = 0
  · obtain ⟨n, rfl⟩ : ∃ n : Int, x = n := ⟨⌊x⌋, by rw [← sub_eq_zero]; exact hx⟩
    rw [← Int.cast_neg, roundEven_intCast, roundEven_intCast]
  · have hfract : Int.fract (-x) = 1 - Int.fract x := Int.fract_neg hx
    have hfloor : ⌊-x⌋ = -⌊x⌋ - 1 := by
      have hsum := Int.floor_add_fract (-x)
      have hsum' := Int.floor_add_fract x
      have hcast : ((⌊-x⌋ : Int) : ℚ) = ((-⌊x⌋ - 1 : Int) : ℚ) := by
        push_cast
        linarith
      exact_mod_cast hcast
    unfold roundEven
    rw [hfract, hfloor]
    split_ifs <;> first | omega | (exfalso; linarith)

/-! ## To 53 bits -/

/-- The exponent of the last bit of the doubles around a number. -/
def lastBit (q : ℚ) : Int := max (Int.log 2 |q| - 52) (-1074)

/-- The nearest number of 53 bits. -/
def nearest (q : ℚ) : ℚ := roundEven (q / 2 ^ lastBit q) * 2 ^ lastBit q

theorem two_zpow_pos (e : Int) : (0 : ℚ) < 2 ^ e := zpow_pos (by norm_num) e

theorem lastBit_neg (q : ℚ) : lastBit (-q) = lastBit q := by
  rw [lastBit, lastBit, abs_neg]

theorem nearest_neg (q : ℚ) : nearest (-q) = -nearest q := by
  rw [nearest, nearest, lastBit_neg, neg_div, roundEven_neg]
  push_cast
  ring

/-- A larger power of two is a multiple of a smaller one. -/
theorem zpow_multiple {b e : Int} (h : b ≤ e) :
    ∃ d : Nat, (2 : ℚ) ^ e = ((2 ^ d : Int) : ℚ) * 2 ^ b := by
  obtain ⟨d, rfl⟩ := Int.le.dest h
  refine ⟨d, ?_⟩
  rw [zpow_add₀ (by norm_num), zpow_natCast, mul_comm]
  push_cast
  rfl

/-- A multiple of the last bit has no more bits. -/
theorem nearest_multiple {q : ℚ} {m e : Int} (hq : q = m * 2 ^ e) (he : lastBit q ≤ e) :
    nearest q = q := by
  obtain ⟨d, hd⟩ := zpow_multiple he
  have hne : (2 : ℚ) ^ lastBit q ≠ 0 := (two_zpow_pos _).ne'
  have hwhole : q / 2 ^ lastBit q = ((m * 2 ^ d : Int) : ℚ) := by
    rw [div_eq_iff hne]
    calc q = m * (((2 ^ d : Int) : ℚ) * 2 ^ lastBit q) := by rw [← hd, ← hq]
      _ = ((m * 2 ^ d : Int) : ℚ) * 2 ^ lastBit q := by push_cast; ring
  rw [nearest, hwhole, roundEven_intCast, ← hwhole]
  exact div_mul_cancel₀ q hne

theorem lastBit_lt {q : ℚ} {e : Int} (hq : |q| < 2 ^ (53 + e)) (hpos : 0 < |q|) (he : -1074 ≤ e) :
    lastBit q ≤ e := by
  have hlog : Int.log 2 |q| < 53 + e := by
    rw [← Int.lt_zpow_iff_log_lt (by norm_num) hpos]
    exact_mod_cast hq
  unfold lastBit
  omega

/-- What has 53 bits is left as it is. -/
theorem nearest_bits {m e : Int} (hm : |m| ≤ 2 ^ 53) (he : -1074 ≤ e) :
    nearest (m * 2 ^ e) = m * 2 ^ e := by
  have hpow := two_zpow_pos e
  have habs : |(m : ℚ) * 2 ^ e| = |(m : ℚ)| * 2 ^ e := by rw [abs_mul, abs_of_pos hpow]
  have hmq : |(m : ℚ)| ≤ 2 ^ 53 := by exact_mod_cast hm
  obtain rfl | hzero := eq_or_ne m 0
  · simp [nearest, roundEven]
  · have hpos : 0 < |(m : ℚ) * 2 ^ e| := by
      rw [abs_pos]
      exact mul_ne_zero (by exact_mod_cast hzero) hpow.ne'
    obtain hlt | heq := lt_or_eq_of_le hmq
    · refine nearest_multiple rfl (lastBit_lt ?_ hpos he)
      rw [habs, zpow_add₀ (by norm_num)]
      exact mul_lt_mul_of_pos_right (by exact_mod_cast hlt) hpow
    · -- the next power of two, which has one bit
      have hm' : (m : ℚ) * 2 ^ e = ((m / 2 : Int) : ℚ) * 2 ^ (e + 1) := by
        have heven : m = 2 * (m / 2) := by
          have hint : |m| = 2 ^ 53 := by exact_mod_cast heq
          obtain h | h := abs_eq (by norm_num) |>.mp hint <;> omega
        rw [zpow_add₀ (by norm_num), zpow_one]
        have hcast : (m : ℚ) = 2 * ((m / 2 : Int) : ℚ) := by
          exact_mod_cast congrArg (Int.cast (R := ℚ)) heven
        rw [hcast]
        ring
      refine nearest_multiple hm' (lastBit_lt ?_ hpos (by omega))
      rw [habs, heq, ← zpow_natCast, ← zpow_add₀ (by norm_num)]
      exact zpow_lt_zpow_right₀ (by norm_num) (by push_cast; omega)

/-- Every integer up to 2 ^ 53 is a double. -/
theorem nearest_intCast {n : Int} (hn : |n| ≤ 2 ^ 53) : nearest n = n := by
  simpa using nearest_bits hn (e := 0) (by norm_num)

theorem nearest_nonneg {q : ℚ} (hq : 0 ≤ q) : 0 ≤ nearest q := by
  have hround : roundEven 0 ≤ roundEven (q / 2 ^ lastBit q) :=
    roundEven_mono (div_nonneg hq (two_zpow_pos _).le)
  have hzero : roundEven 0 = 0 := by simpa using roundEven_intCast 0
  rw [hzero] at hround
  exact mul_nonneg (by exact_mod_cast hround) (two_zpow_pos _).le

/-- A power of two above a number is above its double, one below it is below. -/
theorem nearest_le_zpow {q : ℚ} {k : Int} (hq : q ≤ 2 ^ k) (hk : lastBit q ≤ k) :
    nearest q ≤ 2 ^ k := by
  obtain ⟨d, hd⟩ := zpow_multiple hk
  have hpos := two_zpow_pos (lastBit q)
  have hround : roundEven (q / 2 ^ lastBit q) ≤ roundEven ((2 ^ d : Int) : ℚ) := by
    refine roundEven_mono ((div_le_iff₀ hpos).mpr ?_)
    rw [← hd]
    exact hq
  rw [roundEven_intCast] at hround
  rw [hd, nearest]
  exact mul_le_mul_of_nonneg_right (by exact_mod_cast hround) hpos.le

theorem zpow_le_nearest {q : ℚ} {k : Int} (hq : 2 ^ k ≤ q) (hk : lastBit q ≤ k) :
    2 ^ k ≤ nearest q := by
  obtain ⟨d, hd⟩ := zpow_multiple hk
  have hpos := two_zpow_pos (lastBit q)
  have hround : roundEven ((2 ^ d : Int) : ℚ) ≤ roundEven (q / 2 ^ lastBit q) := by
    refine roundEven_mono ((le_div_iff₀ hpos).mpr ?_)
    rw [← hd]
    exact hq
  rw [roundEven_intCast] at hround
  rw [hd, nearest]
  exact mul_le_mul_of_nonneg_right (by exact_mod_cast hround) hpos.le

theorem lastBit_mono {q r : ℚ} (hq : 0 < q) (hqr : q ≤ r) : lastBit q ≤ lastBit r := by
  have hlog : Int.log 2 |q| ≤ Int.log 2 |r| := by
    rw [abs_of_pos hq, abs_of_pos (hq.trans_le hqr)]
    exact Int.log_mono_right hq hqr
  unfold lastBit
  omega

/-- Rounding keeps the order of positive numbers, also across a power of two. -/
theorem nearest_mono_pos {q r : ℚ} (hq : 0 < q) (hqr : q ≤ r) : nearest q ≤ nearest r := by
  have hr : 0 < r := hq.trans_le hqr
  obtain hlt | heq := lt_or_eq_of_le (lastBit_mono hq hqr)
  · -- a power of two stands between them
    have hlogs : Int.log 2 |q| < Int.log 2 |r| ∧ lastBit r = Int.log 2 |r| - 52 := by
      unfold lastBit at hlt ⊢
      omega
    rw [abs_of_pos hq, abs_of_pos hr] at hlogs
    have hbelow : q ≤ 2 ^ Int.log 2 r := by
      have hstrict : q < ((2 : Nat) : ℚ) ^ Int.log 2 r :=
        (Int.lt_zpow_iff_log_lt (by norm_num) hq).mpr hlogs.1
      exact_mod_cast hstrict.le
    have habove : (2 : ℚ) ^ Int.log 2 r ≤
        r := by exact_mod_cast Int.zpow_log_le_self (by norm_num) hr
    exact (nearest_le_zpow hbelow (by omega)).trans (zpow_le_nearest habove (by omega))
  · rw [nearest, nearest, heq]
    have hround : roundEven (q / 2 ^ lastBit r) ≤ roundEven (r / 2 ^ lastBit r) :=
      roundEven_mono (div_le_div_of_nonneg_right hqr (two_zpow_pos _).le)
    exact mul_le_mul_of_nonneg_right (by exact_mod_cast hround) (two_zpow_pos _).le

theorem nearest_mono {q r : ℚ} (hqr : q ≤ r) : nearest q ≤ nearest r := by
  obtain hq | hq := lt_or_ge 0 q
  · exact nearest_mono_pos hq hqr
  · obtain hr | hr := le_or_gt 0 r
    · have hneg := nearest_nonneg (neg_nonneg.mpr hq)
      rw [nearest_neg] at hneg
      exact (neg_nonneg.mp hneg).trans (nearest_nonneg hr)
    · have hpos : nearest (-r) ≤ nearest (-q) := nearest_mono_pos (neg_pos.mpr hr) (neg_le_neg hqr)
      rw [nearest_neg, nearest_neg] at hpos
      exact neg_le_neg_iff.mp hpos

theorem roundEven_abs_le {x : ℚ} {n : Int} (hx : |x| ≤ n) : |roundEven x| ≤ n := by
  obtain ⟨hlow, hhigh⟩ := abs_le.mp hx
  have hbelow := roundEven_mono hhigh
  have habove : roundEven ((-n : Int) : ℚ) ≤ roundEven x :=
    roundEven_mono (by push_cast; exact hlow)
  rw [roundEven_intCast] at hbelow habove
  exact abs_le.mpr ⟨habove, hbelow⟩

/-- Rounding twice is rounding once. -/
theorem nearest_nearest (q : ℚ) : nearest (nearest q) = nearest q := by
  have hpos := two_zpow_pos (lastBit q)
  refine nearest_bits (roundEven_abs_le ?_) (le_max_right _ _)
  rw [abs_div, abs_of_pos hpos, div_le_iff₀ hpos]
  obtain hzero | hq := (abs_nonneg q).eq_or_lt
  · rw [← hzero]
    positivity
  · have hlog : |q| < 2 ^ (Int.log 2 |q| + 1) := by
      have hlt := Int.lt_zpow_succ_log_self (R := ℚ) (b := 2) (by norm_num) |q|
      exact_mod_cast hlt
    have hbit : Int.log 2 |q| + 1 ≤ 53 + lastBit q := by
      unfold lastBit
      omega
    calc |q| ≤ 2 ^ (Int.log 2 |q| + 1) := hlog.le
      _ ≤ 2 ^ (53 + lastBit q) := zpow_le_zpow_right₀ (by norm_num) hbit
      _ = ((2 ^ 53 : Int) : ℚ) * 2 ^ lastBit q := by
        rw [zpow_add₀ (by norm_num)]
        norm_num

/-- What is below the middle of the greatest number of 53 bits and the next power of two
stays below that power. -/
theorem nearest_lt_zpow {q : ℚ} {e : Int} (he : -1074 ≤ e) (hq : q < 2 ^ (53 + e) - 2 ^ (e - 1)) :
    nearest q < 2 ^ (53 + e) := by
  have hunit := two_zpow_pos e
  have hhalf : (2 : ℚ) ^ (e - 1) = 2 ^ e / 2 := by rw [zpow_sub₀ (by norm_num), zpow_one]
  have htop : (2 : ℚ) ^ (53 + e) = 2 ^ 53 * 2 ^ e := zpow_add₀ (by norm_num) 53 e
  have hbelow : (2 : ℚ) ^ (52 + e) = 2 ^ 52 * 2 ^ e := zpow_add₀ (by norm_num) 52 e
  obtain hsmall | hlarge := lt_or_ge q (2 ^ (52 + e))
  · have hbits : nearest (2 ^ (52 + e)) = 2 ^ (52 + e) := by
      have hone := nearest_bits (m := 1) (e := 52 + e) (by norm_num) (by omega)
      rwa [Int.cast_one, one_mul] at hone
    have hmono := nearest_mono hsmall.le
    rw [hbits] at hmono
    linarith
  · have hpos : 0 < q := (two_zpow_pos _).trans_le hlarge
    have hless : q < 2 ^ (52 + e + 1) := by
      rw [show 52 + e + 1 = 53 + e by ring]
      linarith
    have hlog : Int.log 2 |q| = 52 + e := by
      rw [abs_of_pos hpos]
      have hhigh :=
        (Int.lt_zpow_iff_log_lt (b := 2) (by norm_num) hpos).mp (by exact_mod_cast hless)
      have hlow :=
        (Int.zpow_le_iff_le_log (b := 2) (by norm_num) hpos).mp (by exact_mod_cast hlarge)
      omega
    have hbit : lastBit q = e := by
      unfold lastBit
      omega
    -- in units of the last bit, half a unit is missing
    have hquot : q / 2 ^ e < 2 ^ 53 - 1 / 2 := by
      rw [div_lt_iff₀ hunit]
      linarith
    have hround : roundEven (q / 2 ^ e) ≤ 2 ^ 53 - 1 := by
      have hfloor : ⌊q / 2 ^ e⌋ < 2 ^ 53 := by
        rw [Int.floor_lt]
        push_cast
        linarith
      obtain hlt | heq := lt_or_eq_of_le (Int.le_sub_one_of_lt hfloor)
      · have hbound := (roundEven_bounds (q / 2 ^ e)).2
        omega
      · have hfract : Int.fract (q / 2 ^ e) < 1 / 2 := by
          rw [Int.fract, heq]
          push_cast
          linarith
        rw [roundEven, if_pos hfract, heq]
    have hcast : ((roundEven (q / 2 ^ e) : Int) : ℚ) ≤ 2 ^ 53 - 1 := by exact_mod_cast hround
    rw [nearest, hbit, htop]
    exact mul_lt_mul_of_pos_right (by linarith) hunit

theorem abs_nearest_lt_zpow {q : ℚ} {e : Int} (he : -1074 ≤ e)
    (hq : |q| < 2 ^ (53 + e) - 2 ^ (e - 1)) : |nearest q| < 2 ^ (53 + e) := by
  obtain ⟨hlow, hhigh⟩ := abs_lt.mp hq
  have hneg := nearest_lt_zpow he (neg_lt.mp hlow)
  rw [nearest_neg] at hneg
  exact abs_lt.mpr ⟨neg_lt.mp hneg, nearest_lt_zpow he hhigh⟩

/-! ## Integers -/

/-- The nearest double of an integer, which is an integer. -/
def nearestInt (n : Int) : Int := if |n| ≤ 2 ^ 53 then n else ⌊nearest n⌋

theorem nearestInt_eq {n : Int} (hn : |n| ≤ 2 ^ 53) : nearestInt n = n := if_pos hn

/-- The double nearest to an integer is an integer. -/
theorem nearestInt_cast (n : Int) : ((nearestInt n : Int) : ℚ) = nearest n := by
  unfold nearestInt
  split
  · next hn => exact (nearest_intCast hn).symm
  · next hn =>
    have hlarge : (2 : ℚ) ^ (53 : Int) ≤ |(n : ℚ)| := by
      have hcast : (2 : ℚ) ^ 53 < |(n : ℚ)| := by exact_mod_cast not_le.mp hn
      exact_mod_cast hcast.le
    have hlog : 53 ≤ Int.log 2 |(n : ℚ)| :=
      (Int.zpow_le_iff_le_log (by norm_num) (lt_of_lt_of_le (two_zpow_pos 53) hlarge)).mp
        (by exact_mod_cast hlarge)
    have hbit : 0 ≤ lastBit n := by
      unfold lastBit
      omega
    obtain ⟨d, hd⟩ := zpow_multiple hbit
    have hwhole : nearest n = ((roundEven (n / 2 ^ lastBit n) * 2 ^ d : Int) : ℚ) := by
      rw [nearest, hd]
      push_cast
      rw [mul_one]
    rw [hwhole, Int.floor_intCast]

theorem nearestInt_neg (n : Int) : nearestInt (-n) = -nearestInt n := by
  have hcast : ((nearestInt (-n) : Int) : ℚ) = ((-nearestInt n : Int) : ℚ) := by
    rw [nearestInt_cast]
    push_cast
    rw [nearestInt_cast, nearest_neg]
  exact_mod_cast hcast

theorem nearestInt_mono {m n : Int} (hmn : m ≤ n) : nearestInt m ≤ nearestInt n := by
  have hcast : ((nearestInt m : Int) : ℚ) ≤ (nearestInt n : Int) := by
    rw [nearestInt_cast, nearestInt_cast]
    exact nearest_mono (by exact_mod_cast hmn)
  exact_mod_cast hcast

theorem nearestInt_nearestInt (n : Int) : nearestInt (nearestInt n) = nearestInt n := by
  have hcast : ((nearestInt (nearestInt n) : Int) : ℚ) = ((nearestInt n : Int) : ℚ) := by
    rw [nearestInt_cast, nearestInt_cast, nearest_nearest]
  exact_mod_cast hcast

end Doubles
