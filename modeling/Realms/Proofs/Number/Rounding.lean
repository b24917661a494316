import Mathlib.Algebra.Order.Field.Power
import Mathlib.Algebra.Order.Field.Rat
import Mathlib.Tactic.Linarith
import Mathlib.Tactic.NormNum
import Mathlib.Tactic.Positivity
import Mathlib.Tactic.Ring
import Realms.Number.Shortest

/-! Rounding to doubles. In units of the last place of one finite double, another one is an integer,
or at least as large as the next power of two, or at most half of a significand. Main statement: all
that lies in the interval of a double rounds to it, to the nearest double and to the even one of two
equally near, and nothing rounds to two doubles of different values. -/

namespace Realms

namespace Double

variable {x y : Double} {q t : ℚ}

/-! ### Values -/

def Finite (x : Double) : Prop := x.isNaN = false ∧ x.isInfinite = false

def magnitude (x : Double) : ℚ := x.significand * 2 ^ x.scale

/-- A rational with a sign put before it. -/
def signed (negative : Bool) (q : ℚ) : ℚ := if negative then -q else q

/-- The rational number that a finite double stands for. -/
def value (x : Double) : ℚ := signed x.isNegative x.magnitude

/-- A rational rounds to a finite double: it is short of the overflow, and any double of another
value is farther away, or it is as far and odd while the given one is even. -/
structure Rounds (q : ℚ) (x : Double) : Prop where
  finite : x.Finite
  bounded : |q| < 2 ^ 1024 - 2 ^ 970
  nearest : ∀ y : Double, y.Finite → y.value ≠ x.value → |q - x.value| < |q - y.value| ∨
    |q - x.value| = |q - y.value| ∧ x.significand % 2 = 0 ∧ y.significand % 2 = 1

theorem Rounds.unique (hx : Rounds q x) (hy : Rounds q y) : x.value = y.value := by
  by_contra hne
  rcases hx.nearest y hy.finite (Ne.symm hne) with hlt | ⟨heq, hx0, hy1⟩ <;>
    rcases hy.nearest x hx.finite hne with hlt' | ⟨heq', hy0, hx1⟩
  · exact lt_asymm hlt hlt'
  · exact hlt.ne heq'.symm
  · exact hlt'.ne heq.symm
  · omega

/-! ### The fields of a finite double -/

theorem fractionSize_eq : fractionSize = 2 ^ 52 := rfl

theorem fraction_lt : x.fraction < 2 ^ 52 := Nat.mod_lt _ (by decide)

theorem finite_iff : x.Finite ↔ x.exponentField ≠ 2047 := by
  by_cases he : x.exponentField = 2047 <;> by_cases hf : x.fraction = 0 <;>
    simp [Finite, isNaN, isInfinite, he, hf]

theorem significand_lt (x : Double) : x.significand < 2 ^ 53 := by
  have hf : x.fraction < 2 ^ 52 := fraction_lt
  unfold significand
  rw [fractionSize_eq]
  split <;> omega

theorem scale_ge (x : Double) : -1074 ≤ x.scale := by
  unfold scale
  split <;> omega

theorem Finite.scale_le (h : x.Finite) : x.scale ≤ 971 := by
  have hlt : x.exponentField < 2048 := Nat.mod_lt _ (by decide)
  have hne := finite_iff.mp h
  unfold scale
  split <;> omega

theorem significand_ge (h : -1074 < x.scale) : 2 ^ 52 ≤ x.significand := by
  unfold scale at h
  unfold significand
  rw [fractionSize_eq]
  split
  · next he => simp [he] at h
  · omega

theorem isZero_iff : x.isZero = true ↔ x.significand = 0 := by
  unfold isZero significand
  rw [fractionSize_eq]
  split <;> next he => simp [he]

theorem magnitude_nonneg (x : Double) : 0 ≤ x.magnitude := by
  unfold magnitude
  positivity

theorem magnitude_eq_zero : x.magnitude = 0 ↔ x.significand = 0 := by
  have hunit : (2 ^ x.scale : ℚ) ≠ 0 := by positivity
  simp [magnitude, hunit]

theorem significand_pos (h : x.isZero = false) : 0 < x.significand :=
  Nat.pos_of_ne_zero fun h0 => by simp [isZero_iff.mpr h0] at h

theorem magnitude_pos (h : x.isZero = false) : 0 < x.magnitude := by
  have hpos : (0 : ℚ) < x.significand := by exact_mod_cast significand_pos h
  unfold magnitude
  positivity

/-! ### Units of the last place -/

/-- A double in units of the last place of another one. -/
theorem units_cases (x y : Double) :
    x.scale = y.scale ∧ y.magnitude / 2 ^ x.scale = y.significand ∨
    x.scale < y.scale ∧ 2 ^ 53 ≤ y.magnitude / 2 ^ x.scale ∨
    y.scale < x.scale ∧ y.magnitude / 2 ^ x.scale ≤ y.significand / 2 := by
  have hx : (0 : ℚ) < 2 ^ x.scale := by positivity
  have hunits : y.magnitude / 2 ^ x.scale = y.significand * 2 ^ (y.scale - x.scale) := by
    rw [magnitude, zpow_sub₀ two_ne_zero, mul_div_assoc]
  rw [hunits]
  rcases lt_trichotomy x.scale y.scale with hlt | heq | hgt
  · right; left
    have hm : (2 ^ 52 : ℚ) ≤ y.significand := by
      exact_mod_cast significand_ge (lt_of_le_of_lt x.scale_ge hlt)
    have hp : (2 ^ (1 : ℤ) : ℚ) ≤ 2 ^ (y.scale - x.scale) :=
      zpow_le_zpow_right₀ one_le_two (by omega)
    refine ⟨hlt, ?_⟩
    calc (2 ^ 53 : ℚ) = 2 ^ 52 * 2 ^ (1 : ℤ) := by norm_num
      _ ≤ y.significand * 2 ^ (y.scale - x.scale) := by gcongr
  · left
    simp [heq]
  · right; right
    have hp : (2 ^ (y.scale - x.scale) : ℚ) ≤ 2 ^ (-1 : ℤ) :=
      zpow_le_zpow_right₀ one_le_two (by omega)
    refine ⟨hgt, ?_⟩
    calc (y.significand : ℚ) * 2 ^ (y.scale - x.scale) ≤ y.significand * 2 ^ (-1 : ℤ) := by gcongr
      _ = y.significand / 2 := by norm_num [div_eq_mul_inv]

/-- A magnitude has one significand and one scale. -/
theorem fields_of_magnitude_eq (h : y.magnitude = x.magnitude) :
    y.significand = x.significand ∧ y.scale = x.scale := by
  have hunit : (0 : ℚ) < 2 ^ x.scale := by positivity
  have hself : y.magnitude / 2 ^ x.scale = x.significand := by
    rw [h, magnitude, mul_div_cancel_right₀ _ hunit.ne']
  rcases units_cases x y with ⟨hs, hr⟩ | ⟨hs, hr⟩ | ⟨hs, hr⟩
  · rw [hself] at hr
    exact ⟨by exact_mod_cast hr.symm, hs.symm⟩
  · rw [hself] at hr
    have : 2 ^ 53 ≤ x.significand := by exact_mod_cast hr
    exact absurd x.significand_lt this.not_gt
  · rw [hself] at hr
    have hge : (2 ^ 52 : ℚ) ≤ x.significand := by
      exact_mod_cast significand_ge (lt_of_le_of_lt y.scale_ge hs)
    have hlt : (y.significand : ℚ) < 2 ^ 53 := by exact_mod_cast y.significand_lt
    linarith

/-! ### The interval of a double -/

/-- A rational lies between the ends of an interval, or at one of them if the interval is closed. -/
def Interval.Contains (i : Interval) (q : ℚ) : Prop :=
  if i.closed then i.low * 2 ^ i.scale ≤ q ∧ q ≤ i.high * 2 ^ i.scale
  else i.low * 2 ^ i.scale < q ∧ q < i.high * 2 ^ i.scale

/-- Half of the gap below a double in units of its last place, or less. -/
def lowerHalf (x : Double) : ℚ := if x.significand = fractionSize then 1 / 4 else 1 / 2

theorem interval_ends (hx : x.isZero = false) :
    x.interval.low * 2 ^ x.interval.scale = (x.significand - x.lowerHalf) * 2 ^ x.scale ∧
    x.interval.high * 2 ^ x.interval.scale = ((x.significand + 1 / 2) * 2 ^ x.scale : ℚ) := by
  have hquarter : (2 ^ (x.scale - 2) : ℚ) = 2 ^ x.scale / 4 := by
    rw [zpow_sub₀ two_ne_zero]
    norm_num
  have hpos := significand_pos hx
  constructor
  · simp only [interval, hquarter, lowerHalf]
    split
    · rw [Nat.cast_sub (by omega)]
      push_cast
      ring
    · rw [Nat.cast_sub (by omega)]
      push_cast
      ring
  · simp only [interval, hquarter]
    push_cast
    ring

theorem contains_iff_units (hx : x.isZero = false) : x.interval.Contains q ↔
    if x.significand % 2 = 0 then
      x.significand - x.lowerHalf ≤ q / 2 ^ x.scale ∧ q / 2 ^ x.scale ≤ x.significand + 1 / 2
    else
      x.significand - x.lowerHalf < q / 2 ^ x.scale ∧ q / 2 ^ x.scale < x.significand + 1 / 2 := by
  have hunit : (0 : ℚ) < 2 ^ x.scale := by positivity
  obtain ⟨hlow, hhigh⟩ := interval_ends hx
  rw [Interval.Contains, hlow, hhigh, le_div_iff₀ hunit, div_le_iff₀ hunit, lt_div_iff₀ hunit,
    div_lt_iff₀ hunit]
  simp only [interval, decide_eq_true_eq]

/-- Where a rational in the interval of a double lies, in units of the last place; only an even
double has the ends of its interval. -/
structure Near (x : Double) (t : ℚ) : Prop where
  low : x.significand - x.lowerHalf ≤ t
  high : t ≤ x.significand + 1 / 2
  even_of_low : t = x.significand - x.lowerHalf → x.significand % 2 = 0
  even_of_high : t = x.significand + 1 / 2 → x.significand % 2 = 0

theorem Interval.Contains.near (h : x.interval.Contains q) (hx : x.isZero = false) :
    x.Near (q / 2 ^ x.scale) := by
  rw [contains_iff_units hx] at h
  split at h
  · next heven => exact ⟨h.1, h.2, fun _ => heven, fun _ => heven⟩
  · exact ⟨h.1.le, h.2.le, fun heq => absurd heq h.1.ne', fun heq => absurd heq h.2.ne⟩

/-- A double lies in its own interval. -/
theorem contains_magnitude (hx : x.isZero = false) : x.interval.Contains x.magnitude := by
  have hunit : (0 : ℚ) < 2 ^ x.scale := by positivity
  have hhalf : 0 < x.lowerHalf := by
    unfold lowerHalf
    split <;> norm_num
  rw [contains_iff_units hx, magnitude, mul_div_cancel_right₀ _ hunit.ne']
  split <;> constructor <;> linarith

/-! ### Nearest doubles -/

/-- A point on the near side of the middle between two others. -/
theorem nearer_of_le {a b : ℚ} {P : Prop} (hab : a < b) (hle : 2 * t ≤ a + b)
    (htie : 2 * t = a + b → P) : |t - a| < |t - b| ∨ |t - a| = |t - b| ∧ P := by
  have hb : |t - b| = b - t := by rw [abs_sub_comm, abs_of_pos (by linarith)]
  rw [hb]
  rcases hle.lt_or_eq with hlt | heq
  · left
    rw [abs_lt]
    constructor <;> linarith
  · right
    refine ⟨?_, htie heq⟩
    rw [abs_of_nonneg (by linarith)]
    linarith

theorem nearer_of_ge {a b : ℚ} {P : Prop} (hba : b < a) (hle : a + b ≤ 2 * t)
    (htie : 2 * t = a + b → P) : |t - a| < |t - b| ∨ |t - a| = |t - b| ∧ P := by
  have h := nearer_of_le (t := -t) (neg_lt_neg hba) (by linarith) fun heq => htie (by linarith)
  rwa [← abs_neg, ← abs_neg (-t - -b), show -(-t - -a) = t - a by ring,
    show -(-t - -b) = t - b by ring] at h

theorem lowerHalf_le (x : Double) : x.lowerHalf ≤ 1 / 2 := by
  unfold lowerHalf
  split <;> norm_num

/-- A point near a double is nearer to it than to any double of another magnitude, or as near and
the other one is odd. -/
theorem Near.nearer (h : x.Near t) (hne : y.magnitude ≠ x.magnitude) :
    |t - x.significand| < |t - y.magnitude / 2 ^ x.scale| ∨
      |t - x.significand| = |t - y.magnitude / 2 ^ x.scale| ∧
        x.significand % 2 = 0 ∧ y.significand % 2 = 1 := by
  obtain ⟨hlow, hhigh, heven, heven'⟩ := h
  have hhalf := x.lowerHalf_le
  rcases units_cases x y with ⟨hs, hr⟩ | ⟨hs, hr⟩ | ⟨hs, hr⟩
  · -- two integers, which are at least one apart
    rw [hr]
    have hne' : y.significand ≠ x.significand := fun he => hne (by rw [magnitude, he, ← hs]; rfl)
    rcases lt_or_gt_of_ne hne' with hlt | hgt
    · have hle : (y.significand + 1 : ℚ) ≤ x.significand := by exact_mod_cast hlt
      refine nearer_of_ge (by linarith) (by linarith) fun htie => ?_
      have hx := heven (by linarith)
      have hsucc : (x.significand : ℚ) = (y.significand + 1 : ℕ) := by push_cast; linarith
      have : x.significand = y.significand + 1 := by exact_mod_cast hsucc
      omega
    · have hle : (x.significand + 1 : ℚ) ≤ y.significand := by exact_mod_cast hgt
      refine nearer_of_le (by linarith) (by linarith) fun htie => ?_
      have hx := heven' (by linarith)
      have hsucc : (y.significand : ℚ) = (x.significand + 1 : ℕ) := by push_cast; linarith
      have : y.significand = x.significand + 1 := by exact_mod_cast hsucc
      omega
  · -- a power of two that is too large for a significand
    have hle : (x.significand + 1 : ℚ) ≤ 2 ^ 53 := by exact_mod_cast x.significand_lt
    refine nearer_of_le (by linarith) (by linarith) fun htie => ?_
    have hx := heven' (by linarith)
    have hsucc : (x.significand : ℚ) + 1 = 2 ^ 53 := by linarith
    have : x.significand + 1 = 2 ^ 53 := by exact_mod_cast hsucc
    omega
  · -- at most half of a significand, and the gap below may be as small as that
    have hge : 2 ^ 52 ≤ x.significand := significand_ge (lt_of_le_of_lt y.scale_ge hs)
    have hle : (y.significand + 1 : ℚ) ≤ 2 ^ 53 := by exact_mod_cast y.significand_lt
    by_cases hp : x.significand = fractionSize
    · have hpower : x.significand = 2 ^ 52 := hp
      have hm : (x.significand : ℚ) = 2 ^ 52 := by exact_mod_cast hpower
      have hquarter : x.lowerHalf = 1 / 4 := if_pos hp
      rw [hquarter] at hlow heven
      refine nearer_of_ge (by linarith) (by linarith) fun htie => ?_
      have hsucc : (y.significand : ℚ) + 1 = 2 ^ 53 := by linarith
      have : y.significand + 1 = 2 ^ 53 := by exact_mod_cast hsucc
      omega
    · have hgt : (2 ^ 52 + 1 : ℚ) ≤ x.significand := by
        exact_mod_cast Nat.lt_of_le_of_ne hge (Ne.symm hp)
      exact nearer_of_ge (by linarith) (by linarith) fun htie => by linarith

theorem abs_signed (b : Bool) (q : ℚ) : |signed b q| = |q| := by
  cases b
  · rfl
  · exact abs_neg q

theorem abs_signed_sub (b : Bool) (q r : ℚ) : |signed b q - signed b r| = |q - r| := by
  cases b
  · rfl
  · simp only [signed, if_true]
    rw [← abs_neg, show -(-q - -r) = q - r by ring]

theorem abs_signed_sub_of_ne {b b' : Bool} (h : b ≠ b') {q r : ℚ} (hq : 0 ≤ q) (hr : 0 ≤ r) :
    |signed b q - signed b' r| = q + r := by
  cases b <;> cases b'
  · exact absurd rfl h
  · simp only [signed, if_true, Bool.false_eq_true, if_false]
    rw [abs_of_nonneg (by linarith)]
    ring
  · simp only [signed, if_true, Bool.false_eq_true, if_false]
    rw [abs_of_nonpos (by linarith)]
    ring
  · exact absurd rfl h

/-- Half a unit above the largest double is where the overflow begins. -/
theorem overflow_eq : (2 ^ 1024 - 2 ^ 970 : ℚ) = (2 ^ 53 - 1 / 2) * 2 ^ (971 : ℤ) := by
  have hfull : (2 ^ 1024 : ℚ) = 2 ^ 54 * 2 ^ 970 := pow_add 2 54 970
  have hdouble : (2 ^ (971 : ℤ) : ℚ) = 2 * 2 ^ 970 := (zpow_natCast 2 971).trans (pow_succ' 2 970)
  rw [hfull, hdouble]
  generalize (2 ^ 970 : ℚ) = u
  ring

theorem Near.bounded (h : x.Near (q / 2 ^ x.scale)) (hx : x.Finite) : q < 2 ^ 1024 - 2 ^ 970 := by
  have hunit : (0 : ℚ) < 2 ^ x.scale := by positivity
  have hlast : (2 ^ x.scale : ℚ) ≤ 2 ^ (971 : ℤ) := zpow_le_zpow_right₀ one_le_two hx.scale_le
  have hlt : q / 2 ^ x.scale < 2 ^ 53 - 1 / 2 := by
    have hle : (x.significand + 1 : ℚ) ≤ 2 ^ 53 := by exact_mod_cast x.significand_lt
    refine lt_of_le_of_ne (h.high.trans (by linarith)) fun heq => ?_
    have hodd : (x.significand : ℚ) + 1 = 2 ^ 53 := by linarith [h.high]
    have : x.significand + 1 = 2 ^ 53 := by exact_mod_cast hodd
    have := h.even_of_high (by linarith)
    omega
  rw [overflow_eq]
  calc q < (2 ^ 53 - 1 / 2) * 2 ^ x.scale := (div_lt_iff₀ hunit).mp hlt
    _ ≤ (2 ^ 53 - 1 / 2) * 2 ^ (971 : ℤ) := mul_le_mul_of_nonneg_left hlast (by norm_num)

theorem Near.pos (h : x.Near (q / 2 ^ x.scale)) (hx : x.isZero = false) : 0 < q := by
  have hone : (1 : ℚ) ≤ x.significand := by exact_mod_cast significand_pos hx
  have ht : 0 < q / 2 ^ x.scale := by linarith [h.low, x.lowerHalf_le]
  exact (div_pos_iff_of_pos_right (by positivity)).mp ht

/-- What is near to a double rounds to it, signs being equal. -/
theorem Near.rounds (h : x.Near (q / 2 ^ x.scale)) (hx : x.Finite) (h0 : x.isZero = false) :
    Rounds (signed x.isNegative q) x where
  finite := hx
  bounded := by
    rw [abs_signed, abs_of_pos (h.pos h0)]
    exact h.bounded hx
  nearest y hy hne := by
    have hunit : (0 : ℚ) < 2 ^ x.scale := by positivity
    have hscale (r : ℚ) : |q - r| = |q / 2 ^ x.scale - r / 2 ^ x.scale| * 2 ^ x.scale := by
      rw [← sub_div, abs_div, abs_of_pos hunit, div_mul_cancel₀ _ hunit.ne']
    have hself : x.magnitude / 2 ^ x.scale = x.significand := mul_div_cancel_right₀ _ hunit.ne'
    have hmagnitude (hne : y.magnitude ≠ x.magnitude) : |q - x.magnitude| < |q - y.magnitude| ∨
        |q - x.magnitude| = |q - y.magnitude| ∧ x.significand % 2 = 0 ∧ y.significand % 2 = 1 := by
      rw [hscale, hscale, hself, mul_lt_mul_iff_left₀ hunit, mul_left_inj' hunit.ne']
      exact h.nearer hne
    by_cases hsign : y.isNegative = x.isNegative
    · rw [value, value, hsign, abs_signed_sub, abs_signed_sub]
      exact hmagnitude fun heq => hne (by rw [value, value, hsign, heq])
    · left
      have hq := h.pos h0
      rw [value, value, abs_signed_sub,
        abs_signed_sub_of_ne (Ne.symm hsign) hq.le y.magnitude_nonneg]
      rcases y.magnitude_nonneg.eq_or_lt with hy0 | hypos
      · -- zero is not odd, so it is farther away
        rcases hmagnitude (hy0 ▸ (magnitude_pos h0).ne) with hlt | ⟨-, -, hodd⟩
        · simpa [← hy0, abs_of_pos hq] using hlt
        · have hzero := magnitude_eq_zero.mp hy0.symm
          omega
      · have hlt : |q - y.magnitude| < q + y.magnitude := abs_lt.mpr ⟨by linarith, by linarith⟩
        by_cases heq : y.magnitude = x.magnitude
        · rwa [← heq]
        · exact ((hmagnitude heq).elim le_of_lt fun htie => htie.1.le).trans_lt hlt

theorem value_eq_zero : x.value = 0 ↔ x.isZero = true := by
  rw [isZero_iff, ← magnitude_eq_zero, value, ← abs_eq_zero, abs_signed, abs_eq_zero]

theorem rounds_zero (hx : x.isZero = true) : Rounds 0 x := by
  have hvalue := value_eq_zero.mpr hx
  refine ⟨?_, ?_, fun y _ hne => .inl ?_⟩
  · rw [finite_iff]
    intro he
    simp [isZero, he] at hx
  · rw [abs_zero, sub_pos]
    exact pow_lt_pow_right₀ one_lt_two (by norm_num)
  · rw [hvalue] at hne ⊢
    simpa using hne

/-- Doubles of one value that is not zero are the same in sign and fields. -/
theorem fields_of_value_eq (h : y.value = x.value) (hx : x.isZero = false) :
    y.isNegative = x.isNegative ∧ y.significand = x.significand ∧ y.scale = x.scale := by
  have hpos := magnitude_pos hx
  have hnonneg := y.magnitude_nonneg
  by_cases hsign : y.isNegative = x.isNegative
  · refine ⟨hsign, fields_of_magnitude_eq ?_⟩
    rw [value, value, hsign, ← sub_eq_zero, ← abs_eq_zero, abs_signed_sub, abs_eq_zero] at h
    exact sub_eq_zero.mp h
  · rw [value, value, ← sub_eq_zero, ← abs_eq_zero,
      abs_signed_sub_of_ne hsign hnonneg hpos.le] at h
    linarith

end Double

end Realms
