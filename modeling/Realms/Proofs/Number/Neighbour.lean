import Mathlib.Tactic.LinearCombination
import Realms.Proofs.Number.Rounding

/-! The doubles next to a finite double. The words of one sign are in the order of their magnitudes,
so the next magnitude is one unit of the last place above, and the one before it is one unit below,
or half of one. Main statement: what rounds to a double lies in its interval, apart from a quarter
of a unit below the smallest double with a full significand, which the interval leaves out. -/

namespace Realms

namespace Double

variable {x y : Double} {q : ℚ}

/-! ### Words -/

/-- The word after a word that is not the last one of its sign. -/
theorem fields_of_next (h : y.bits.toNat = x.bits.toNat + 1) (hx : x.exponentField ≠ 2047) :
    y.isNegative = x.isNegative ∧
      (y.exponentField = x.exponentField ∧ y.fraction = x.fraction + 1 ∨
        y.exponentField = x.exponentField + 1 ∧ y.fraction = 0 ∧
          x.fraction + 1 = fractionSize) := by
  have hsize : fractionSize = 4503599627370496 := rfl
  have hsign : signWeight = 9223372036854775808 := rfl
  simp only [exponentField, fraction, isNegative, h, hsize, hsign, decide_eq_decide] at hx ⊢
  omega

theorem exists_next (x : Double) (hx : x.exponentField ≠ 2047) :
    ∃ y : Double, y.bits.toNat = x.bits.toNat + 1 := by
  have hlt : x.bits.toNat + 1 < 2 ^ 64 := by
    have hsize : fractionSize = 4503599627370496 := rfl
    have hword := x.bits.toNat_lt
    simp only [exponentField, hsize] at hx
    omega
  exact ⟨⟨.ofNat (x.bits.toNat + 1)⟩, UInt64.toNat_ofNat_of_lt' hlt⟩

theorem exists_previous (hx : x.isZero = false) (hfinite : x.exponentField ≠ 2047) :
    ∃ y : Double, x.bits.toNat = y.bits.toNat + 1 ∧ y.exponentField ≠ 2047 := by
  have hsize : fractionSize = 4503599627370496 := rfl
  have hlt : x.bits.toNat - 1 < 2 ^ 64 := Nat.lt_of_le_of_lt (Nat.sub_le _ _) x.bits.toNat_lt
  have hbefore : (UInt64.ofNat (x.bits.toNat - 1)).toNat = x.bits.toNat - 1 :=
    UInt64.toNat_ofNat_of_lt' hlt
  have hfields : ¬ (x.exponentField = 0 ∧ x.fraction = 0) := by simpa [isZero] using hx
  refine ⟨⟨.ofNat (x.bits.toNat - 1)⟩, ?_, ?_⟩ <;>
    simp only [exponentField, fraction, hsize, hbefore] at hfields hfinite ⊢ <;> omega

/-! ### Magnitudes -/

/-- The magnitude after that of a double is one unit of the last place above it. -/
theorem magnitude_next (h : y.bits.toNat = x.bits.toNat + 1) (hx : x.exponentField ≠ 2047) :
    y.magnitude = (x.significand + 1) * 2 ^ x.scale := by
  obtain ⟨-, ⟨he, hf⟩ | ⟨he, hf, hlast⟩⟩ := fields_of_next h hx
  · by_cases h0 : x.exponentField = 0
    · simp [magnitude, significand, scale, he, hf, h0]
    · simp [magnitude, significand, scale, he, hf, h0, add_assoc]
  · have hone : (x.fraction + 1 : ℚ) = fractionSize := by exact_mod_cast hlast
    by_cases h0 : x.exponentField = 0
    · simp [magnitude, significand, scale, he, hf, h0, hone]
    · simp only [magnitude, significand, scale, he, hf, h0, if_false, Nat.add_eq_zero_iff,
        one_ne_zero, and_false, add_zero]
      push_cast
      rw [add_assoc, hone, show (x.exponentField + 1 - 1075 : ℤ) = x.exponentField - 1075 + 1 by
        ring, zpow_add_one₀ two_ne_zero]
      ring

/-- The smallest double with a full significand, or its negative. -/
def LeastFull (x : Double) : Prop := x.significand = fractionSize ∧ x.scale = -1074

/-- The unit between a double and the one before it. -/
theorem scale_previous (h : x.bits.toNat = y.bits.toNat + 1) (hy : y.exponentField ≠ 2047) :
    (2 ^ y.scale : ℚ) = 2 * x.lowerHalf * 2 ^ x.scale ∨ x.LeastFull ∧ y.scale = x.scale := by
  obtain ⟨-, ⟨he, hf⟩ | ⟨he, hf, -⟩⟩ := fields_of_next h hy
  · left
    have hscale : y.scale = x.scale := by simp only [scale, he]
    have hlower : x.lowerHalf = 1 / 2 := by
      have hlt : x.fraction < 2 ^ 52 := fraction_lt
      refine if_neg ?_
      rw [significand, fractionSize_eq]
      split <;> omega
    rw [hscale, hlower]
    ring
  · have hfull : x.significand = fractionSize := by simp [significand, he, hf]
    by_cases h0 : y.exponentField = 0
    · right
      have hscale : x.scale = -1074 := by simp [scale, he, h0]
      have hscale' : y.scale = -1074 := by simp [scale, h0]
      exact ⟨⟨hfull, hscale⟩, hscale'.trans hscale.symm⟩
    · left
      have hscale : x.scale = y.scale + 1 := by
        simp only [scale, he, h0, if_false, Nat.add_eq_zero_iff, one_ne_zero, and_false]
        omega
      have hlower : x.lowerHalf = 1 / 4 := if_pos hfull
      rw [hscale, hlower, zpow_add_one₀ two_ne_zero]
      ring

/-- Half a unit above the last finite double is the bound of what rounds to one. -/
theorem overflow_of_next (h : y.bits.toNat = x.bits.toNat + 1) (hx : x.exponentField ≠ 2047)
    (hy : y.exponentField = 2047) :
    ((x.significand + 1 / 2) * 2 ^ x.scale : ℚ) = 2 ^ 1024 - 2 ^ 970 := by
  obtain ⟨-, ⟨he, -⟩ | ⟨he, -, hlast⟩⟩ := fields_of_next h hx
  · exact absurd (he ▸ hy) hx
  · have hfield : x.exponentField = 2046 := by omega
    have hsignificand : x.significand + 1 = 2 ^ 53 := by
      rw [significand, hfield, if_neg (by decide), add_assoc, hlast, fractionSize_eq]
      norm_num
    have hcast : (x.significand + 1 : ℚ) = 2 ^ 53 := by exact_mod_cast hsignificand
    have hscale : x.scale = 971 := by simp [scale, hfield]
    rw [overflow_eq, hscale, ← hcast]
    ring

/-! ### What rounds to a double -/

/-- A point that is not nearer to the larger of two others is not beyond the middle. -/
theorem le_of_nearer {t a b : ℚ} {P : Prop} (hab : a < b)
    (h : |t - a| < |t - b| ∨ |t - a| = |t - b| ∧ P) : 2 * t ≤ a + b ∧ (2 * t = a + b → P) := by
  constructor
  · by_contra hlt
    have hta : |t - a| = t - a := abs_of_pos (by linarith)
    have htb : |t - b| < t - a := abs_lt.mpr ⟨by linarith, by linarith⟩
    rcases h with h | h
    · linarith
    · linarith [h.1]
  · intro heq
    have htie : |t - a| = |t - b| := by
      rw [show t - b = -(t - a) by linarith, abs_neg]
    exact (h.resolve_left (htie ▸ lt_irrefl _)).2

theorem ge_of_nearer {t a b : ℚ} {P : Prop} (hba : b < a)
    (h : |t - a| < |t - b| ∨ |t - a| = |t - b| ∧ P) : a + b ≤ 2 * t ∧ (2 * t = a + b → P) := by
  have hneg (c : ℚ) : |-t - -c| = |t - c| := by rw [← abs_neg, neg_sub_neg, neg_sub]
  have := le_of_nearer (t := -t) (neg_lt_neg hba) (by rwa [hneg, hneg])
  exact ⟨by linarith, fun heq => this.2 (by linarith)⟩

/-- What rounds to a double is no nearer to another one of the same sign. -/
theorem Rounds.nearer (h : Rounds (signed x.isNegative q) x) (hy : y.Finite)
    (hsign : y.isNegative = x.isNegative) (hne : y.magnitude ≠ x.magnitude) :
    |q - x.magnitude| < |q - y.magnitude| ∨
      |q - x.magnitude| = |q - y.magnitude| ∧ x.significand % 2 = 0 := by
  have hvalue : y.value ≠ x.value := by
    rw [value, value, hsign, ← sub_ne_zero, ← abs_ne_zero, abs_signed_sub, abs_ne_zero]
    exact sub_ne_zero.mpr hne
  have hnearest := h.nearest y hy hvalue
  rw [value, value, hsign, abs_signed_sub, abs_signed_sub] at hnearest
  exact hnearest.imp_right fun htie => ⟨htie.1, htie.2.1⟩

theorem Rounds.le_high (h : Rounds (signed x.isNegative q) x) :
    q ≤ (x.significand + 1 / 2) * 2 ^ x.scale ∧
      (q = (x.significand + 1 / 2) * 2 ^ x.scale → x.significand % 2 = 0) := by
  have hx := finite_iff.mp h.finite
  have hunit : (0 : ℚ) < 2 ^ x.scale := by positivity
  obtain ⟨y, hy⟩ := exists_next x hx
  by_cases hlast : y.exponentField = 2047
  · have hbound := h.bounded
    rw [abs_signed, ← overflow_of_next hy hx hlast] at hbound
    have hlt := (le_abs_self q).trans_lt hbound
    exact ⟨hlt.le, fun heq => absurd heq hlt.ne⟩
  · have hnext := magnitude_next hy hx
    have hlt : x.magnitude < y.magnitude := by
      rw [hnext, magnitude]
      gcongr
      exact lt_add_one _
    have hnear := le_of_nearer hlt
      (h.nearer (finite_iff.mpr hlast) (fields_of_next hy hx).1 hlt.ne')
    rw [hnext, magnitude] at hnear
    exact ⟨by linarith, fun heq => hnear.2 (by linarith)⟩

theorem Rounds.low_le (h : Rounds (signed x.isNegative q) x) (hx : x.isZero = false) :
    (x.significand - x.lowerHalf) * 2 ^ x.scale ≤ q ∧
      (q = (x.significand - x.lowerHalf) * 2 ^ x.scale → x.significand % 2 = 0) ∨
    x.LeastFull ∧ (x.significand - 1 / 2) * 2 ^ x.scale ≤ q := by
  have hfinite := finite_iff.mp h.finite
  obtain ⟨y, hy, hyfinite⟩ := exists_previous hx hfinite
  have hunit : (0 : ℚ) < 2 ^ y.scale := by positivity
  have hgap : x.magnitude = y.magnitude + 2 ^ y.scale := by
    rw [magnitude_next hy hyfinite, magnitude]
    ring
  have hnear := ge_of_nearer (by linarith) (h.nearer (finite_iff.mpr hyfinite)
    (fields_of_next hy hyfinite).1.symm (by linarith))
  have hself : x.magnitude = x.significand * 2 ^ x.scale := rfl
  rcases scale_previous hy hyfinite with hstep | ⟨hfull, hstep⟩
  · left
    have hmiddle : x.magnitude + y.magnitude =
        2 * ((x.significand - x.lowerHalf) * 2 ^ x.scale) := by
      linear_combination 2 * hself - hgap - hstep
    rw [hmiddle] at hnear
    exact ⟨by linarith, fun heq => hnear.2 (by linarith)⟩
  · right
    rw [hstep] at hgap
    have hmiddle : x.magnitude + y.magnitude = 2 * ((x.significand - 1 / 2) * 2 ^ x.scale) := by
      linear_combination 2 * hself - hgap
    rw [hmiddle] at hnear
    exact ⟨hfull, by linarith⟩

/-- What rounds to a double lies in its interval, or the double is the smallest one with a full
significand and it lies within half a unit of it. -/
theorem Rounds.contains (h : Rounds (signed x.isNegative q) x) (hx : x.isZero = false) :
    x.interval.Contains q ∨ x.LeastFull ∧ (x.significand - 1 / 2) * 2 ^ x.scale ≤ q ∧
      q ≤ (x.significand + 1 / 2) * 2 ^ x.scale := by
  obtain ⟨hhigh, heven⟩ := h.le_high
  rcases h.low_le hx with ⟨hlow, heven'⟩ | ⟨hfull, hlow⟩
  · left
    obtain ⟨hends, hends'⟩ := interval_ends hx
    rw [Interval.Contains, hends, hends']
    split
    · exact ⟨hlow, hhigh⟩
    · next hodd =>
      have hodd : ¬ x.significand % 2 = 0 := by simpa [interval] using hodd
      exact ⟨lt_of_le_of_ne hlow fun heq => hodd (heven' heq.symm),
        lt_of_le_of_ne hhigh fun heq => hodd (heven heq)⟩
  · exact .inr ⟨hfull, hlow, hhigh⟩

end Double

end Realms
