import Mathlib.Tactic.FieldSimp
import Realms.Number.Text
import Realms.Proofs.Number.Neighbour

/-! The shortest decimal of a double. The comparisons between natural numbers are comparisons
between rationals, and a grid has a point in the interval if one of the two neighbours of the double
on it is one. Main statement: the search ends on one of seventeen grids, with a decimal in the interval of the
double, and no decimal that rounds to the double has fewer digits. -/

namespace Realms

namespace Decimal

variable {d : Decimal} {n k : ℕ}

def value (d : Decimal) : ℚ := d.coefficient * 10 ^ d.exponent

theorem length_pos (n : ℕ) : 0 < length n := Nat.length_toDigits_pos

theorem length_le_iff (hk : 0 < k) : length n ≤ k ↔ n < 10 ^ k :=
  Nat.length_toDigits_le_iff (by decide) hk

theorem lt_pow_length (n : ℕ) : n < 10 ^ length n := (length_le_iff (length_pos n)).mp le_rfl

theorem pow_length_le (hn : 0 < n) : 10 ^ (length n - 1) ≤ n := by
  by_contra hlt
  by_cases hone : length n = 1
  · simp only [hone] at hlt
    omega
  · have hpos := length_pos n
    have := (length_le_iff (by omega)).mpr (Nat.lt_of_not_le hlt)
    omega

/-- The length of a quotient that is at least one. -/
theorem pow_length_div {a n : ℕ} (ha : 0 < a) (h : a ≤ n) :
    10 ^ (length (n / a) - 1) * a ≤ n ∧ n < 10 ^ length (n / a) * a :=
  ⟨(Nat.le_div_iff_mul_le ha).mp (pow_length_le (Nat.div_pos h ha)),
    (Nat.div_lt_iff_lt_mul ha).mp (lt_pow_length (n / a))⟩

/-- The length of the inverse of a quotient that is less than one, rounded up. -/
theorem pow_length_pred_div {a n : ℕ} (hn : 0 < n) (h : n < a) :
    10 ^ (length ((a - 1) / n) - 1) * n < a ∧ a ≤ 10 ^ length ((a - 1) / n) * n := by
  have hlow : 10 ^ (length ((a - 1) / n) - 1) * n ≤ a - 1 :=
    (Nat.le_div_iff_mul_le hn).mp (pow_length_le (Nat.div_pos (by omega) hn))
  have hhigh : a - 1 < 10 ^ length ((a - 1) / n) * n :=
    (Nat.div_lt_iff_lt_mul hn).mp (lt_pow_length ((a - 1) / n))
  omega

/-- The leading digit of a decimal stands at its leading exponent. -/
theorem value_bounds (h : 0 < d.coefficient) :
    10 ^ d.leading ≤ d.value ∧ d.value < (10 ^ (d.leading + 1) : ℚ) := by
  have hpos := length_pos d.coefficient
  have hunit : (0 : ℚ) < 10 ^ d.exponent := by positivity
  have hlow : (10 ^ (length d.coefficient - 1) : ℚ) ≤ d.coefficient := by
    exact_mod_cast pow_length_le h
  have hhigh : (d.coefficient : ℚ) < 10 ^ length d.coefficient := by
    exact_mod_cast lt_pow_length d.coefficient
  have hfirst : d.leading = ((length d.coefficient - 1 : ℕ) : ℤ) + d.exponent := by
    unfold leading
    omega
  have hlast : d.leading + 1 = (length d.coefficient : ℤ) + d.exponent := by
    unfold leading
    omega
  rw [hlast, hfirst, zpow_add₀ (by norm_num), zpow_add₀ (by norm_num), zpow_natCast, zpow_natCast,
    value]
  exact ⟨by gcongr, by gcongr⟩

/-- The value in terms of the leading exponent. -/
theorem value_eq_leading (d : Decimal) : d.value =
    d.coefficient / 10 ^ (length d.coefficient - 1) * 10 ^ d.leading := by
  have hpos := length_pos d.coefficient
  have hexponent : d.leading = d.exponent + ((length d.coefficient - 1 : ℕ) : ℤ) := by
    unfold leading
    omega
  rw [hexponent, zpow_add₀ (by norm_num), zpow_natCast, value]
  field_simp

/-! ### Trailing zeros -/

theorem value_normalize (d : Decimal) : d.normalize.value = d.value := by
  fun_induction normalize d with
  | case1 d h ih =>
    have hten : (d.coefficient : ℚ) = (d.coefficient / 10 : ℕ) * 10 := by
      exact_mod_cast (Nat.div_mul_cancel (Nat.dvd_of_mod_eq_zero h.2)).symm
    rw [ih, value, value, hten, zpow_add_one₀ (by norm_num)]
    ring
  | case2 => rfl

theorem normalize_mod (h : d.coefficient ≠ 0) : d.normalize.coefficient % 10 ≠ 0 := by
  fun_induction normalize d with
  | case1 d h' ih => exact ih (by simp only; omega)
  | case2 d h' => exact fun hmod => h' ⟨h, hmod⟩

theorem normalize_lt (hk : 0 < k) (h0 : d.coefficient ≠ 0) (h : d.coefficient ≤ 10 ^ k) :
    d.normalize.coefficient < 10 ^ k := by
  fun_induction normalize d generalizing k with
  | case1 d h' ih =>
    obtain _ | _ | k := k
    · exact absurd hk (lt_irrefl 0)
    · exact ih one_pos (by simp only; omega) (by simp only; omega)
    · rw [pow_succ] at h
      have hlt := ih (Nat.succ_pos k) (by simp only; omega) (by simp only; omega)
      exact hlt.trans (Nat.pow_lt_pow_right (by decide) (Nat.lt_succ_self _))
  | case2 d h' =>
    refine lt_of_le_of_ne h fun heq => h' ⟨h0, ?_⟩
    rw [heq]
    exact Nat.mod_eq_zero_of_dvd (dvd_pow_self 10 hk.ne')

end Decimal

namespace Double.Interval

variable {i : Interval} {c : ℕ} {p : ℤ} {q q' r : ℚ} {d : Decimal}

/-! ### Comparisons -/

/-- The middle of an interval. -/
def center (i : Interval) : ℚ := i.middle * 2 ^ i.scale

/-- The weights are the power of ten and the power of two, made whole by a common factor. -/
theorem weights_eq (i : Interval) (p : ℤ) : ∃ common : ℚ, 0 < common ∧
    ((i.weights p).1 : ℚ) = 10 ^ p * common ∧ ((i.weights p).2 : ℚ) = 2 ^ i.scale * common := by
  have hwhole (b : ℚ) (hb : b ≠ 0) (n : ℤ) : b ^ n.toNat = b ^ n * b ^ (-n).toNat := by
    rw [← zpow_natCast, ← zpow_natCast b (-n).toNat, ← zpow_add₀ hb]
    congr 1
    omega
  have hten := hwhole 10 (by norm_num) p
  have htwo := hwhole 2 (by norm_num) i.scale
  refine ⟨10 ^ (-p).toNat * 2 ^ (-i.scale).toNat, by positivity, ?_, ?_⟩
  · simp only [weights, Nat.pow_eq]
    push_cast
    rw [hten]
    ring
  · simp only [weights, Nat.pow_eq]
    push_cast
    rw [htwo]
    ring

theorem weights_fst_pos (i : Interval) (p : ℤ) : 0 < (i.weights p).1 := by
  simp only [weights, Nat.pow_eq]
  positivity

theorem weights_snd_pos (i : Interval) (p : ℤ) : 0 < (i.weights p).2 := by
  simp only [weights, Nat.pow_eq]
  positivity

theorem weights_le (n c : ℕ) : n * (i.weights p).2 ≤ c * (i.weights p).1 ↔
    (n * 2 ^ i.scale : ℚ) ≤ c * 10 ^ p := by
  obtain ⟨common, hpos, ha, hb⟩ := i.weights_eq p
  rw [← @Nat.cast_le ℚ, Nat.cast_mul, Nat.cast_mul, ha, hb, ← mul_assoc, ← mul_assoc,
    mul_le_mul_iff_left₀ hpos]

theorem le_weights (n c : ℕ) : c * (i.weights p).1 ≤ n * (i.weights p).2 ↔
    (c * 10 ^ p : ℚ) ≤ n * 2 ^ i.scale := by
  obtain ⟨common, hpos, ha, hb⟩ := i.weights_eq p
  rw [← @Nat.cast_le ℚ, Nat.cast_mul, Nat.cast_mul, ha, hb, ← mul_assoc, ← mul_assoc,
    mul_le_mul_iff_left₀ hpos]

theorem contains_iff : i.contains c p = true ↔ i.Contains (c * 10 ^ p) := by
  have hcontains : i.contains c p = if i.closed then
      decide (i.low * (i.weights p).2 ≤ c * (i.weights p).1) &&
        decide (c * (i.weights p).1 ≤ i.high * (i.weights p).2)
      else decide (i.low * (i.weights p).2 < c * (i.weights p).1) &&
        decide (c * (i.weights p).1 < i.high * (i.weights p).2) := rfl
  rw [hcontains, Contains]
  split
  · simp [weights_le, le_weights]
  · simp only [← Nat.not_le, Bool.and_eq_true, decide_eq_true_eq, weights_le, le_weights, not_le]

/-- What lies between two points of an interval lies in it. -/
theorem Contains.convex (h : i.Contains q) (h' : i.Contains q') (hqr : q ≤ r) (hrq : r ≤ q') :
    i.Contains r := by
  unfold Contains at *
  split at h
  · next hc =>
    rw [if_pos hc] at h' ⊢
    exact ⟨h.1.trans hqr, hrq.trans h'.2⟩
  · next hc =>
    rw [if_neg hc] at h' ⊢
    exact ⟨h.1.trans_le hqr, hrq.trans_lt h'.2⟩

/-! ### Grids -/

/-- The point of a grid just below the middle. -/
def below (i : Interval) (p : ℤ) : ℕ := i.middle * (i.weights p).2 / (i.weights p).1

theorem below_le (i : Interval) (p : ℤ) : i.below p * 10 ^ p ≤ i.center :=
  (le_weights i.middle _).mp (Nat.div_mul_le_self _ _)

theorem lt_below_succ (i : Interval) (p : ℤ) : i.center < (i.below p + 1 : ℕ) * 10 ^ p := by
  rw [center, ← not_le, ← le_weights, not_le]
  rw [mul_comm (i.below p + 1)]
  exact Nat.lt_mul_div_succ _ (i.weights_fst_pos p)

theorem nearestOn_eq (i : Interval) (p : ℤ) : i.nearestOn p =
    if i.contains (i.below p) p && (!i.contains (i.below p + 1) p ||
        decide (2 * (i.middle * (i.weights p).2 % (i.weights p).1) < (i.weights p).1)) then
      some ⟨i.below p, p⟩
    else if i.contains (i.below p + 1) p then some ⟨i.below p + 1, p⟩ else none := rfl

/-- The point that is found is in the interval, and next to the middle. -/
theorem nearestOn_eq_some (h : i.nearestOn p = some d) : d.exponent = p ∧ i.Contains d.value ∧
    d.coefficient ≤ i.below p + 1 := by
  rw [nearestOn_eq] at h
  split at h
  · next hlower =>
    cases h
    simp only [Bool.and_eq_true] at hlower
    exact ⟨rfl, contains_iff.mp hlower.1, Nat.le_succ _⟩
  · split at h
    · next hupper =>
      cases h
      exact ⟨rfl, contains_iff.mp hupper, le_rfl⟩
    · cases h

/-- A grid with a point in the interval is not passed over. -/
theorem nearestOn_ne_none (hi : i.Contains i.center) (h : i.Contains (c * 10 ^ p)) :
    i.nearestOn p ≠ none := by
  have hstep : (0 : ℚ) < 10 ^ p := by positivity
  have hone : i.contains (i.below p) p = true ∨ i.contains (i.below p + 1) p = true := by
    rw [contains_iff, contains_iff]
    rcases Nat.lt_or_ge (i.below p) c with hlt | hge
    · right
      refine hi.convex h (i.lt_below_succ p).le ?_
      gcongr
      exact hlt
    · left
      refine h.convex hi ?_ (i.below_le p)
      gcongr
  rw [nearestOn_eq]
  split
  · exact Option.some_ne_none _
  · next hlower =>
    split
    · exact Option.some_ne_none _
    · next hupper => exact absurd (hone.resolve_right hupper) (by simpa [hupper] using hlower)

/-! ### The search -/

/-- The search ends on the first grid that has a point in the interval. -/
theorem search_eq_some {count : ℕ} (h : i.search p count = some d) :
    ∃ j < count, i.nearestOn (p - j) = some d ∧ ∀ k < j, i.nearestOn (p - k) = none := by
  induction count generalizing p with
  | zero => cases h
  | succ count ih =>
    rw [search] at h
    cases hn : i.nearestOn p with
    | some found =>
      rw [hn] at h
      cases h
      exact ⟨0, Nat.succ_pos _, by simpa using hn, fun k hk => absurd hk (Nat.not_lt_zero k)⟩
    | none =>
      rw [hn] at h
      obtain ⟨j, hj, hfound, hnone⟩ := ih h
      have hshift (k : ℕ) : p - 1 - (k : ℤ) = p - (k + 1 : ℕ) := by omega
      refine ⟨j + 1, Nat.succ_lt_succ hj, hshift j ▸ hfound, fun k hk => ?_⟩
      cases k with
      | zero => simpa using hn
      | succ k => exact hshift k ▸ hnone k (Nat.lt_of_succ_lt_succ hk)

theorem search_ne_none {count j : ℕ} (hj : j < count) (h : i.nearestOn (p - j) ≠ none) :
    i.search p count ≠ none := by
  induction count generalizing p j with
  | zero => exact absurd hj (Nat.not_lt_zero j)
  | succ count ih =>
    rw [search]
    cases hn : i.nearestOn p with
    | some found => exact Option.some_ne_none found
    | none =>
      cases j with
      | zero => exact absurd (by simpa using hn) h
      | succ j =>
        refine ih (Nat.lt_of_succ_lt_succ hj) ?_
        rwa [show p - 1 - (j : ℤ) = p - (j + 1 : ℕ) by omega]

theorem pow_le_center (k : ℕ) :
    10 ^ k * (i.weights 0).1 ≤ i.middle * (i.weights 0).2 ↔ 10 ^ k ≤ i.center := by
  rw [le_weights, center]
  simp

theorem one_le_pow_mul_center (k : ℕ) :
    (i.weights 0).1 ≤ 10 ^ k * (i.middle * (i.weights 0).2) ↔ 1 ≤ 10 ^ k * i.center := by
  have h := le_weights (i := i) (p := 0) (10 ^ k * i.middle) 1
  rw [one_mul, mul_assoc] at h
  rw [h, center]
  simp [mul_assoc]

/-- The leading digit of the middle stands at the leading exponent. -/
theorem center_bounds (hm : 0 < i.middle) : 10 ^ i.leadingExponent ≤ i.center ∧
    i.center < 10 ^ (i.leadingExponent + 1) := by
  have ha := i.weights_fst_pos 0
  have hn : 0 < i.middle * (i.weights 0).2 := Nat.mul_pos hm (i.weights_snd_pos 0)
  have heq : i.leadingExponent = if (i.weights 0).1 ≤ i.middle * (i.weights 0).2 then
      (Decimal.length (i.middle * (i.weights 0).2 / (i.weights 0).1) : ℤ) - 1
    else -(Decimal.length (((i.weights 0).1 - 1) / (i.middle * (i.weights 0).2)) : ℤ) := rfl
  rw [heq]
  split
  · next h =>
    obtain ⟨hlow, hhigh⟩ := Decimal.pow_length_div ha h
    have hpos := Decimal.length_pos (i.middle * (i.weights 0).2 / (i.weights 0).1)
    rw [pow_le_center] at hlow
    rw [← not_le, pow_le_center, not_le] at hhigh
    generalize Decimal.length (i.middle * (i.weights 0).2 / (i.weights 0).1) = k at *
    rw [show (k : ℤ) - 1 = (k - 1 : ℕ) by omega, show ((k - 1 : ℕ) : ℤ) + 1 = k by omega,
      zpow_natCast, zpow_natCast]
    exact ⟨hlow, hhigh⟩
  · next h =>
    obtain ⟨hlow, hhigh⟩ := Decimal.pow_length_pred_div hn (Nat.lt_of_not_le h)
    have hpos := Decimal.length_pos (((i.weights 0).1 - 1) / (i.middle * (i.weights 0).2))
    rw [← not_le, one_le_pow_mul_center, not_le] at hlow
    rw [one_le_pow_mul_center] at hhigh
    generalize Decimal.length (((i.weights 0).1 - 1) / (i.middle * (i.weights 0).2)) = k at *
    rw [show -(k : ℤ) + 1 = -(k - 1 : ℕ) by omega, zpow_neg, zpow_neg, zpow_natCast, zpow_natCast,
      inv_le_iff_one_le_mul₀' (by positivity), ← not_le, inv_le_iff_one_le_mul₀' (by positivity),
      not_le]
    exact ⟨hhigh, hlow⟩

/-- A decimal in an interval has more digits than there are coarse grids without a point in it. -/
theorem lt_length_of_none {j : ℕ} (hm : 0 < i.middle) (hcenter : i.Contains i.center)
    (hnone : ∀ k < j, i.nearestOn (i.leadingExponent - k) = none) (hc : 0 < c)
    (h : i.Contains (c * 10 ^ p)) : j < Decimal.length c := by
  obtain ⟨hlow, hhigh⟩ := center_bounds hm
  have hpos := Decimal.length_pos c
  have hle (k : ℕ) (c' : ℕ) (hc' : i.Contains (c' * 10 ^ (i.leadingExponent - k))) : j ≤ k := by
    by_contra hlt
    exact nearestOn_ne_none hcenter hc' (hnone k (Nat.lt_of_not_le hlt))
  obtain ⟨hleast, hmost⟩ := Decimal.value_bounds (d := ⟨c, p⟩) hc
  have hleading : Decimal.leading ⟨c, p⟩ = p + Decimal.length c - 1 := rfl
  simp only [Decimal.value, hleading] at hleast hmost
  rcases lt_trichotomy (p + Decimal.length c - 1) i.leadingExponent with hlt | hsame | hgt
  · -- the power of ten at the leading digit of the middle lies between
    have hpower : (10 ^ (p + Decimal.length c - 1 + 1) : ℚ) ≤ 10 ^ i.leadingExponent :=
      zpow_le_zpow_right₀ (by norm_num) (by omega)
    have := hle 0 1 (by simpa using h.convex hcenter (hmost.le.trans hpower) hlow)
    omega
  · have := hle (Decimal.length c - 1) c (by
      rwa [show i.leadingExponent - (Decimal.length c - 1 : ℕ) = p by omega])
    omega
  · -- the next power of ten lies between
    have hpower : (10 ^ (i.leadingExponent + 1) : ℚ) ≤ 10 ^ (p + Decimal.length c - 1) :=
      zpow_le_zpow_right₀ (by norm_num) (by omega)
    have hten := hcenter.convex h hhigh.le (hpower.trans hleast)
    rw [zpow_add_one₀ (by norm_num), mul_comm] at hten
    have := hle 0 10 (by simpa using hten)
    omega

end Double.Interval

namespace Double

variable {x : Double} {c : ℕ} {p : ℤ} {q : ℚ}

theorem interval_center (x : Double) : x.interval.center = x.magnitude := by
  have hquarter : (2 ^ (x.scale - 2) : ℚ) = 2 ^ x.scale / 4 := by
    rw [zpow_sub₀ two_ne_zero]
    norm_num
  simp only [Interval.center, interval, hquarter, magnitude]
  push_cast
  ring

theorem interval_bounds (hx : x.isZero = false) : 10 ^ x.interval.leadingExponent ≤ x.magnitude ∧
    x.magnitude < 10 ^ (x.interval.leadingExponent + 1) := by
  have hm : 0 < x.interval.middle := Nat.mul_pos (by decide) (significand_pos hx)
  rw [← interval_center]
  exact Interval.center_bounds hm

theorem contains_of_units (hx : x.isZero = false)
    (hlow : (x.significand - x.lowerHalf) * 2 ^ x.scale < q)
    (hhigh : q < (x.significand + 1 / 2) * 2 ^ x.scale) : x.interval.Contains q := by
  have hunit : (0 : ℚ) < 2 ^ x.scale := by positivity
  rw [contains_iff_units hx]
  rw [← lt_div_iff₀ hunit] at hlow
  rw [← div_lt_iff₀ hunit] at hhigh
  split
  · exact ⟨hlow.le, hhigh.le⟩
  · exact ⟨hlow, hhigh⟩

/-- The step of the grid of seventeen digits is smaller than the interval. -/
theorem step_lt (hx : x.isZero = false) : (10 ^ (x.interval.leadingExponent - 16) : ℚ) <
    (x.lowerHalf + 1 / 2) * 2 ^ x.scale := by
  have hunit : (0 : ℚ) < 2 ^ x.scale := by positivity
  have hstep : (10 ^ (x.interval.leadingExponent - 16) : ℚ) * 10 ^ 16 ≤
      x.significand * 2 ^ x.scale := by
    have hbound := (interval_bounds hx).1
    rw [magnitude] at hbound
    rwa [zpow_sub₀ (by norm_num), show (10 ^ (16 : ℤ) : ℚ) = 10 ^ 16 by norm_num,
      div_mul_cancel₀ _ (by norm_num)]
  have hratio : (x.significand : ℚ) < (x.lowerHalf + 1 / 2) * 10 ^ 16 := by
    unfold lowerHalf
    split
    · next h =>
      rw [h, fractionSize_eq]
      norm_num
    · have hlt : (x.significand : ℚ) < 2 ^ 53 := by exact_mod_cast x.significand_lt
      linarith
  have hle : (x.significand : ℚ) * 2 ^ x.scale < (x.lowerHalf + 1 / 2) * 10 ^ 16 * 2 ^ x.scale := by
    gcongr
  linarith

/-- Seventeen digits are enough for a decimal in the interval. -/
theorem exists_seventeen (hx : x.isZero = false) :
    ∃ c : ℕ, x.interval.Contains (c * 10 ^ (x.interval.leadingExponent - 16)) := by
  have hstep := step_lt hx
  have hbelow := x.interval.below_le (x.interval.leadingExponent - 16)
  have habove := x.interval.lt_below_succ (x.interval.leadingExponent - 16)
  rw [interval_center, magnitude] at hbelow habove
  generalize x.interval.below (x.interval.leadingExponent - 16) = c at *
  have hunit : (0 : ℚ) < 2 ^ x.scale := by positivity
  push_cast at habove
  by_cases hnear : (x.significand - x.lowerHalf) * 2 ^ x.scale <
      c * 10 ^ (x.interval.leadingExponent - 16)
  · exact ⟨c, contains_of_units hx hnear (by linarith)⟩
  · have hhalf : 0 < x.lowerHalf * 2 ^ x.scale := by
      unfold lowerHalf
      split <;> positivity
    refine ⟨c + 1, contains_of_units hx ?_ ?_⟩ <;> push_cast <;> linarith

/-- The shortest decimal is found on the first grid with a point in the interval. -/
theorem shortest_found (hx : x.isZero = false) : ∃ j : ℕ, j < 17 ∧ ∃ d,
    x.interval.nearestOn (x.interval.leadingExponent - j) = some d ∧
    (∀ k < j, x.interval.nearestOn (x.interval.leadingExponent - k) = none) ∧
    x.shortest = d.normalize := by
  obtain ⟨c, hc⟩ := exists_seventeen hx
  have hcenter : x.interval.Contains x.interval.center :=
    x.interval_center ▸ contains_magnitude hx
  have hlast := Interval.nearestOn_ne_none hcenter hc
  have hsearch : x.interval.search x.interval.leadingExponent 17 ≠ none :=
    Interval.search_ne_none (j := 16) (by decide) hlast
  obtain ⟨d, hd⟩ := Option.ne_none_iff_exists'.mp hsearch
  obtain ⟨j, hj, hfound, hnone⟩ := Interval.search_eq_some hd
  refine ⟨j, hj, d, hfound, hnone, ?_⟩
  simp only [shortest, hd, Option.getD_some]

theorem coefficient_pos_of_contains (hx : x.isZero = false) {d : Decimal}
    (h : x.interval.Contains d.value) : 0 < d.coefficient := by
  have hpos := (h.near hx).pos hx
  refine Nat.pos_of_ne_zero fun h0 => ?_
  simp [Decimal.value, h0] at hpos

/-- The shortest decimal lies in the interval of the double. -/
theorem shortest_contains (hx : x.isZero = false) : x.interval.Contains x.shortest.value := by
  obtain ⟨j, -, d, hfound, -, heq⟩ := shortest_found hx
  rw [heq, Decimal.value_normalize]
  exact (Interval.nearestOn_eq_some hfound).2.1

theorem shortest_coefficient_pos (hx : x.isZero = false) : 0 < x.shortest.coefficient :=
  coefficient_pos_of_contains hx (shortest_contains hx)

/-- The shortest decimal has no trailing zeros. -/
theorem shortest_mod (hx : x.isZero = false) : x.shortest.coefficient % 10 ≠ 0 := by
  obtain ⟨j, -, d, hfound, -, heq⟩ := shortest_found hx
  rw [heq]
  have hd := (Interval.nearestOn_eq_some hfound).2.1
  exact Decimal.normalize_mod (coefficient_pos_of_contains hx hd).ne'

/-- A decimal that is found on the grid of so many digits has no more of them, trailing zeros
aside. -/
theorem length_of_found (hx : x.isZero = false) {j : ℕ} {d : Decimal}
    (h : x.interval.nearestOn (x.interval.leadingExponent - j) = some d) :
    Decimal.length d.normalize.coefficient ≤ j + 1 := by
  obtain ⟨-, hcontains, hle⟩ := Interval.nearestOn_eq_some h
  have hstep : (0 : ℚ) < 10 ^ (x.interval.leadingExponent - j) := by positivity
  have hbelow : x.interval.below (x.interval.leadingExponent - j) < 10 ^ (j + 1) := by
    have hle := x.interval.below_le (x.interval.leadingExponent - j)
    have hlt := (interval_bounds hx).2
    have hsplit : x.interval.leadingExponent + 1 =
        ((j + 1 : ℕ) : ℤ) + (x.interval.leadingExponent - j) := by omega
    rw [hsplit, zpow_add₀ (by norm_num), zpow_natCast, ← interval_center] at hlt
    exact_mod_cast lt_of_mul_lt_mul_right (hle.trans_lt hlt) hstep.le
  refine (Decimal.length_le_iff (Nat.succ_pos j)).mpr (Decimal.normalize_lt (Nat.succ_pos j)
    (coefficient_pos_of_contains hx hcontains).ne' (by omega))

theorem shortest_length_le (hx : x.isZero = false) :
    Decimal.length x.shortest.coefficient ≤ 17 := by
  obtain ⟨j, hj, d, hfound, -, heq⟩ := shortest_found hx
  rw [heq]
  exact (length_of_found hx hfound).trans hj

/-- No decimal in the interval has fewer digits. -/
theorem shortest_length_le_of_contains (hx : x.isZero = false)
    (h : x.interval.Contains (c * 10 ^ p)) :
    Decimal.length x.shortest.coefficient ≤ Decimal.length c := by
  obtain ⟨j, -, d, hfound, hnone, heq⟩ := shortest_found hx
  have hlength := length_of_found hx hfound
  rw [← heq] at hlength
  have hm : 0 < x.interval.middle := Nat.mul_pos (by decide) (significand_pos hx)
  have hcenter : x.interval.Contains x.interval.center :=
    x.interval_center ▸ contains_magnitude hx
  have hc : 0 < c := coefficient_pos_of_contains hx (d := ⟨c, p⟩) h
  exact hlength.trans (Interval.lt_length_of_none hm hcenter hnone hc h)

/-- All that rounds to the smallest double with a full significand. -/
def leastFullInterval : Interval := ⟨2 ^ 54 - 2, 2 ^ 54, 2 ^ 54 + 2, true, -1076⟩

theorem leastFullInterval_none : ∀ k < 16,
    leastFullInterval.nearestOn (leastFullInterval.leadingExponent - (k : ℕ)) = none := by
  decide +kernel

theorem leastFullInterval_contains : leastFullInterval.Contains q ↔
    (2 ^ 52 - 1 / 2) * 2 ^ (-1074 : ℤ) ≤ q ∧ q ≤ (2 ^ 52 + 1 / 2) * 2 ^ (-1074 : ℤ) := by
  have hquarter : (2 ^ (-1074 : ℤ) : ℚ) = 4 * 2 ^ (-1076 : ℤ) := by
    rw [show (-1074 : ℤ) = 2 + -1076 from rfl, zpow_add₀ two_ne_zero]
    norm_num
  have hlow : ((2 ^ 54 - 2 : ℕ) : ℚ) = (2 ^ 52 - 1 / 2) * 4 := by norm_num
  have hhigh : ((2 ^ 54 + 2 : ℕ) : ℚ) = (2 ^ 52 + 1 / 2) * 4 := by norm_num
  have hclosed : leastFullInterval.closed = true := rfl
  rw [Interval.Contains, if_pos hclosed, hquarter, ← mul_assoc, ← mul_assoc, ← hlow, ← hhigh]
  rfl

theorem leastFullInterval_center : leastFullInterval.Contains leastFullInterval.center := by
  have hunit : (0 : ℚ) < 2 ^ leastFullInterval.scale := by positivity
  have hlow : leastFullInterval.low ≤ leastFullInterval.middle := by decide
  have hhigh : leastFullInterval.middle ≤ leastFullInterval.high := by decide
  have hclosed : leastFullInterval.closed = true := rfl
  rw [Interval.Contains, if_pos hclosed, Interval.center]
  exact ⟨by gcongr, by gcongr⟩

/-- No decimal that rounds to a double has fewer digits than the shortest one. -/
theorem shortest_length_minimal (hx : x.isZero = false)
    (h : Rounds (signed x.isNegative (c * 10 ^ p)) x) :
    Decimal.length x.shortest.coefficient ≤ Decimal.length c := by
  rcases h.contains hx with h | ⟨⟨hfull, hscale⟩, hlow, hhigh⟩
  · exact shortest_length_le_of_contains hx h
  · refine (shortest_length_le hx).trans ?_
    rw [hfull, hscale, fractionSize_eq] at hlow hhigh
    rw [Nat.cast_pow, Nat.cast_ofNat] at hlow hhigh
    have hpos : (0 : ℚ) < (2 ^ 52 - 1 / 2) * 2 ^ (-1074 : ℤ) :=
      mul_pos (by norm_num) (by positivity)
    have hc : 0 < c := Nat.pos_of_ne_zero fun h0 => by
      rw [h0, Nat.cast_zero, zero_mul] at hlow
      exact hpos.not_ge hlow
    exact Interval.lt_length_of_none (by decide) leastFullInterval_center leastFullInterval_none hc
      (leastFullInterval_contains.mpr ⟨hlow, hhigh⟩)

/-- The first digit stands no further than the 324th place after the point. -/
theorem shortest_leading_ge (hx : x.isZero = false) : -324 ≤ x.shortest.leading := by
  have hunit : (0 : ℚ) < 2 ^ x.scale := by positivity
  have hone : (1 : ℚ) ≤ x.significand := by exact_mod_cast significand_pos hx
  have hpower : ((2 ^ 1075 : ℕ) : ℚ) ≤ ((10 ^ 324 : ℕ) : ℚ) := Nat.cast_le.mpr (by decide +kernel)
  rw [Nat.cast_pow, Nat.cast_pow, Nat.cast_ofNat, Nat.cast_ofNat] at hpower
  have hsmall : (10 ^ (-324 : ℤ) : ℚ) ≤ 2 ^ (-1075 : ℤ) := by
    rw [show (-324 : ℤ) = -(324 : ℕ) from rfl, show (-1075 : ℤ) = -(1075 : ℕ) from rfl, zpow_neg,
      zpow_neg, zpow_natCast, zpow_natCast]
    exact inv_anti₀ (by positivity) hpower
  have hscale : (2 ^ (-1074 : ℤ) : ℚ) ≤ 2 ^ x.scale := zpow_le_zpow_right₀ one_le_two x.scale_ge
  -- half a unit of the last place is the least that rounds to a double other than zero
  have hhalf : 1 / 2 * (2 ^ x.scale : ℚ) ≤ x.shortest.value := by
    rw [← le_div_iff₀ hunit]
    linarith [((shortest_contains hx).near hx).low, x.lowerHalf_le]
  have hleast : (2 ^ (-1075 : ℤ) : ℚ) ≤ x.shortest.value := by
    rw [show (-1075 : ℤ) = -1 + -1074 from rfl, zpow_add₀ two_ne_zero, zpow_neg_one, ← one_div]
    exact (mul_le_mul_of_nonneg_left hscale (by norm_num)).trans hhalf
  have hmost := (Decimal.value_bounds (shortest_coefficient_pos hx)).2
  have := (zpow_lt_zpow_iff_right₀ (by norm_num)).mp (hsmall.trans_lt (hleast.trans_lt hmost))
  omega

/-- The first digit of a finite double stands no further than the 309th place before the point. -/
theorem shortest_leading_le (hx : x.isZero = false) (hfinite : x.Finite) :
    x.shortest.leading ≤ 308 := by
  have hleast := (Decimal.value_bounds (shortest_coefficient_pos hx)).1
  have hbound := ((shortest_contains hx).near hx).bounded hfinite
  have hpower : ((2 ^ 1024 : ℕ) : ℚ) < ((10 ^ 309 : ℕ) : ℚ) := Nat.cast_lt.mpr (by decide +kernel)
  rw [Nat.cast_pow, Nat.cast_pow, Nat.cast_ofNat, Nat.cast_ofNat] at hpower
  have hpos : (0 : ℚ) < 2 ^ 970 := by positivity
  have hlt : (10 ^ x.shortest.leading : ℚ) < 10 ^ (309 : ℤ) :=
    (hleast.trans_lt (hbound.trans (sub_lt_self _ hpos))).trans hpower
  have := (zpow_lt_zpow_iff_right₀ (by norm_num)).mp hlt
  omega

end Double

end Realms
