import Realms.Proofs.Number.Text

/-! The text of whole numbers. A whole number short of the fifty-third power of two is a double, and
no other whole number lies in its interval, so the shortest decimal of the double stands for the
number itself. Main statement: every representation of a safe integer is written as its decimal
numeral. -/

namespace Realms

namespace Decimal

variable {d : Decimal}

theorem value_of_exponent {k : ℕ} (hk : d.exponent = k) :
    d.value = (d.coefficient * 10 ^ k : ℕ) := by
  rw [value, hk, zpow_natCast]
  push_cast
  rfl

theorem exponent_le_normalize (d : Decimal) : d.exponent ≤ d.normalize.exponent := by
  fun_induction normalize d with
  | case1 d h ih => exact (Int.le_add_one le_rfl).trans ih
  | case2 => exact le_rfl

theorem toDigits_mul_pow {n : ℕ} (hn : 0 < n) (k : ℕ) :
    Nat.toDigits 10 (n * 10 ^ k) = Nat.toDigits 10 n ++ List.replicate k '0' := by
  induction k with
  | zero => simp
  | succ k ih =>
    have hten : n * 10 ^ (k + 1) = n * 10 ^ k * 10 := by ring
    have hpos : 0 < n * 10 ^ k := by positivity
    rw [hten, toDigits_append (by omega), Nat.mul_div_cancel _ (by decide), Nat.mul_mod_left, ih,
      List.replicate_succ', List.append_assoc]
    rfl

/-- A decimal without places after the point is written in full if it is short enough. -/
theorem text_of_exponent_nonneg (hpos : 0 < d.coefficient) {k : ℕ} (hk : d.exponent = k)
    (h : d.leading < 21) : d.text = .ofList (Nat.toDigits 10 (d.coefficient * 10 ^ k)) := by
  obtain ⟨l, hl, htext⟩ := d.text_layout
  have hlength := length_pos d.coefficient
  have hleading : d.leading + 1 = length d.coefficient + k := by
    unfold leading
    omega
  rw [htext, toDigits_mul_pow hpos]
  cases hl with
  | padded zeros hpoint =>
    have hzeros : zeros = k := by omega
    simp [Literal.chars, Literal.exponentChars, hzeros]
  | pointed whole fraction heq _ hfraction hpoint =>
    have hsplit : length d.coefficient = whole.length + fraction.length := by
      rw [length, heq, List.length_append]
    have := List.length_pos_iff.mpr hfraction
    omega
  | small => omega
  | exponential => omega

end Decimal

namespace Double

variable {x : Double} {m : ℕ} {n : ℤ}

/-! ### Whole doubles -/

theorem scale_nonpos (hm : m < 2 ^ 53) (hx : x.magnitude = m) : x.scale ≤ 0 := by
  by_contra hpos
  have hsignificand : (2 ^ 52 : ℚ) ≤ x.significand := by
    exact_mod_cast significand_ge (by omega)
  have hunit : (2 ^ (1 : ℤ) : ℚ) ≤ 2 ^ x.scale := zpow_le_zpow_right₀ one_le_two (by omega)
  have hle : (2 ^ 52 * 2 ^ (1 : ℤ) : ℚ) ≤ m := by
    rw [← hx, magnitude]
    gcongr
  have hlt : (m : ℚ) < 2 ^ 53 := by exact_mod_cast hm
  norm_num at hle
  linarith

/-- No other whole number lies in the interval of a double that is short of `2 ^ 53`. -/
theorem eq_of_contains (h0 : x.isZero = false) (hm : m < 2 ^ 53) (hx : x.magnitude = m) {c : ℕ}
    (hc : x.interval.Contains c) : c = m := by
  obtain ⟨hlow, hhigh, -, -⟩ := hc.near h0
  have hunit : (0 : ℚ) < 2 ^ x.scale := by positivity
  have hone : (2 ^ x.scale : ℚ) ≤ 1 := zpow_le_one_of_nonpos₀ one_le_two (scale_nonpos hm hx)
  have hhalf := x.lowerHalf_le
  have hself : (x.significand : ℚ) = m / 2 ^ x.scale := by
    rw [← hx, magnitude, mul_div_cancel_right₀ _ hunit.ne']
  rw [hself] at hlow hhigh
  have hbelow : (m / 2 ^ x.scale : ℚ) ≤ c / 2 ^ x.scale + 1 / 2 := by linarith
  rw [div_add' _ _ _ hunit.ne', div_le_div_iff_of_pos_right hunit] at hbelow hhigh
  have hlt : (m : ℚ) < c + 1 := by linarith
  have hlt' : (c : ℚ) < m + 1 := by linarith
  have : m < c + 1 := by exact_mod_cast hlt
  have : c < m + 1 := by exact_mod_cast hlt'
  omega

/-- The search ends on a grid of whole numbers, as the double itself is one. -/
theorem shortest_whole (h0 : x.isZero = false) (hm : m < 2 ^ 53) (hx : x.magnitude = m) :
    ∃ k : ℕ, x.shortest.exponent = k ∧ x.shortest.coefficient * 10 ^ k = m := by
  obtain ⟨j, -, d, hfound, hnone, heq⟩ := shortest_found h0
  have hcenter : x.interval.Contains x.interval.center :=
    x.interval_center ▸ contains_magnitude h0
  have hleading : 0 ≤ x.interval.leadingExponent := by
    have hone : (1 : ℚ) ≤ m := by
      have hpos := hx ▸ magnitude_pos h0
      exact_mod_cast Nat.succ_le_of_lt (Nat.cast_pos.mp hpos)
    have hlt := hone.trans_lt (hx ▸ (interval_bounds h0).2)
    rw [one_lt_zpow_iff_right₀ (by norm_num)] at hlt
    omega
  have hj : (j : ℤ) ≤ x.interval.leadingExponent := by
    by_contra hlt
    refine Interval.nearestOn_ne_none hcenter (c := m) (p := 0) ?_ ?_
    · rw [zpow_zero, mul_one, ← hx]
      exact contains_magnitude h0
    · have hlast := hnone x.interval.leadingExponent.toNat (by omega)
      rwa [show x.interval.leadingExponent - (x.interval.leadingExponent.toNat : ℤ) = 0 by omega]
        at hlast
  obtain ⟨hexponent, hcontains, -⟩ := Interval.nearestOn_eq_some hfound
  have hgrid : d.exponent = ((x.interval.leadingExponent - j).toNat : ℤ) := by omega
  have hvalue := Decimal.value_of_exponent hgrid
  rw [hvalue] at hcontains
  rw [eq_of_contains h0 hm hx hcontains, ← Decimal.value_normalize, ← heq] at hvalue
  have hexponent' := d.exponent_le_normalize
  rw [← heq] at hexponent'
  have hplaces : x.shortest.exponent = (x.shortest.exponent.toNat : ℤ) := by omega
  refine ⟨_, hplaces, ?_⟩
  rw [Decimal.value_of_exponent hplaces] at hvalue
  exact_mod_cast hvalue

theorem shortest_text_whole (h0 : x.isZero = false) (hm : m < 2 ^ 53) (hx : x.magnitude = m) :
    x.shortest.text = .ofList (Nat.toDigits 10 m) := by
  obtain ⟨k, hk, hvalue⟩ := shortest_whole h0 hm hx
  have hcoefficient := shortest_coefficient_pos h0
  have hleading : x.shortest.leading < 21 := by
    have hlow := (Decimal.value_bounds hcoefficient).1
    rw [Decimal.value_of_exponent hk, hvalue] at hlow
    have hlt : (m : ℚ) < 10 ^ (21 : ℤ) := by
      have hm' : (m : ℚ) < 2 ^ 53 := by exact_mod_cast hm
      refine hm'.trans ?_
      norm_num
    exact (zpow_lt_zpow_iff_right₀ (by norm_num)).mp (hlow.trans_lt hlt)
  rw [Decimal.text_of_exponent_nonneg hcoefficient hk hleading, hvalue]

theorem toString_int (n : ℤ) : toString n =
    if n < 0 then "-" ++ .ofList (Nat.toDigits 10 n.natAbs)
    else .ofList (Nat.toDigits 10 n.natAbs) := by
  cases n with
  | ofNat n => rfl
  | negSucc n =>
    rw [if_pos (Int.negSucc_lt_zero n)]
    rfl

/-- A double of a whole value short of `2 ^ 53` is written as its decimal numeral. -/
theorem text_whole (hx : x.Finite) (hn : n.natAbs < 2 ^ 53) (hvalue : x.value = n) :
    x.text = toString n := by
  cases h0 : x.isZero with
  | true =>
    rw [value_eq_zero.mpr h0] at hvalue
    have hzero : n = 0 := Int.cast_eq_zero.mp hvalue.symm
    rw [text_of_isZero h0, hzero]
    rfl
  | false =>
    have hmagnitude : x.magnitude = n.natAbs := by
      rw [← abs_of_nonneg x.magnitude_nonneg, ← abs_signed x.isNegative, ← value, hvalue,
        Nat.cast_natAbs, Int.cast_abs]
    have hpos := magnitude_pos h0
    have hsign : x.isNegative = true ↔ n < 0 := by
      rw [value, signed] at hvalue
      rw [← Int.cast_lt_zero (R := ℚ), ← hvalue]
      cases x.isNegative
      · simpa using hpos.le
      · simpa using hpos
    have htext := shortest_text_whole h0 hn hmagnitude
    simp only [text, hx.1, hx.2, h0, htext, toString_int, hsign, Bool.false_eq_true, if_false]

/-! ### Conversion -/

/-- The word of a whole number that is not zero, in its three fields. -/
theorem ofInt_bits (h0 : n ≠ 0) (hn : n.natAbs < 2 ^ 53) : ∃ e ≤ 52, ∃ s : ℕ,
    s = n.natAbs * 2 ^ (52 - e) ∧ 2 ^ 52 ≤ s ∧ s < 2 ^ 53 ∧
    (ofInt n).bits.toNat = (if n < 0 then signWeight else 0) + (e + 1022) * fractionSize + s := by
  have hm : n.natAbs ≠ 0 := Int.natAbs_ne_zero.mpr h0
  have he : n.natAbs.log2 ≤ 52 := Nat.le_of_lt_succ ((Nat.log2_lt hm).mpr hn)
  have hlow : 2 ^ 52 ≤ n.natAbs * 2 ^ (52 - n.natAbs.log2) := by
    calc 2 ^ 52 = 2 ^ n.natAbs.log2 * 2 ^ (52 - n.natAbs.log2) := by
          rw [← pow_add, Nat.add_sub_cancel' he]
      _ ≤ n.natAbs * 2 ^ (52 - n.natAbs.log2) := Nat.mul_le_mul_right _ (Nat.log2_self_le hm)
  have hhigh : n.natAbs * 2 ^ (52 - n.natAbs.log2) < 2 ^ 53 := by
    calc n.natAbs * 2 ^ (52 - n.natAbs.log2)
        < 2 ^ (n.natAbs.log2 + 1) * 2 ^ (52 - n.natAbs.log2) :=
          Nat.mul_lt_mul_of_pos_right Nat.lt_log2_self (by positivity)
      _ = 2 ^ 53 := by
          rw [← pow_add]
          congr 1
          omega
  have hsize : fractionSize = 2 ^ 52 := rfl
  have hbits : magnitudeBits n.natAbs = (n.natAbs.log2 + 1022) * fractionSize +
      n.natAbs * 2 ^ (52 - n.natAbs.log2) := by
    simp only [magnitudeBits, if_neg hm, if_pos he, Nat.pow_eq]
    rw [hsize]
    omega
  refine ⟨_, he, _, rfl, hlow, hhigh, ?_⟩
  rw [ofInt, hbits, add_assoc]
  refine UInt64.toNat_ofNat_of_lt' ?_
  have hword : UInt64.size = 2 ^ 64 := rfl
  have hsign : signWeight = 2 ^ 63 := rfl
  rw [hsize, hword, hsign]
  split <;> omega

/-- A word made of three fields, the leading bit of its significand added to the exponent. -/
theorem fields_of_bits {negative : Prop} [Decidable negative] {k s : ℕ} (hk : k ≤ 2045)
    (hlow : 2 ^ 52 ≤ s) (hhigh : s < 2 ^ 53)
    (h : x.bits.toNat = (if negative then signWeight else 0) + k * fractionSize + s) :
    x.Finite ∧ x.isNegative = decide negative ∧ x.significand = s ∧ x.scale = k - 1074 := by
  have hsize : fractionSize = 2 ^ 52 := rfl
  have hsign : signWeight = 2 ^ 63 := rfl
  have hexponent : x.exponentField = k + 1 := by
    rw [exponentField, h, hsize, hsign]
    split <;> omega
  have hfraction : x.fraction = s - 2 ^ 52 := by
    rw [fraction, h, hsize, hsign]
    split <;> omega
  refine ⟨finite_iff.mpr (by omega), ?_, ?_, ?_⟩
  · rw [isNegative, h, hsize, hsign, decide_eq_decide]
    split
    · next hneg =>
      simp only [hneg, iff_true]
      omega
    · next hneg =>
      simp only [hneg, iff_false]
      omega
  · rw [significand, hexponent, if_neg (by omega), hfraction, hsize]
    omega
  · rw [scale, hexponent, if_neg (by omega)]
    omega

theorem signed_natAbs (n : ℤ) : signed (decide (n < 0)) n.natAbs = (n : ℚ) := by
  rw [signed, Nat.cast_natAbs, Int.cast_abs]
  split
  · next hneg =>
    rw [abs_of_neg (Int.cast_lt_zero.mpr (of_decide_eq_true hneg)), neg_neg]
  · next hneg =>
    have hnonneg : 0 ≤ n := not_lt.mp fun hlt => hneg (decide_eq_true hlt)
    exact abs_of_nonneg (Int.cast_nonneg hnonneg)

/-- A whole number short of `2 ^ 53` is the value of the double that it is converted to. -/
theorem ofInt_value (hn : n.natAbs < 2 ^ 53) : (ofInt n).Finite ∧ (ofInt n).value = n := by
  by_cases h0 : n = 0
  · have hzero : (ofInt 0).isZero = true := by decide
    rw [h0, Int.cast_zero]
    exact ⟨(rounds_zero hzero).finite, value_eq_zero.mpr hzero⟩
  obtain ⟨e, he, s, hs, hlow, hhigh, hbits⟩ := ofInt_bits h0 hn
  obtain ⟨hfinite, hnegative, hsignificand, hscale⟩ :=
    fields_of_bits (by omega) hlow hhigh hbits
  have hplaces : (ofInt n).scale = -((52 - e : ℕ) : ℤ) := by omega
  have hmagnitude : (ofInt n).magnitude = n.natAbs := by
    rw [magnitude, hsignificand, hplaces, hs, zpow_neg, zpow_natCast]
    push_cast
    exact mul_inv_cancel_right₀ (by positivity) _
  rw [value, hmagnitude, hnegative, signed_natAbs]
  exact ⟨hfinite, rfl⟩

end Double

/-- The text of a safe integer is its decimal numeral in every representation: as a safe integer, in
its narrowest one, as a 32-bit integer if it is one, and as a double. -/
theorem whole_text (st : Store) (n : ℤ) (h : |n| ≤ 2 ^ 53 - 1) :
    (∃ k, SafeInteger.ofInt? n = some k ∧ st.text (.large k) = toString n) ∧
    st.text (.ofInt n) = toString n ∧
    (∀ k, int32? n = some k → st.text (.small k) = toString n) ∧
    st.text (.double (.ofInt n)) = toString n := by
  obtain ⟨hlow, hhigh⟩ := abs_le.mp h
  have hsafe : minSafe ≤ n ∧ n ≤ maxSafe := by
    unfold minSafe maxSafe
    omega
  have hlarge : SafeInteger.ofInt? n = some ⟨n, hsafe.1, hsafe.2⟩ := dif_pos hsafe
  have hsmall (k : Int32) (hk : int32? n = some k) : st.text (.small k) = toString n := by
    unfold int32? at hk
    split at hk
    · next hrange =>
      cases hk
      exact congrArg toString (Int32.toInt_ofInt_of_le hrange.1 hrange.2)
    · cases hk
  obtain ⟨hfinite, hvalue⟩ := Double.ofInt_value (n := n) (by omega)
  refine ⟨⟨_, hlarge, rfl⟩, ?_, hsmall, Double.text_whole hfinite (by omega) hvalue⟩
  rw [Value.ofInt, hlarge]
  cases hk : int32? n with
  | some k => exact hsmall k hk
  | none => rfl

/-- The double drops the zeros at the end of its digits, and its text has them again. -/
theorem twelve_hundred_text : |(-1200 : ℤ)| ≤ 2 ^ 53 - 1 ∧ int32? (-1200) = some (-1200) ∧
    (Double.ofInt (-1200)).shortest = ⟨12, 2⟩ ∧
    Store.empty.text (.small (-1200)) = "-1200" ∧
    Store.empty.text (.ofInt (-1200)) = "-1200" ∧
    Store.empty.text (.double (.ofInt (-1200))) = "-1200" := by
  have h : |(-1200 : ℤ)| ≤ 2 ^ 53 - 1 := by decide
  have hfits : int32? (-1200) = some (-1200) := by decide
  obtain ⟨-, hnarrow, hsmall, hdouble⟩ := whole_text Store.empty (-1200) h
  exact ⟨h, hfits, by decide +kernel, hsmall _ hfits, hnarrow, hdouble⟩

example : (Double.ofInt (2 ^ 53 + 1)).text = "9007199254740992" := by decide +kernel

end Realms
