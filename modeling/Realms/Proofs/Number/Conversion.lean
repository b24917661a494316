import Realms.Proofs.Number.Whole

/-! Numbers made from integers. A double made from an integer is the rounding of it, so its value is
exact up to the fifty-third power of two and keeps the order of the integers. Main statement: a
64-bit integer is kept in the narrowest representation that holds it, with a value nearest to it,
and no change of representation breaks the order. -/

namespace Realms

namespace Double

variable {x y : Double} {q r : ℚ} {n m : ℤ}

/-! ### Rounding and order -/

theorem rounds_value (hx : x.Finite) : Rounds x.value x := by
  cases h0 : x.isZero with
  | true => exact value_eq_zero.mpr h0 ▸ rounds_zero h0
  | false => exact ((contains_magnitude h0).near h0).rounds hx h0

/-- No finite double is nearer to a rational than the one that it rounds to. -/
theorem Rounds.dist_le (h : Rounds q x) (hy : y.Finite) : |q - x.value| ≤ |q - y.value| := by
  by_cases heq : y.value = x.value
  · rw [heq]
  · obtain hlt | ⟨htie, -⟩ := h.nearest y hy heq
    · exact hlt.le
    · exact htie.le

/-- Rounding keeps the order. If it did not, each of the two rationals would lie in the middle of
the two doubles or beyond, so both would lie there. -/
theorem Rounds.mono (hx : Rounds q x) (hy : Rounds r y) (hqr : q ≤ r) : x.value ≤ y.value := by
  by_contra hlt
  rw [not_le] at hlt
  have hq := (ge_of_nearer hlt (hx.nearest y hy.finite hlt.ne)).1
  have hr := (le_of_nearer hlt (hy.nearest x hx.finite hlt.ne')).1
  obtain rfl : q = r := le_antisymm hqr (by linarith)
  exact hlt.ne (hy.unique hx)

/-! ### The rounding of a significand -/

section

variable {whole : ℕ} {part : ℚ}

/-- A quotient that is rounded down. -/
theorem near_of_down (hx : x.significand = whole) (hpart : 0 ≤ part) (hdown : part ≤ 1 / 2)
    (htie : part = 1 / 2 → whole % 2 = 0) : x.Near (whole + part) := by
  have hlower : 0 < x.lowerHalf := by
    unfold lowerHalf
    split <;> norm_num
  subst hx
  exact ⟨by linarith, by linarith, fun h => by linarith, fun h => htie (by linarith)⟩

/-- A quotient that is rounded up to a significand. -/
theorem near_of_up (hx : x.significand = whole + 1) (hwhole : 2 ^ 52 ≤ whole) (hpart : part < 1)
    (hup : 1 / 2 ≤ part) (htie : part = 1 / 2 → whole % 2 = 1) : x.Near (whole + part) := by
  have hsize : fractionSize = 2 ^ 52 := rfl
  have hlower : x.lowerHalf = 1 / 2 := if_neg (by omega)
  have hcast : (x.significand : ℚ) = whole + 1 := by exact_mod_cast hx
  refine ⟨by linarith, by linarith, fun h => ?_, fun h => by linarith⟩
  have := htie (by linarith)
  omega

/-- A quotient that is rounded up to the next power of two, in units twice as large. -/
theorem near_of_carry (hx : x.significand = 2 ^ 52) (hwhole : whole + 1 = 2 ^ 53)
    (hpart : part < 1) (hup : 1 / 2 ≤ part) : x.Near ((whole + part) / 2) := by
  have hlower : x.lowerHalf = 1 / 4 := if_pos hx
  have hcast : (x.significand : ℚ) = 2 ^ 52 := by exact_mod_cast hx
  have hfull : (whole + 1 : ℚ) = 2 ^ 53 := by exact_mod_cast hwhole
  have heven : x.significand % 2 = 0 := by omega
  exact ⟨by linarith, by linarith, fun _ => heven, fun _ => heven⟩

end

/-- A remainder against half of its unit. -/
theorem compare_half (rest : ℕ) {unit : ℕ} (hunit : 0 < unit) :
    (rest / unit ≤ (1 / 2 : ℚ) ↔ 2 * rest ≤ unit) ∧
    ((1 / 2 : ℚ) ≤ rest / unit ↔ unit ≤ 2 * rest) := by
  have hpos : (0 : ℚ) < unit := by exact_mod_cast hunit
  rw [div_le_div_iff₀ hpos two_pos, div_le_div_iff₀ two_pos hpos, one_mul, mul_comm]
  exact ⟨by exact_mod_cast Iff.rfl, by exact_mod_cast Iff.rfl⟩

/-! ### Integers -/

/-- A quotient, or the next one if the remainder is more than half of a unit, or just half and the
quotient odd. -/
def roundedQuotient (k unit : ℕ) : ℕ :=
  if unit < 2 * (k % unit) ∨ 2 * (k % unit) = unit ∧ k / unit % 2 = 1 then k / unit + 1
  else k / unit

/-- The word of an integer of more than fifty-three bits. A quotient that is rounded up to the next
power of two adds to the exponent. -/
theorem ofInt_bits_wide (hlow : 2 ^ 53 ≤ n.natAbs) (hhigh : n.natAbs < 2 ^ 64) :
    ∃ places ≤ 11, 2 ^ 52 ≤ n.natAbs / 2 ^ places ∧ n.natAbs / 2 ^ places < 2 ^ 53 ∧
      (ofInt n).bits.toNat = (if n < 0 then signWeight else 0) + (places + 1074) * fractionSize +
        roundedQuotient n.natAbs (2 ^ places) := by
  have h0 : n.natAbs ≠ 0 := by omega
  have hlog : 53 ≤ n.natAbs.log2 := (Nat.le_log2 h0).mpr hlow
  have hlog' : n.natAbs.log2 < 64 := (Nat.log2_lt h0).mpr hhigh
  have hunit : 0 < 2 ^ (n.natAbs.log2 - 52) := by positivity
  have hge : 2 ^ 52 ≤ n.natAbs / 2 ^ (n.natAbs.log2 - 52) := by
    rw [Nat.le_div_iff_mul_le hunit, ← pow_add, Nat.add_sub_cancel' (by omega)]
    exact Nat.log2_self_le h0
  have hlt : n.natAbs / 2 ^ (n.natAbs.log2 - 52) < 2 ^ 53 := by
    rw [Nat.div_lt_iff_lt_mul hunit, ← pow_add]
    refine Nat.lt_log2_self.trans_eq ?_
    congr 1
    omega
  have hrounded : roundedQuotient n.natAbs (2 ^ (n.natAbs.log2 - 52)) ≤ 2 ^ 53 := by
    unfold roundedQuotient
    split <;> omega
  have hbits : magnitudeBits n.natAbs = min ((n.natAbs.log2 + 1022) * fractionSize +
      roundedQuotient n.natAbs (2 ^ (n.natAbs.log2 - 52))) (2047 * fractionSize) := by
    simp only [magnitudeBits, if_neg h0, if_neg (Nat.not_le.mpr hlog), Nat.pow_eq, roundedQuotient]
  have hsize : fractionSize = 2 ^ 52 := rfl
  refine ⟨n.natAbs.log2 - 52, by omega, hge, hlt, ?_⟩
  have hword : UInt64.size = 2 ^ 64 := rfl
  have hsign : signWeight = 2 ^ 63 := rfl
  rw [show n.natAbs.log2 - 52 + 1074 = n.natAbs.log2 + 1022 by omega, add_assoc, ofInt, hbits,
    min_eq_left (by rw [hsize]; omega)]
  refine UInt64.toNat_ofNat_of_lt' ?_
  rw [hsize, hword, hsign]
  split <;> omega

/-- The fields of that word. -/
theorem ofInt_fields_wide {places : ℕ} (hplaces : places ≤ 11)
    (hge : 2 ^ 52 ≤ n.natAbs / 2 ^ places) (hlt : n.natAbs / 2 ^ places < 2 ^ 53)
    (hbits : (ofInt n).bits.toNat = (if n < 0 then signWeight else 0) +
      (places + 1074) * fractionSize + roundedQuotient n.natAbs (2 ^ places)) :
    (ofInt n).Finite ∧ (ofInt n).isNegative = decide (n < 0) ∧
      ((ofInt n).significand = roundedQuotient n.natAbs (2 ^ places) ∧ (ofInt n).scale = places ∨
        roundedQuotient n.natAbs (2 ^ places) = 2 ^ 53 ∧
          (ofInt n).significand = 2 ^ 52 ∧ (ofInt n).scale = places + 1) := by
  have hlow : n.natAbs / 2 ^ places ≤ roundedQuotient n.natAbs (2 ^ places) := by
    unfold roundedQuotient
    split <;> omega
  have hhigh : roundedQuotient n.natAbs (2 ^ places) ≤ 2 ^ 53 := by
    unfold roundedQuotient
    split <;> omega
  by_cases hcarry : roundedQuotient n.natAbs (2 ^ places) = 2 ^ 53
  · have hcarried : (ofInt n).bits.toNat = (if n < 0 then signWeight else 0) +
        (places + 1075) * fractionSize + 2 ^ 52 := by
      rw [hbits, hcarry, fractionSize_eq]
      omega
    obtain ⟨hfinite, hnegative, hsignificand, hscale⟩ :=
      fields_of_bits (by omega) le_rfl (by norm_num) hcarried
    exact ⟨hfinite, hnegative, .inr ⟨hcarry, hsignificand, by omega⟩⟩
  · obtain ⟨hfinite, hnegative, hsignificand, hscale⟩ :=
      fields_of_bits (by omega) (hge.trans hlow) (by omega) hbits
    exact ⟨hfinite, hnegative, .inl ⟨hsignificand, by omega⟩⟩

/-- An integer of more than fifty-three bits is near to the double that it is converted to. -/
theorem ofInt_near (hlow : 2 ^ 53 ≤ n.natAbs) (hhigh : n.natAbs < 2 ^ 64) : (ofInt n).Finite ∧
    (ofInt n).isNegative = decide (n < 0) ∧ (ofInt n).isZero = false ∧
    (ofInt n).Near (n.natAbs / 2 ^ (ofInt n).scale) := by
  obtain ⟨places, hplaces, hge, hlt, hbits⟩ := ofInt_bits_wide hlow hhigh
  obtain ⟨hfinite, hnegative, hfields⟩ := ofInt_fields_wide hplaces hge hlt hbits
  have hunit : 0 < 2 ^ places := by positivity
  have hpos : (0 : ℚ) < (2 ^ places : ℕ) := by exact_mod_cast hunit
  have hrest : n.natAbs % 2 ^ places < 2 ^ places := Nat.mod_lt _ hunit
  have hsplit : (n.natAbs / (2 ^ places : ℕ) : ℚ) =
      (n.natAbs / 2 ^ places : ℕ) + (n.natAbs % 2 ^ places : ℕ) / (2 ^ places : ℕ) := by
    rw [div_eq_iff hpos.ne', add_mul, div_mul_cancel₀ _ hpos.ne']
    exact_mod_cast (Nat.div_add_mod' _ _).symm
  obtain ⟨hdown, hup⟩ := compare_half (n.natAbs % 2 ^ places) hunit
  have hpart : ((n.natAbs % 2 ^ places : ℕ) / (2 ^ places : ℕ) : ℚ) < 1 := by
    rw [div_lt_one hpos]
    exact_mod_cast hrest
  have htie (h : ((n.natAbs % 2 ^ places : ℕ) / (2 ^ places : ℕ) : ℚ) = 1 / 2) :
      2 * (n.natAbs % 2 ^ places) = 2 ^ places :=
    Nat.le_antisymm (hdown.mp h.le) (hup.mp h.ge)
  refine ⟨hfinite, hnegative, ?_, ?_⟩
  · rw [Bool.eq_false_iff, Ne, isZero_iff]
    rcases hfields with ⟨hsignificand, -⟩ | ⟨-, hsignificand, -⟩
    · unfold roundedQuotient at hsignificand
      split at hsignificand <;> omega
    · omega
  · unfold roundedQuotient at hfields
    rcases hfields with ⟨hsignificand, hscale⟩ | ⟨hcarry, hsignificand, hscale⟩
    · have hunits : (2 ^ (ofInt n).scale : ℚ) = (2 ^ places : ℕ) := by
        rw [hscale, zpow_natCast]
        push_cast
        rfl
      rw [hunits, hsplit]
      split at hsignificand
      · refine near_of_up hsignificand hge hpart (hup.mpr (by omega)) fun h => ?_
        have := htie h
        omega
      · refine near_of_down hsignificand (by positivity) (hdown.mpr (by omega)) fun h => ?_
        have := htie h
        omega
    · have hunits : (2 ^ (ofInt n).scale : ℚ) = (2 ^ places : ℕ) * 2 := by
        rw [hscale, zpow_add_one₀ two_ne_zero, zpow_natCast]
        push_cast
        rfl
      rw [hunits, ← div_div, hsplit]
      split at hcarry
      · exact near_of_carry hsignificand hcarry hpart (hup.mpr (by omega))
      · omega

/-- A 64-bit integer rounds to the double that it is converted to. -/
theorem ofInt_rounds (hn : n.natAbs < 2 ^ 64) : Rounds n (ofInt n) := by
  by_cases h53 : n.natAbs < 2 ^ 53
  · obtain ⟨hfinite, hvalue⟩ := ofInt_value h53
    exact hvalue ▸ rounds_value hfinite
  · obtain ⟨hfinite, hnegative, h0, hnear⟩ := ofInt_near (not_lt.mp h53) hn
    have hrounds := hnear.rounds hfinite h0
    rwa [hnegative, signed_natAbs] at hrounds

/-- The fifty-third power of two is the value of a double as well, with either sign. -/
theorem ofInt_value_of_le (hn : n.natAbs ≤ 2 ^ 53) : (ofInt n).value = n := by
  obtain hlt | heq := hn.lt_or_eq
  · exact (ofInt_value hlt).2
  · have hcases : n = 2 ^ 53 ∨ n = -2 ^ 53 := by omega
    obtain rfl | rfl := hcases
    · have hsignificand : (ofInt (2 ^ 53)).significand = 2 ^ 52 := by decide
      have hscale : (ofInt (2 ^ 53)).scale = 1 := by decide
      have hnegative : (ofInt (2 ^ 53)).isNegative = false := by decide
      rw [value, magnitude, hsignificand, hscale, hnegative]
      norm_num [signed]
    · have hsignificand : (ofInt (-2 ^ 53)).significand = 2 ^ 52 := by decide
      have hscale : (ofInt (-2 ^ 53)).scale = 1 := by decide
      have hnegative : (ofInt (-2 ^ 53)).isNegative = true := by decide
      rw [value, magnitude, hsignificand, hscale, hnegative]
      norm_num [signed]

theorem ofInt_mono (hn : n.natAbs < 2 ^ 64) (hm : m.natAbs < 2 ^ 64) (h : n ≤ m) :
    (ofInt n).value ≤ (ofInt m).value :=
  (ofInt_rounds hn).mono (ofInt_rounds hm) (Int.cast_le.mpr h)

/-- Two integers of which one is safe have different values, since the neighbours of a safe integer
have exact values too. -/
theorem ofInt_strictMono (hn : n.natAbs < 2 ^ 64) (hm : m.natAbs < 2 ^ 64) (h : n < m)
    (hsafe : |n| ≤ 2 ^ 53 - 1 ∨ |m| ≤ 2 ^ 53 - 1) : (ofInt n).value < (ofInt m).value := by
  obtain hsafe | hsafe := hsafe
  · obtain ⟨hlow, hhigh⟩ := abs_le.mp hsafe
    calc (ofInt n).value = n := ofInt_value_of_le (by omega)
      _ < (n + 1 : ℤ) := Int.cast_lt.mpr (Int.lt_succ n)
      _ = (ofInt (n + 1)).value := (ofInt_value_of_le (by omega)).symm
      _ ≤ (ofInt m).value := ofInt_mono (by omega) hm h
  · obtain ⟨hlow, hhigh⟩ := abs_le.mp hsafe
    calc (ofInt n).value
        ≤ (ofInt (m - 1)).value := ofInt_mono hn (by omega) (Int.le_sub_one_of_lt h)
      _ = (m - 1 : ℤ) := ofInt_value_of_le (by omega)
      _ < m := Int.cast_lt.mpr (Int.sub_one_lt_of_le le_rfl)
      _ = (ofInt m).value := (ofInt_value_of_le (by omega)).symm

end Double

/-! ### Values -/

namespace SafeInteger

theorem abs_val_le (k : SafeInteger) : |k.val| ≤ 2 ^ 53 - 1 :=
  abs_le.mpr ⟨k.min_le, k.le_max⟩

theorem toDouble_value (k : SafeInteger) : k.toDouble.Finite ∧ k.toDouble.value = k.val := by
  obtain ⟨hlow, hhigh⟩ := abs_le.mp k.abs_val_le
  exact Double.ofInt_value (by omega)

end SafeInteger

namespace Value

/-- The rational that a finite number stands for. -/
def number? : Value → Option ℚ
  | .small n => some n.toInt
  | .large n => some n.val
  | .double x => if x.isNaN || x.isInfinite then none else some x.value
  | _ => none

variable {n : ℤ}

/-- The three representations of an integer, each in its range. -/
theorem ofInt_cases (n : ℤ) :
    (-2 ^ 31 ≤ n ∧ n < 2 ^ 31 ∧ ∃ k, ofInt n = .small k ∧ k.toInt = n) ∨
    (¬ (-2 ^ 31 ≤ n ∧ n < 2 ^ 31) ∧ |n| ≤ 2 ^ 53 - 1 ∧ ∃ k, ofInt n = .large k ∧ k.val = n) ∨
    (2 ^ 53 - 1 < |n| ∧ ofInt n = .double (.ofInt n)) := by
  by_cases hsmall : -2147483648 ≤ n ∧ n < 2147483648
  · refine .inl ⟨by omega, by omega, .ofInt n, ?_, Int32.toInt_ofInt_of_le hsmall.1 hsmall.2⟩
    simp only [ofInt, int32?, if_pos hsmall]
  · have hnot : int32? n = none := if_neg hsmall
    by_cases hlarge : minSafe ≤ n ∧ n ≤ maxSafe
    · have hsafe : SafeInteger.ofInt? n = some ⟨n, hlarge.1, hlarge.2⟩ := dif_pos hlarge
      refine .inr (.inl ⟨by omega, abs_le.mpr hlarge, ⟨n, hlarge.1, hlarge.2⟩, ?_, rfl⟩)
      simp only [ofInt, hnot, hsafe]
    · have hunsafe : SafeInteger.ofInt? n = none := dif_neg hlarge
      unfold minSafe maxSafe at hlarge
      refine .inr (.inr ⟨lt_abs.mpr (by omega), ?_⟩)
      simp only [ofInt, hnot, hunsafe]

/-- In whatever representation an integer is kept, its value is that of the double made from it. -/
theorem number?_ofInt (hn : n.natAbs < 2 ^ 64) :
    (ofInt n).number? = some (Double.ofInt n).value := by
  rcases ofInt_cases n with ⟨hlow, hhigh, k, hk, hval⟩ | ⟨-, hle, k, hk, hval⟩ | ⟨-, hk⟩
  · rw [hk, Double.ofInt_value_of_le (by omega), ← hval]
    rfl
  · obtain ⟨hlow, hhigh⟩ := abs_le.mp hle
    rw [hk, Double.ofInt_value_of_le (by omega), ← hval]
    rfl
  · obtain ⟨hnan, hinfinite⟩ := (Double.ofInt_rounds hn).finite
    simp [hk, number?, hnan, hinfinite]

theorem kind_ofInt (n : ℤ) :
    ((ofInt n).kind = .small ↔ -2 ^ 31 ≤ n ∧ n < 2 ^ 31) ∧
    ((ofInt n).kind = .large ↔ ¬ (-2 ^ 31 ≤ n ∧ n < 2 ^ 31) ∧ |n| ≤ 2 ^ 53 - 1) ∧
    ((ofInt n).kind = .double ↔ ¬ (-2 ^ 31 ≤ n ∧ n < 2 ^ 31) ∧ 2 ^ 53 - 1 < |n|) := by
  rcases ofInt_cases n with ⟨hlow, hhigh, k, hk, -⟩ | ⟨hnot, hle, k, hk, -⟩ | ⟨hlt, hk⟩
  · have hfits : -2 ^ 31 ≤ n ∧ n < 2 ^ 31 := ⟨hlow, hhigh⟩
    rw [hk]
    exact ⟨iff_of_true rfl hfits, iff_of_false nofun fun h => h.1 hfits,
      iff_of_false nofun fun h => h.1 hfits⟩
  · rw [hk]
    exact ⟨iff_of_false nofun hnot, iff_of_true rfl ⟨hnot, hle⟩,
      iff_of_false nofun fun h => h.2.not_ge hle⟩
  · have hnot : ¬ (-2 ^ 31 ≤ n ∧ n < 2 ^ 31) := by
      obtain h | h := lt_abs.mp hlt <;> omega
    rw [hk]
    exact ⟨iff_of_false nofun hnot, iff_of_false nofun fun h => hlt.not_ge h.2,
      iff_of_true rfl ⟨hnot, hlt⟩⟩

end Value

theorem natAbs_toInt_lt (n : Int64) : n.toInt.natAbs < 2 ^ 64 := by
  have := n.le_toInt
  have := n.toInt_lt
  omega

/-- A 64-bit integer is kept as a 32-bit integer, else as a safe integer, else as a double to which
it rounds. Its value is exact up to `2 ^ 53` and no double is nearer to it. The values of two
integers are in their order, and differ if one of the integers is safe and they differ. Safe
integers have exact doubles, in their order. -/
theorem narrowest_conversion :
    (∀ n : Int64,
      ((Value.ofInt n.toInt).kind = .small ↔ -2 ^ 31 ≤ n.toInt ∧ n.toInt < 2 ^ 31) ∧
      ((Value.ofInt n.toInt).kind = .large ↔
        ¬ (-2 ^ 31 ≤ n.toInt ∧ n.toInt < 2 ^ 31) ∧ |n.toInt| ≤ 2 ^ 53 - 1) ∧
      ((Value.ofInt n.toInt).kind = .double ↔
        ¬ (-2 ^ 31 ≤ n.toInt ∧ n.toInt < 2 ^ 31) ∧ 2 ^ 53 - 1 < |n.toInt|) ∧
      ∀ x, Value.ofInt n.toInt = .double x → Double.Rounds n.toInt x) ∧
    (∃ value : Int64 → ℚ, (∀ n, (Value.ofInt n.toInt).number? = some (value n)) ∧
      (∀ n, |n.toInt| ≤ 2 ^ 53 → value n = n.toInt) ∧
      (∀ n (y : Double), y.Finite → |n.toInt - value n| ≤ |n.toInt - y.value|) ∧
      (∀ n m, n.toInt ≤ m.toInt → value n ≤ value m) ∧
      ∀ n m, n.toInt < m.toInt → |n.toInt| ≤ 2 ^ 53 - 1 ∨ |m.toInt| ≤ 2 ^ 53 - 1 →
        value n < value m) ∧
    (∀ k : SafeInteger, k.toDouble.Finite ∧ k.toDouble.value = k.val) ∧
    ∀ k l : SafeInteger, k.val < l.val → k.toDouble.value < l.toDouble.value := by
  refine ⟨fun n => ?_, ⟨fun n => (Double.ofInt n.toInt).value, fun n => ?_, fun n h => ?_,
    fun n y => ?_, fun n m h => ?_, fun n m h hsafe => ?_⟩, SafeInteger.toDouble_value,
    fun k l h => ?_⟩
  · obtain ⟨hsmall, hlarge, hdouble⟩ := Value.kind_ofInt n.toInt
    refine ⟨hsmall, hlarge, hdouble, fun x hx => ?_⟩
    have hrounds := Double.ofInt_rounds (natAbs_toInt_lt n)
    have hnumber := Value.ofInt_cases n.toInt
    simp only [hx, reduceCtorEq, false_and, exists_false, and_false, false_or,
      Value.double.injEq] at hnumber
    exact hnumber.2 ▸ hrounds
  · exact Value.number?_ofInt (natAbs_toInt_lt n)
  · exact Double.ofInt_value_of_le (by obtain ⟨hlow, hhigh⟩ := abs_le.mp h; omega)
  · exact (Double.ofInt_rounds (natAbs_toInt_lt n)).dist_le
  · exact Double.ofInt_mono (natAbs_toInt_lt n) (natAbs_toInt_lt m) h
  · exact Double.ofInt_strictMono (natAbs_toInt_lt n) (natAbs_toInt_lt m) h hsafe
  · rw [k.toDouble_value.2, l.toDouble_value.2]
    exact Int.cast_lt.mpr h

/-- The largest safe integer and one that is no double: the second one is rounded, by one at most,
and stays above the first. -/
theorem border_conversion :
    (9007199254740991 : Int64).toInt < (9007199254740993 : Int64).toInt ∧
    |(9007199254740991 : Int64).toInt| ≤ 2 ^ 53 - 1 ∧
    (Value.ofInt 9007199254740991).kind = .large ∧ (Value.ofInt 9007199254740993).kind = .double ∧
    ∃ a b, (Value.ofInt 9007199254740991).number? = some a ∧
      (Value.ofInt 9007199254740993).number? = some b ∧ a = 9007199254740991 ∧ a < b ∧
      |9007199254740993 - b| ≤ 1 := by
  have hn : (9007199254740991 : Int64).toInt = 9007199254740991 := by decide
  have hm : (9007199254740993 : Int64).toInt = 9007199254740993 := by decide
  have hlt : (9007199254740991 : Int64).toInt < (9007199254740993 : Int64).toInt := by decide
  have hsafe : |(9007199254740991 : Int64).toInt| ≤ 2 ^ 53 - 1 := by decide
  have hpower : Double.Finite (.ofInt 9007199254740992) := ⟨by decide, by decide⟩
  have hvalue := Double.ofInt_value_of_le (n := 9007199254740992) (by decide)
  obtain ⟨hkind, ⟨value, hnumber, hexact, hnearest, -, hstrict⟩, -, -⟩ := narrowest_conversion
  have hlarge := (hkind 9007199254740991).2.1.mpr ⟨by decide, hsafe⟩
  have hdouble := (hkind 9007199254740993).2.2.1.mpr ⟨by decide, by decide⟩
  have ha := hexact 9007199254740991 (by decide)
  have hb := hnearest 9007199254740993 _ hpower
  have hnumber₁ := hnumber 9007199254740991
  have hnumber₂ := hnumber 9007199254740993
  rw [hvalue] at hb
  rw [hn] at hlarge ha hnumber₁
  rw [hm] at hdouble hb hnumber₂
  refine ⟨hlt, hsafe, hlarge, hdouble, _, _, hnumber₁, hnumber₂, by exact_mod_cast ha,
    hstrict _ _ hlt (.inl hsafe), ?_⟩
  norm_num at hb
  exact hb

end Realms
