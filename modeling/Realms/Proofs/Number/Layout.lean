import Realms.Number.SafeInteger
import Realms.Proofs.Number.Literal
import Realms.Proofs.Number.Shortest

/-! The text of a decimal. It is laid out in one of four ways, by where the leading digit stands.
Main statements: every layout is a literal that stands for the decimal, with an exponent only if the
leading digit stands far from the point, and without needless zeros; and the making of the text
stays in the range of 32-bit integers and of list positions. -/

namespace Realms

namespace Decimal

variable {d : Decimal} {l : Literal} {n : ℕ}

open Literal

/-! ### Digits -/

theorem toDigits_append (h : 10 ≤ n) :
    Nat.toDigits 10 n = Nat.toDigits 10 (n / 10) ++ [(n % 10).digitChar] :=
  Nat.toDigits_of_base_le (by decide) h

theorem head?_toDigits (h : 0 < n) : (Nat.toDigits 10 n).head? ≠ some '0' := by
  induction n using Nat.strongRecOn with
  | ind n ih =>
    rcases Nat.lt_or_ge n 10 with hlt | hge
    · rw [Nat.toDigits_of_lt_base hlt]
      simpa using h.ne'
    · have hrest := ih (n / 10) (by omega) (by omega)
      rw [toDigits_append hge]
      cases hd : Nat.toDigits 10 (n / 10) with
      | nil => exact absurd hd Nat.toDigits_ne_nil
      | cons c digits =>
        rw [hd] at hrest
        exact hrest

theorem getLast?_toDigits (h : n % 10 ≠ 0) : (Nat.toDigits 10 n).getLast? ≠ some '0' := by
  rcases Nat.lt_or_ge n 10 with hlt | hge
  · have h0 : n ≠ 0 := fun h0 => h (by rw [h0])
    rw [Nat.toDigits_of_lt_base hlt]
    simpa using h0
  · rw [toDigits_append hge]
    simpa using h

/-! ### Layouts -/

/-- The ways in which a decimal is laid out: padded with zeros up to the point, with the point among
its digits, with zeros between the point and the digits, or with an exponent. -/
inductive Layout (d : Decimal) : Literal → Prop
  | padded (zeros : ℕ) : d.leading + 1 = length d.coefficient + zeros → d.leading < 21 →
      Layout d ⟨none, Nat.toDigits 10 d.coefficient ++ List.replicate zeros '0', none, none⟩
  | pointed (whole fraction : List Char) : Nat.toDigits 10 d.coefficient = whole ++ fraction →
      whole ≠ [] → fraction ≠ [] → d.leading + 1 = whole.length → d.leading < 21 →
      Layout d ⟨none, whole, some fraction, none⟩
  | small (zeros : ℕ) : d.leading + 1 + zeros = 0 → -7 < d.leading →
      Layout d ⟨none, ['0'],
        some (List.replicate zeros '0' ++ Nat.toDigits 10 d.coefficient), none⟩
  | exponential (first : Char) (rest : List Char) : Nat.toDigits 10 d.coefficient = first :: rest →
      d.leading ≤ -7 ∨ 21 ≤ d.leading →
      Layout d ⟨none, [first], if rest = [] then none else some rest,
        some (some (if d.leading < 0 then '-' else '+'), Nat.toDigits 10 d.leading.natAbs)⟩

/-- The text of a decimal is one of the four layouts. -/
theorem text_layout (d : Decimal) : ∃ l, d.Layout l ∧ d.text = .ofList l.chars := by
  have hlength : (Nat.toDigits 10 d.coefficient).length = length d.coefficient := rfl
  have hpos := length_pos d.coefficient
  have hwidest : widestPoint = 21 := rfl
  have hnarrowest : narrowestPoint = -6 := rfl
  simp only [text, hlength]
  by_cases hpadded : (length d.coefficient : ℤ) ≤ d.leading + 1 ∧ d.leading + 1 ≤ widestPoint
  · rw [if_pos hpadded]
    refine ⟨_, .padded (d.leading + 1 - length d.coefficient).toNat (by omega) (by omega), ?_⟩
    simp [chars, exponentChars]
  rw [if_neg hpadded]
  by_cases hpointed : 0 < d.leading + 1 ∧ d.leading + 1 ≤ widestPoint
  · rw [if_pos hpointed]
    refine ⟨_, .pointed _ _ (List.take_append_drop (d.leading + 1).toNat _).symm ?_ ?_ ?_
      (by omega), by simp [chars, exponentChars]⟩
    · rw [← List.length_pos_iff, List.length_take, hlength]
      omega
    · rw [← List.length_pos_iff, List.length_drop, hlength]
      omega
    · rw [List.length_take, hlength]
      omega
  rw [if_neg hpointed]
  by_cases hsmall : narrowestPoint < d.leading + 1 ∧ d.leading + 1 ≤ 0
  · rw [if_pos hsmall]
    refine ⟨_, .small (-(d.leading + 1)).toNat (by omega) (by omega), ?_⟩
    simp [chars, exponentChars]
  rw [if_neg hsmall]
  cases hd : Nat.toDigits 10 d.coefficient with
  | nil => exact absurd hd Nat.toDigits_ne_nil
  | cons first rest =>
    refine ⟨_, .exponential first rest hd (by omega), ?_⟩
    cases rest <;> simp [chars, exponentChars]

theorem Layout.sign_eq (h : d.Layout l) : l.sign = none := by cases h <;> rfl

theorem Layout.wellFormed (h : d.Layout l) : l.WellFormed := by
  have hdigits := digits_toDigits d.coefficient
  cases h with
  | padded zeros =>
    exact ⟨nofun, hdigits.append_right (isDigit_replicate_zero zeros), nofun, nofun⟩
  | pointed whole fraction heq hwhole hfraction =>
    rw [heq] at hdigits
    have hleft : Digits whole :=
      ⟨hwhole, fun c hc => hdigits.isDigit c (List.mem_append_left _ hc)⟩
    have hright : Digits fraction :=
      ⟨hfraction, fun c hc => hdigits.isDigit c (List.mem_append_right _ hc)⟩
    refine ⟨nofun, hleft, ?_, nofun⟩
    rintro _ ⟨⟩
    exact hright
  | small zeros =>
    have hzero : Digits ['0'] := ⟨by simp, isDigit_replicate_zero 1⟩
    refine ⟨nofun, hzero, ?_, nofun⟩
    rintro _ ⟨⟩
    exact hdigits.append_left (isDigit_replicate_zero zeros)
  | exponential first rest heq =>
    rw [heq] at hdigits
    have hfirst : Digits [first] := ⟨List.cons_ne_nil _ _, fun c hc =>
      hdigits.isDigit c (List.mem_cons.mpr (.inl (List.mem_singleton.mp hc)))⟩
    refine ⟨nofun, hfirst, ?_, ?_⟩
    · intro digits hmem
      by_cases hrest : rest = []
      · simp [hrest] at hmem
      · simp only [hrest, if_false, Option.mem_some_iff] at hmem
        subst hmem
        exact ⟨hrest, fun c hc => hdigits.isDigit c (List.mem_cons_of_mem _ hc)⟩
    · rintro _ ⟨⟩
      refine ⟨?_, digits_toDigits _⟩
      rintro _ ⟨⟩
      split <;> simp

/-- A layout stands for the decimal. -/
theorem Layout.magnitude_eq (h : d.Layout l) : l.magnitude = d.value := by
  have hlength : length d.coefficient = (Nat.toDigits 10 d.coefficient).length := rfl
  have hexponent : d.exponent = d.leading + 1 - length d.coefficient := by
    unfold leading
    omega
  cases h with
  | padded zeros hpoint =>
    have hzeros : d.exponent = (zeros : ℤ) := by omega
    simp [magnitude, exponentValue, Decimal.value, number_append_zeros, number_toDigits, hzeros,
      mul_comm]
  | pointed whole fraction heq _ _ hpoint =>
    rw [heq, List.length_append] at hlength
    have hplaces : d.exponent = -(fraction.length : ℤ) := by omega
    simp [magnitude, exponentValue, Decimal.value, ← heq, number_toDigits, hplaces]
  | small zeros hpoint =>
    have hplaces : d.exponent = -((zeros + length d.coefficient : ℕ) : ℤ) := by omega
    have hnumber : number (['0'] ++ (List.replicate zeros '0' ++ Nat.toDigits 10 d.coefficient)) =
        d.coefficient := by
      rw [← List.append_assoc]
      exact (number_zeros_append _ (zeros + 1)).trans (number_toDigits _)
    simp only [magnitude, Option.getD_some, hnumber, exponentValue, List.length_append,
      List.length_replicate, ← hlength, Decimal.value, hplaces, zero_sub]
  | exponential first rest heq =>
    rw [heq, List.length_cons] at hlength
    have hplaces : d.exponent = d.leading - rest.length := by omega
    have hfraction : (if rest = [] then none else some rest).getD [] = rest := by
      split
      · next h => rw [h]; rfl
      · rfl
    have hvalue : number (first :: rest) = d.coefficient := by rw [← heq, number_toDigits]
    have hleading : exponentValue ⟨none, [first], if rest = [] then none else some rest,
        some (some (if d.leading < 0 then '-' else '+'), Nat.toDigits 10 d.leading.natAbs)⟩ =
        d.leading := by
      by_cases hneg : d.leading < 0
      · simp only [exponentValue, number_toDigits, if_pos hneg, if_true]
        omega
      · have hplus : ¬ some '+' = some '-' := by decide
        simp only [exponentValue, number_toDigits, if_neg hneg, if_neg hplus]
        omega
    simp only [magnitude, hfraction, hleading, List.singleton_append, hvalue, Decimal.value,
      hplaces]

theorem Layout.exponent_iff (h : d.Layout l) :
    l.exponent.isSome ↔ d.leading ≤ -7 ∨ 21 ≤ d.leading := by
  have hpos := length_pos d.coefficient
  cases h with
  | padded | pointed | small => exact iff_of_false Bool.false_ne_true (by omega)
  | exponential _ _ _ hfar => simpa using hfar

theorem Layout.exponent_sign (h : d.Layout l) : ∀ e ∈ l.exponent, e.1.isSome := by
  cases h with
  | padded | pointed | small => nofun
  | exponential =>
    rintro _ ⟨⟩
    rfl

theorem Layout.trim (h : d.Layout l) (hmod : d.coefficient % 10 ≠ 0) : l.Trim := by
  have hhead := head?_toDigits (n := d.coefficient) (by omega)
  have hlast := getLast?_toDigits hmod
  cases h with
  | padded zeros =>
    refine ⟨.inr ?_, nofun⟩
    rwa [List.head?_append_of_ne_nil _ Nat.toDigits_ne_nil]
  | pointed whole fraction heq hwhole hfraction =>
    rw [heq] at hhead hlast
    refine ⟨.inr ?_, ?_⟩
    · rwa [List.head?_append_of_ne_nil _ hwhole] at hhead
    · rintro _ ⟨⟩
      rwa [List.getLast?_append_of_ne_nil _ hfraction] at hlast
  | small zeros =>
    refine ⟨.inl rfl, ?_⟩
    rintro _ ⟨⟩
    rwa [List.getLast?_append_of_ne_nil _ Nat.toDigits_ne_nil]
  | exponential first rest heq =>
    rw [heq] at hhead hlast
    refine ⟨.inr hhead, ?_⟩
    intro digits hmem
    by_cases hrest : rest = []
    · simp [hrest] at hmem
    · simp only [hrest, if_false, Option.mem_some_iff] at hmem
      subst hmem
      rwa [← List.singleton_append, List.getLast?_append_of_ne_nil _ hrest] at hlast

/-! ### Ranges -/

/-- The value of an integer as a 32-bit one, if it has one. -/
def value32? (n : ℤ) : Option ℤ := (int32? n).map Int32.toInt

theorem value32?_eq {n : ℤ} (hlow : -2147483648 ≤ n) (hhigh : n < 2147483648) :
    value32? n = some n := by
  have hvalue : (Int32.ofInt n).toInt = n := Int32.toInt_ofInt_of_le hlow hhigh
  rw [value32?, int32?, if_pos ⟨hlow, hhigh⟩, Option.map_some, hvalue]

/-- The digits before a place and those after it, if there is such a place. -/
def cut? (digits : List Char) (place : ℕ) : Option (List Char × List Char) :=
  if place ≤ digits.length then some (digits.splitAt place) else none

theorem cut?_eq {digits : List Char} {place : ℕ} (h : place ≤ digits.length) :
    cut? digits place = some (digits.take place, digits.drop place) := by
  rw [cut?, if_pos h, List.splitAt_eq]

/-- The text as it is made with 32-bit integers, unless one of them is out of range, a count of
zeros is negative, or the digits are cut beyond their end. -/
def checkedText? (d : Decimal) : Option String := do
  let digits := Nat.toDigits 10 d.coefficient
  let exponent ← value32? d.leading
  let count ← value32? digits.length
  let point ← value32? (exponent + 1)
  if count ≤ point ∧ point ≤ widestPoint then
    let zeros ← (← value32? (point - count)).toNat?
    some (.ofList (digits ++ List.replicate zeros '0'))
  else if 0 < point ∧ point ≤ widestPoint then
    let (whole, fraction) ← cut? digits (← point.toNat?)
    some (.ofList (whole ++ '.' :: fraction))
  else if narrowestPoint < point ∧ point ≤ 0 then
    let zeros ← (← value32? (-point)).toNat?
    some (.ofList ('0' :: '.' :: List.replicate zeros '0' ++ digits))
  else
    let sign := if exponent < 0 then '-' else '+'
    let size ← (← value32? exponent.natAbs).toNat?
    let (first, rest) ← cut? digits 1
    let power := 'e' :: sign :: Nat.toDigits 10 size
    some (.ofList (if rest = [] then first ++ power else first ++ '.' :: rest ++ power))

theorem toNat?_of_nonneg {n : ℤ} (h : 0 ≤ n) : n.toNat? = some n.toNat := by
  obtain ⟨m, rfl⟩ := Int.eq_ofNat_of_zero_le h
  rfl

/-- Nothing is out of range if the leading exponent and the number of digits are not. -/
theorem checkedText?_eq (hlow : -2147483648 < d.leading) (hhigh : d.leading < 2147483647)
    (hcount : length d.coefficient < 2147483648) : d.checkedText? = some d.text := by
  have hlength : (Nat.toDigits 10 d.coefficient).length = length d.coefficient := rfl
  have hpos := length_pos d.coefficient
  have hwidest : widestPoint = 21 := rfl
  have hnarrowest : narrowestPoint = -6 := rfl
  have hleading := value32?_eq hlow.le (hhigh.trans (by decide))
  have hdigits := value32?_eq (n := length d.coefficient) (by omega) (by omega)
  have hplace := value32?_eq (n := d.leading + 1) (by omega) (by omega)
  simp only [checkedText?, text, hlength, hleading, hdigits, hplace, Option.bind_eq_bind,
    Option.bind_some]
  by_cases hpadded : (length d.coefficient : ℤ) ≤ d.leading + 1 ∧ d.leading + 1 ≤ widestPoint
  · rw [if_pos hpadded, if_pos hpadded, value32?_eq (by omega) (by omega), Option.bind_some,
      toNat?_of_nonneg (by omega), Option.bind_some]
  rw [if_neg hpadded, if_neg hpadded]
  by_cases hpointed : 0 < d.leading + 1 ∧ d.leading + 1 ≤ widestPoint
  · rw [if_pos hpointed, if_pos hpointed, toNat?_of_nonneg (by omega), Option.bind_some,
      cut?_eq (by omega), Option.bind_some]
  rw [if_neg hpointed, if_neg hpointed]
  by_cases hsmall : narrowestPoint < d.leading + 1 ∧ d.leading + 1 ≤ 0
  · rw [if_pos hsmall, if_pos hsmall, value32?_eq (by omega) (by omega), Option.bind_some,
      toNat?_of_nonneg (by omega), Option.bind_some]
  rw [if_neg hsmall, if_neg hsmall, value32?_eq (by omega) (by omega), Option.bind_some,
    toNat?_of_nonneg (by omega), Option.bind_some, Int.toNat_natCast, cut?_eq (by omega),
    Option.bind_some]
  cases hd : Nat.toDigits 10 d.coefficient with
  | nil => exact absurd hd Nat.toDigits_ne_nil
  | cons first rest => cases rest <;> simp

end Decimal

end Realms
