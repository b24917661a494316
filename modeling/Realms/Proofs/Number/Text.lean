import Realms.Proofs.Number.Layout
import Realms.Store

/-! The text of a double. Main statement: the text of a finite double is a decimal literal that
stands for its shortest decimal with its sign, so it reads back as the double, and two doubles have
one text iff they have one value. -/

namespace Realms

namespace Literal

variable {l : Literal}

/-- A literal with a minus sign, if asked for. -/
def withSign (negative : Bool) (l : Literal) : Literal :=
  { l with sign := if negative then some '-' else none }

theorem withSign_wellFormed (h : l.WellFormed) (negative : Bool) :
    (l.withSign negative).WellFormed := by
  refine ⟨?_, h.whole, h.fraction, h.exponent⟩
  cases negative
  · nofun
  · rintro _ ⟨⟩
    exact .inl rfl

theorem withSign_value (negative : Bool) (l : Literal) :
    (l.withSign negative).value = Double.signed negative l.magnitude := by
  cases negative <;> rfl

theorem withSign_chars (negative : Bool) (h : l.sign = none) :
    (l.withSign negative).chars = if negative then '-' :: l.chars else l.chars := by
  have hunsigned : l.chars =
      l.whole ++ (l.fraction.elim [] ('.' :: ·) ++ l.exponentChars) := by
    rw [chars, h]
    rfl
  rw [hunsigned]
  cases negative <;> rfl

end Literal

namespace Double

variable {x y : Double}

theorem text_of_isZero (hx : x.isZero = true) : x.text = "0" := by
  have hfinite := (rounds_zero hx).finite
  simp [text, hx, hfinite.1]

/-- The text of a finite double other than zero is a layout of its shortest decimal with its
sign. -/
theorem text_layout (hx : x.Finite) (h0 : x.isZero = false) : ∃ l, x.shortest.Layout l ∧
    x.text = .ofList (l.withSign x.isNegative).chars := by
  obtain ⟨l, hl, htext⟩ := x.shortest.text_layout
  have htext' : x.text = if x.isNegative then "-" ++ x.shortest.text else x.shortest.text := by
    simp only [text, hx.1, hx.2, h0, Bool.false_eq_true, if_false]
  refine ⟨l, hl, ?_⟩
  rw [htext', Literal.withSign_chars _ hl.sign_eq, htext]
  cases x.isNegative
  · rfl
  · exact (@String.ofList_append ['-'] _).symm

/-- The text reads back as a double of the same value. -/
theorem text_rounds (hx : x.Finite) :
    ∃ l, Literal.read? x.text = some l ∧ Rounds l.value x := by
  cases h0 : x.isZero with
  | true =>
    have hnumber : Literal.number ['0'] = 0 := rfl
    have hzero : Literal.value ⟨none, ['0'], none, none⟩ = 0 := by
      simp [Literal.value, Literal.magnitude, hnumber, signed]
    refine ⟨⟨none, ['0'], none, none⟩, ?_, hzero ▸ rounds_zero h0⟩
    rw [text_of_isZero h0]
    decide
  | false =>
    obtain ⟨l, hl, htext⟩ := text_layout hx h0
    refine ⟨_, htext ▸ Literal.read?_chars (Literal.withSign_wellFormed hl.wellFormed _), ?_⟩
    rw [Literal.withSign_value, hl.magnitude_eq]
    exact ((shortest_contains h0).near h0).rounds hx h0

/-- Doubles of one value have one text. -/
theorem text_eq_of_value_eq (hx : x.Finite) (hy : y.Finite) (h : y.value = x.value) :
    y.text = x.text := by
  cases h0 : x.isZero with
  | true =>
    rw [value_eq_zero.mpr h0, value_eq_zero] at h
    rw [text_of_isZero h0, text_of_isZero h]
  | false =>
    obtain ⟨hsign, hsignificand, hscale⟩ := fields_of_value_eq h h0
    have hinterval : y.interval = x.interval := by simp only [interval, hsignificand, hscale]
    have hshortest : y.shortest = x.shortest := by
      simp only [shortest, hinterval, hsignificand]
    have h0' : y.isZero = false := by
      rw [← Bool.not_eq_true, isZero_iff, hsignificand, ← isZero_iff, Bool.not_eq_true, h0]
    simp only [text, hx.1, hy.1, hx.2, hy.2, h0, h0', hsign, hshortest]

theorem text_eq_iff (hx : x.Finite) (hy : y.Finite) : x.text = y.text ↔ x.value = y.value := by
  constructor
  · intro h
    obtain ⟨l, hl, hround⟩ := text_rounds hx
    obtain ⟨l', hl', hround'⟩ := text_rounds hy
    rw [h, hl'] at hl
    cases hl
    exact hround.unique hround'
  · exact text_eq_of_value_eq hy hx

/-! ### Ranges -/

/-- The text as it is made with 32-bit integers, unless one is out of range. -/
def checkedText? (x : Double) : Option String :=
  if x.isNaN then some "NaN"
  else if x.isZero then some "0"
  else do
    let magnitude ← if x.isInfinite then some "Infinity" else x.shortest.checkedText?
    some (if x.isNegative then "-" ++ magnitude else magnitude)

/-- Nothing is out of range in the making of a text. -/
theorem checkedText?_eq (x : Double) : x.checkedText? = some x.text := by
  unfold checkedText? text
  cases hnan : x.isNaN with
  | true => rfl
  | false =>
    cases h0 : x.isZero with
    | true => rfl
    | false =>
      cases hinfinite : x.isInfinite with
      | true => rfl
      | false =>
        have hleast := shortest_leading_ge h0
        have hmost := shortest_leading_le h0 ⟨hnan, hinfinite⟩
        have hlength := shortest_length_le h0
        have hchecked : x.shortest.checkedText? = some x.shortest.text :=
          Decimal.checkedText?_eq (by omega) (by omega) (by omega)
        simp [hchecked]

end Double

/-- The text of a finite double other than zero is a literal for the digits `d₁ … dₖ` and the
exponent `e` of its shortest decimal, that is for `d₁.d₂…dₖ * 10 ^ e` with the sign of the
double. -/
theorem double_text (st : Store) :
    (∀ x : Double, x.Finite → x.isZero = false →
      (∀ (c : ℕ) (p : ℤ), Double.Rounds (Double.signed x.isNegative (c * 10 ^ p)) x →
        Decimal.length x.shortest.coefficient ≤ Decimal.length c) ∧
      (Nat.toDigits 10 x.shortest.coefficient).head? ≠ some '0' ∧
      (Nat.toDigits 10 x.shortest.coefficient).getLast? ≠ some '0' ∧
      ∃ l, Literal.read? (st.text (.double x)) = some l ∧
        l.value = Double.signed x.isNegative (x.shortest.coefficient /
          10 ^ (Decimal.length x.shortest.coefficient - 1) * 10 ^ x.shortest.leading) ∧
        Double.Rounds l.value x ∧
        (l.exponent.isSome ↔ x.shortest.leading ≤ -7 ∨ 21 ≤ x.shortest.leading) ∧
        (∀ e ∈ l.exponent, e.1.isSome) ∧ l.Trim) ∧
    (∀ x y : Double, x.Finite → y.Finite →
      (st.text (.double x) = st.text (.double y) ↔ x.value = y.value)) ∧
    (∀ x : Double, x.isZero = true → st.text (.double x) = "0") ∧
    ∀ x : Double, x.checkedText? = some (st.text (.double x)) := by
  refine ⟨fun x hx h0 => ?_, fun x y => Double.text_eq_iff, fun x => Double.text_of_isZero,
    Double.checkedText?_eq⟩
  have hmod := Double.shortest_mod h0
  obtain ⟨l, hl, htext⟩ := Double.text_layout hx h0
  have hvalue : (l.withSign x.isNegative).value = Double.signed x.isNegative x.shortest.value := by
    rw [Literal.withSign_value, hl.magnitude_eq]
  refine ⟨fun c p => Double.shortest_length_minimal h0, Decimal.head?_toDigits (by omega),
    Decimal.getLast?_toDigits hmod, l.withSign x.isNegative, ?_, ?_, ?_, hl.exponent_iff,
    hl.exponent_sign, (hl.trim hmod).leading, (hl.trim hmod).trailing⟩
  · exact (congrArg Literal.read? htext).trans
      (Literal.read?_chars (Literal.withSign_wellFormed hl.wellFormed _))
  · rw [hvalue, Decimal.value_eq_leading]
  · rw [hvalue]
    exact ((Double.shortest_contains h0).near h0).rounds hx h0

/-- The text of `-1.5e-7`, which has an exponent, reads back as the double that it was made from,
and the two zeros have one text. -/
theorem small_double_text :
    Double.Finite ⟨0xBE8421F5F40D8376⟩ ∧ Double.isZero ⟨0xBE8421F5F40D8376⟩ = false ∧
    Store.empty.text (.double ⟨0xBE8421F5F40D8376⟩) = "-1.5e-7" ∧
    (∃ l, Literal.read? "-1.5e-7" = some l ∧ l.exponent.isSome = true ∧
      Double.Rounds l.value ⟨0xBE8421F5F40D8376⟩) ∧
    Double.Finite ⟨0⟩ ∧ Double.Finite ⟨0x8000000000000000⟩ ∧
    Store.empty.text (.double ⟨0⟩) = Store.empty.text (.double ⟨0x8000000000000000⟩) := by
  have hx : Double.Finite ⟨0xBE8421F5F40D8376⟩ := ⟨by decide, by decide⟩
  have h0 : Double.isZero ⟨0xBE8421F5F40D8376⟩ = false := by decide
  have htext : Store.empty.text (.double ⟨0xBE8421F5F40D8376⟩) = "-1.5e-7" := by decide +kernel
  have hleading : (Double.shortest ⟨0xBE8421F5F40D8376⟩).leading = -7 := by decide +kernel
  obtain ⟨hdouble, hsame, -, -⟩ := double_text Store.empty
  obtain ⟨-, -, -, l, hread, -, hrounds, hexponent, -⟩ := hdouble _ hx h0
  have hzero : Double.isZero ⟨0⟩ = true := by decide
  have hzero' : Double.isZero ⟨0x8000000000000000⟩ = true := by decide
  refine ⟨hx, h0, htext, ⟨l, htext ▸ hread, hexponent.mpr (.inl hleading.le), hrounds⟩,
    (Double.rounds_zero hzero).finite, (Double.rounds_zero hzero').finite, ?_⟩
  rw [hsame _ _ (Double.rounds_zero hzero).finite (Double.rounds_zero hzero').finite,
    Double.value_eq_zero.mpr hzero, Double.value_eq_zero.mpr hzero']

end Realms
