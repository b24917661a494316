import Realms.Proofs.Number.Rounding

/-! Decimal literals: digits, with a sign before them, a fraction after a point, and an exponent,
each of which may be absent. Main statement: the parts that a literal is written from are what is
read off its text. -/

namespace Realms

/-- The parts of a decimal literal, as they are written. -/
structure Literal where
  sign : Option Char
  whole : List Char
  fraction : Option (List Char)
  exponent : Option (Option Char × List Char)
  deriving DecidableEq

namespace Literal

variable {l : Literal} {digits rest : List Char} {sign : Option Char}

/-! ### Reading -/

def readSign : List Char → Option Char × List Char
  | '-' :: rest => (some '-', rest)
  | '+' :: rest => (some '+', rest)
  | rest => (none, rest)

/-- As many digits as there are, but at least one. -/
def readDigits (text : List Char) : Option (List Char × List Char) :=
  if text.takeWhile Char.isDigit = [] then none
  else some (text.takeWhile Char.isDigit, text.dropWhile Char.isDigit)

def readFraction : List Char → Option (Option (List Char) × List Char)
  | '.' :: rest => do
    let (digits, rest) ← readDigits rest
    some (some digits, rest)
  | rest => some (none, rest)

def readExponent : List Char → Option (Option (Option Char × List Char) × List Char)
  | 'e' :: rest => do
    let (sign, rest) := readSign rest
    let (digits, rest) ← readDigits rest
    some (some (sign, digits), rest)
  | rest => some (none, rest)

/-- The literal that a text is, if it is one from its start to its end. -/
def read? (text : String) : Option Literal := do
  let (sign, rest) := readSign text.toList
  let (whole, rest) ← readDigits rest
  let (fraction, rest) ← readFraction rest
  let (exponent, rest) ← readExponent rest
  if rest = [] then some ⟨sign, whole, fraction, exponent⟩ else none

/-! ### Meaning -/

def number (digits : List Char) : ℕ := Nat.ofDigitChars 10 digits 0

def exponentValue (l : Literal) : ℤ :=
  match l.exponent with
  | none => 0
  | some (sign, digits) => if sign = some '-' then -number digits else number digits

/-- All digits as one number, scaled by the exponent and by the length of the fraction. -/
def magnitude (l : Literal) : ℚ :=
  number (l.whole ++ l.fraction.getD []) *
    10 ^ (l.exponentValue - ((l.fraction.getD []).length : ℤ))

def value (l : Literal) : ℚ := Double.signed (l.sign = some '-') l.magnitude

/-- No zero stands before another digit of the whole part, nor at the end of the fraction. -/
structure Trim (l : Literal) : Prop where
  leading : l.whole = ['0'] ∨ l.whole.head? ≠ some '0'
  trailing : ∀ digits ∈ l.fraction, digits.getLast? ≠ some '0'

/-! ### Writing -/

def exponentChars (l : Literal) : List Char :=
  l.exponent.elim [] fun (sign, digits) => 'e' :: (sign.toList ++ digits)

def chars (l : Literal) : List Char :=
  l.sign.toList ++ (l.whole ++ (l.fraction.elim [] ('.' :: ·) ++ l.exponentChars))

/-- Digits, at least one. -/
structure Digits (digits : List Char) : Prop where
  ne_nil : digits ≠ []
  isDigit : ∀ c ∈ digits, c.isDigit = true

def Sign (sign : Option Char) : Prop := ∀ c ∈ sign, c = '-' ∨ c = '+'

structure WellFormed (l : Literal) : Prop where
  sign : Sign l.sign
  whole : Digits l.whole
  fraction : ∀ digits ∈ l.fraction, Digits digits
  exponent : ∀ e ∈ l.exponent, Sign e.1 ∧ Digits e.2

theorem readDigits_append (h : Digits digits) (hrest : ∀ c ∈ rest.head?, c.isDigit = false) :
    readDigits (digits ++ rest) = some (digits, rest) := by
  have htake : rest.takeWhile Char.isDigit = [] := by
    cases rest with
    | nil => rfl
    | cons c rest => simp [hrest c rfl]
  have hdrop : rest.dropWhile Char.isDigit = rest := by
    cases rest with
    | nil => rfl
    | cons c rest => simp [hrest c rfl]
  rw [readDigits, List.takeWhile_append_of_pos h.isDigit, List.dropWhile_append_of_pos h.isDigit,
    htake, hdrop, List.append_nil, if_neg h.ne_nil]

theorem readSign_append (hs : Sign sign) (hd : Digits digits) :
    readSign (sign.toList ++ (digits ++ rest)) = (sign, digits ++ rest) := by
  cases sign with
  | some c => obtain rfl | rfl := hs c rfl <;> rfl
  | none =>
    obtain ⟨hne, hdigit⟩ := hd
    cases digits with
    | nil => exact absurd rfl hne
    | cons c digits =>
      have hc := hdigit c List.mem_cons_self
      simp only [Option.toList_none, List.nil_append, List.cons_append]
      unfold readSign
      split
      · next heq => cases heq; cases hc
      · next heq => cases heq; cases hc
      · rfl

theorem head?_exponentChars (l : Literal) : ∀ c ∈ l.exponentChars.head?, c.isDigit = false := by
  unfold exponentChars
  cases l.exponent with
  | none => nofun
  | some e =>
    rintro c ⟨⟩
    rfl

theorem readExponent_chars (h : l.WellFormed) :
    readExponent l.exponentChars = some (l.exponent, []) := by
  unfold exponentChars
  cases he : l.exponent with
  | none => rfl
  | some e =>
    obtain ⟨sign, digits⟩ := e
    obtain ⟨hs, hd⟩ := h.exponent _ he
    have hsign : readSign (sign.toList ++ (digits ++ [])) = (sign, digits ++ []) :=
      readSign_append hs hd
    have hdigits : readDigits (digits ++ []) = some (digits, []) := readDigits_append hd (by simp)
    rw [List.append_nil] at hsign hdigits
    simp [readExponent, hsign, hdigits]

theorem readFraction_append (h : l.WellFormed) :
    readFraction (l.fraction.elim [] ('.' :: ·) ++ l.exponentChars) =
      some (l.fraction, l.exponentChars) := by
  cases hf : l.fraction with
  | none =>
    unfold exponentChars
    cases l.exponent <;> rfl
  | some digits =>
    have hdigits := readDigits_append (h.fraction digits hf) l.head?_exponentChars
    simp [readFraction, hdigits]

/-- What is read off the text of a literal is the literal. -/
theorem read?_chars (h : l.WellFormed) : read? (.ofList l.chars) = some l := by
  have hhead : ∀ c ∈ (l.fraction.elim [] ('.' :: ·) ++ l.exponentChars).head?,
      c.isDigit = false := by
    cases l.fraction with
    | none => exact l.head?_exponentChars
    | some digits =>
      rintro c ⟨⟩
      rfl
  have hchars : l.chars = l.sign.toList ++
      (l.whole ++ (l.fraction.elim [] ('.' :: ·) ++ l.exponentChars)) := rfl
  have hwhole := readDigits_append h.whole hhead
  rw [read?, String.toList_ofList, hchars, readSign_append h.sign h.whole]
  simp [hwhole, readFraction_append h, readExponent_chars h]

/-! ### Digits -/

theorem digits_toDigits (n : ℕ) : Digits (Nat.toDigits 10 n) :=
  ⟨Nat.toDigits_ne_nil, fun _ hc => Nat.isDigit_of_mem_toDigits (by decide) (by decide) hc⟩

theorem isDigit_replicate_zero (n : ℕ) : ∀ c ∈ List.replicate n '0', c.isDigit = true := by
  intro c hc
  rw [List.eq_of_mem_replicate hc]
  rfl

theorem Digits.append_left (h : Digits digits) (hrest : ∀ c ∈ rest, c.isDigit = true) :
    Digits (rest ++ digits) :=
  ⟨by simp [h.ne_nil], fun c hc => (List.mem_append.mp hc).elim (hrest c) (h.isDigit c)⟩

theorem Digits.append_right (h : Digits digits) (hrest : ∀ c ∈ rest, c.isDigit = true) :
    Digits (digits ++ rest) :=
  ⟨by simp [h.ne_nil], fun c hc => (List.mem_append.mp hc).elim (h.isDigit c) (hrest c)⟩

theorem number_toDigits (n : ℕ) : number (Nat.toDigits 10 n) = n := Nat.ofDigitChars_ten_toDigits

/-- Zeros after the digits. -/
theorem number_append_zeros (digits : List Char) (n : ℕ) :
    number (digits ++ List.replicate n '0') = 10 ^ n * number digits := by
  rw [number, Nat.ofDigitChars_append, Nat.ofDigitChars_replicate_zero, number]

/-- Zeros before the digits. -/
theorem number_zeros_append (digits : List Char) (n : ℕ) :
    number (List.replicate n '0' ++ digits) = number digits := by
  rw [number, Nat.ofDigitChars_append, Nat.ofDigitChars_replicate_zero, Nat.mul_zero, number]

end Literal

end Realms
