import Realms.Number.Shortest

/-!
The text of a number. A finite double is written with its shortest digits, in full when its
leading digit stands between the seventh place after the point and the twenty-first place before
it, and with an exponent otherwise.
-/

namespace Realms

namespace Decimal

/-- The exponent of the leading digit. -/
def leading (d : Decimal) : Int := d.exponent + length d.coefficient - 1

/-- The place of the point, counted from the first digit, up to which digits are written in full. -/
def widestPoint : Int := 21

/-- The place of the point below which a leading `0.` is given up. -/
def narrowestPoint : Int := -6

/-- Positional text where the point is near the digits, exponent text elsewhere. -/
def text (d : Decimal) : String :=
  let digits := Nat.toDigits 10 d.coefficient
  let point := d.leading + 1
  if digits.length ≤ point ∧ point ≤ widestPoint then
    .ofList (digits ++ List.replicate (point - digits.length).toNat '0')
  else if 0 < point ∧ point ≤ widestPoint then
    .ofList (digits.take point.toNat ++ '.' :: digits.drop point.toNat)
  else if narrowestPoint < point ∧ point ≤ 0 then
    .ofList ('0' :: '.' :: List.replicate (-point).toNat '0' ++ digits)
  else
    let sign := if d.leading < 0 then '-' else '+'
    let exponent := 'e' :: sign :: Nat.toDigits 10 d.leading.natAbs
    match digits with
    | [] => .ofList exponent
    | first :: [] => .ofList (first :: exponent)
    | first :: rest => .ofList (first :: '.' :: rest ++ exponent)

end Decimal

/-- The text of a double; negative zero is written as zero. -/
def Double.text (x : Double) : String :=
  if x.isNaN then "NaN"
  else if x.isZero then "0"
  else
    let magnitude := if x.isInfinite then "Infinity" else x.shortest.text
    if x.isNegative then "-" ++ magnitude else magnitude

end Realms
