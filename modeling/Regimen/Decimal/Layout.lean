import Regimen.Decimal.Shortest

/-!
# Layouts of decimals

How the digits of a decimal are set out. `plain` writes every number positionally and a whole number
without a point. `compact` keeps a point in every number, so that the text of a binary64 number is
never that of an integer, and turns to scientific notation outside of `1e-5 ≤ |x| < 1e16`.
-/

namespace Regimen.Decimal

namespace Digits

/-- The digits as characters. -/
def chars (d : Digits) : List Char := (toString d.digits).toList

/-- How many digits stand before the point in positional notation; negative or zero when the first
digit comes after it. -/
def point (d : Digits) : Int := d.chars.length + d.exponent

/-- Positional notation; `whole` follows the digits of a number without a fraction. -/
def positional (d : Digits) (whole : String) : String :=
  if 0 ≤ d.exponent then
    String.ofList (d.chars ++ List.replicate d.exponent.toNat '0') ++ whole
  else if 0 < d.point then
    String.ofList (d.chars.take d.point.toNat ++ '.' :: d.chars.drop d.point.toNat)
  else
    String.ofList ('0' :: '.' :: List.replicate (-d.point).toNat '0' ++ d.chars)

/-- One digit, the others after a point, and the exponent of the first digit with its sign. -/
def scientific (d : Digits) : String :=
  let lead := d.point - 1
  let mantissa := match d.chars with
    | first :: rest@(_ :: _) => first :: '.' :: rest
    | short => short
  String.ofList mantissa ++ (if lead < 0 then "e-" else "e+") ++ toString lead.natAbs

end Digits

/-- The text of a number that is not finite. -/
def special (x : Float) : String :=
  if x.isNaN then "NaN" else if isNegative x then "-inf" else "inf"

/-- The sign, then the text of the magnitude. -/
def signed (x : Float) (magnitude : String) : String :=
  if isNegative x then "-" ++ magnitude else magnitude

/-- Always positional, without a point in a whole number. -/
def plain (x : Float) : String :=
  if x.isFinite then signed x ((shortest x .up).positional "") else special x

/-- Positional with a point for `1e-5 ≤ |x| < 1e16` and for zero, scientific elsewhere. A number
that is not finite has no such text and is written `null`. -/
def compact (x : Float) : String :=
  if x.isFinite then
    let d := shortest x .even
    signed x (if x == 0.0 || (-5 ≤ d.point - 1 && d.point - 1 < 16) then d.positional ".0" else d.scientific)
  else "null"

end Regimen.Decimal
