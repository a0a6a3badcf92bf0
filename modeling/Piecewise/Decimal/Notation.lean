import Piecewise.Decimal.Shortest

/-!
# How numbers are written

A number is written with its shortest digits, never with an exponent: whole numbers have no
point, a fraction has a digit before its point. Negative zero keeps its sign.
-/

namespace Piecewise.Decimal

/-- The digits without the zeros at their end, and how many zeros those were. -/
def cutZeros (digits : List Char) : List Char × Nat :=
  let kept := (digits.reverse.dropWhile (· = '0')).reverse
  (kept, digits.length - kept.length)

/-- The digits of a numeral, with its point where the exponent says. -/
def Numeral.positional (x : Numeral) : List Char :=
  let (digits, zeros) := cutZeros (Nat.toDigits 10 x.digits)
  match x.exponent + zeros with
  | .ofNat n => digits ++ List.replicate n '0'
  | .negSucc n =>
    let places := n + 1
    if places < digits.length then
      digits.take (digits.length - places) ++ '.' :: digits.drop (digits.length - places)
    else
      '0' :: '.' :: (List.replicate (places - digits.length) '0' ++ digits)

def text (x : Float) : String :=
  if x.isNaN then "NaN"
  else
    let sign := if isNegative x then ['-'] else []
    if x.isInf then String.ofList (sign ++ ['i', 'n', 'f'])
    else
      let magnitude := Binary.ofBits x.toBits
      if magnitude.mantissa = 0 then String.ofList (sign ++ ['0'])
      else String.ofList (sign ++ magnitude.shortest.positional)

end Piecewise.Decimal
