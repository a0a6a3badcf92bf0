/-!
# Reading numbers

The numerals that a number token may hold: an optional sign, then decimal digits with at most one
point (a digit on one side of it suffices) and an optional exponent, or one of the words `inf`,
`infinity` and `nan` in any case. A numeral stands for the float nearest to it, a tie going to
the even mantissa; a numeral beyond the largest float stands for infinity.
-/

namespace Piecewise.Decimal

/-- The value of a list of decimal digits. -/
def digitsValue (digits : List Char) : Nat :=
  digits.foldl (fun n c => 10 * n + (c.toNat - '0'.toNat)) 0

/-- The longest run of decimal digits at the front, and what follows it. -/
def spanDigits (cs : List Char) : List Char × List Char :=
  (cs.takeWhile Char.isDigit, cs.dropWhile Char.isDigit)

/-- A sign at the front, if there is one: whether it is a minus, and what follows it. -/
def splitSign : List Char → Bool × List Char
  | '-' :: rest => (true, rest)
  | '+' :: rest => (false, rest)
  | rest => (false, rest)

/-- The exponent that ends a numeral: nothing, or a mark, an optional sign and digits. -/
def readExponent? : List Char → Option Int
  | [] => some 0
  | mark :: rest =>
    if mark = 'e' || mark = 'E' then
      let (negative, body) := splitSign rest
      match spanDigits body with
      | (digit :: digits, []) =>
        let n : Int := digitsValue (digit :: digits)
        some (if negative then -n else n)
      | _ => none
    else none

/-- The float nearest to `digits * 10 ^ exponent`. Far outside the range of floats the answer is
known without forming the power. -/
def nearest (digits : List Char) (exponent : Int) : Float :=
  let significant := digits.dropWhile (· = '0')
  let size := significant.length + exponent
  if significant.isEmpty || size < -400 then 0.0
  else if size > 400 then 1.0 / 0.0
  else Float.ofScientific (digitsValue significant) (exponent < 0) exponent.natAbs

def readUnsigned? (cs : List Char) : Option Float :=
  let (whole, afterWhole) := spanDigits cs
  let (fraction, afterFraction) :=
    match afterWhole with
    | '.' :: rest => spanDigits rest
    | rest => ([], rest)
  if whole.isEmpty && fraction.isEmpty then none
  else
    (readExponent? afterFraction).map fun exponent =>
      nearest (whole ++ fraction) (exponent - fraction.length)

/-- The words for numbers that no digits write. -/
def readWord? (cs : List Char) : Option Float :=
  match String.ofList (cs.map Char.toLower) with
  | "inf" => some (1.0 / 0.0)
  | "infinity" => some (1.0 / 0.0)
  | "nan" => some (0.0 / 0.0)
  | _ => none

/-- The number that a text writes, if it writes one. -/
def read? (text : String) : Option Float :=
  let (negative, body) := splitSign text.toList
  (readWord? body <|> readUnsigned? body).map fun x => if negative then -x else x

end Piecewise.Decimal
