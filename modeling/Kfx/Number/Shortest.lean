import Kfx.Number.Binary

/-! The shortest decimal that reads back as a given double, and two ways to lay its digits out. -/
namespace Kfx.Number

/-- The number of decimal digits of `n`; zero has one. -/
def digitCount (n : Nat) : Nat :=
  (Nat.toDigits 10 n).length

/-- A decimal `digits * 10 ^ exponent`. -/
structure Decimal where
  digits : Nat
  exponent : Int
  deriving DecidableEq

def Decimal.toDouble (d : Decimal) (negative : Bool) : Double :=
  if 0 ≤ d.exponent then Double.ofRatio negative (d.digits * tenTo d.exponent.toNat) 1
  else Double.ofRatio negative d.digits (tenTo (-d.exponent).toNat)

/-- Which of two equally near decimals is taken. -/
inductive Tie
  | up
  /-- The one whose last digit is even. -/
  | toEven
  deriving DecidableEq

/-- Of the two decimals with `count` digits around `num / den`, the nearer one of those that read
back as `x`. `top` is the number of digits before the point (it may be negative or zero). -/
def shortestWith (tie : Tie) (x : Double) (num den : Nat) (top : Int) (count : Nat) :
    Option Decimal :=
  let exponent := top - count
  -- `num / den` counted in units of the last digit
  let (n, d) :=
    if 0 ≤ exponent then (num, den * tenTo exponent.toNat)
    else (num * tenTo (-exponent).toNat, den)
  let below : Decimal := ⟨n / d, exponent⟩
  -- One more than a row of nines is a power of ten and needs one digit.
  let above : Decimal := if n / d + 1 = tenTo count then ⟨1, top⟩ else ⟨n / d + 1, exponent⟩
  let reads (c : Decimal) : Bool := decide (c.toDouble x.negative = x)
  match reads below, reads above with
  | false, false => none
  | true, false => some below
  | false, true => some above
  | true, true =>
    let half := 2 * (n % d)
    some (if half < d ∨ half = d ∧ tie = .toEven ∧ (n / d) % 2 = 0 then below else above)

/-- The number of digits before the decimal point of `num / den`: the least `k` with
`num / den < 10 ^ k`. -/
def wholeDigits (num den : Nat) : Int :=
  if den ≤ num then digitCount (num / den)
  else
    -- `10 ^ k ≤ den / num` holds for the zeros that follow the point.
    let k := digitCount (den / num)
    if num * tenTo (k - 1) < den then -((k - 1 : Nat) : Int) else -((k - 1 : Nat) : Int) + 1

/-- The shortest decimal that reads back as `x`, the nearest of those, without trailing zeros.
Seventeen digits always read back. -/
def shortest (tie : Tie) (x : Double) : Decimal :=
  let num := x.units
  let den := twoTo BinaryFormat.double.shift
  if num = 0 then ⟨0, 0⟩
  else
    let top := wholeDigits num den
    ((List.range 17).findSome? fun i => shortestWith tie x num den top (i + 1)).getD ⟨0, 0⟩

/-- The digits with the point where it belongs and no exponent, as many zeros as that takes. -/
def Decimal.positional (d : Decimal) : String :=
  let digits := Nat.toDigits 10 d.digits
  if 0 ≤ d.exponent then String.ofList (digits ++ List.replicate d.exponent.toNat '0')
  else
    let places := (-d.exponent).toNat
    if places < digits.length then
      let whole := digits.take (digits.length - places)
      let rest := digits.drop (digits.length - places)
      String.ofList (whole ++ '.' :: rest)
    else String.ofList ('0' :: '.' :: (List.replicate (places - digits.length) '0' ++ digits))

/-- A double in diagnostics: its shortest digits, always positional. A tie goes up. -/
def Double.positional (x : Double) : String :=
  let sign := if x.negative then "-" else ""
  if x.isInfinite then sign ++ "inf" else sign ++ (shortest .up x).positional

/-- The digits with the point in reach, from `0.00001` up to sixteen digits before the point, and
otherwise behind the first digit with an exponent, which has a sign. A whole number keeps a zero
behind its point. -/
def Decimal.compact (d : Decimal) : String :=
  let digits := (Nat.toDigits 10 d.digits)
  let top := (digits.length : Int) + d.exponent
  if 0 ≤ d.exponent ∧ top ≤ 16 then d.positional ++ ".0"
  else if -5 < top ∧ top ≤ 16 then d.positional
  else
    let power := (if 0 < top then "+" else "") ++ toString (top - 1)
    match digits with
    | [] => "e" ++ power
    | [c] => String.ofList [c] ++ "e" ++ power
    | c :: cs => String.ofList (c :: '.' :: cs) ++ "e" ++ power

/-- A double with its shortest digits, in reach positional and else with an exponent. A tie goes to
the even digit. -/
def Double.compact (x : Double) : String :=
  let sign := if x.negative then "-" else ""
  if x.isInfinite then sign ++ "inf"
  else if x.units = 0 then sign ++ "0.0"
  else sign ++ (shortest .toEven x).compact

end Kfx.Number
