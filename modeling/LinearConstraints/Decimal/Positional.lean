/-
Numbers as text, always positional: all digits are written out and no
exponent is used, however large or small the number is.
-/
import LinearConstraints.Decimal.Shortest

namespace LinearConstraints.Decimal

/-- The digits with the point where the exponent puts it: a whole number
has no point, and a number below one starts with a zero. -/
def positional (d : Decimal) : String :=
  let digits := Nat.toDigits 10 d.digits
  let zeros := fun n => List.replicate n '0'
  if 0 ≤ d.exponent then
    String.ofList (digits ++ zeros d.exponent.toNat)
  else
    let places := (-d.exponent).toNat
    if places < digits.length then
      let whole := digits.length - places
      String.ofList (digits.take whole ++ '.' :: digits.drop whole)
    else
      String.ofList
        ('0' :: '.' :: (zeros (places - digits.length) ++ digits))

-- =========================================================== doubles

/-- The interval of a positive finite double, from its exponent field and
its fraction field. -/
def Interval.ofFields (exponent fraction : Nat) : Interval :=
  if exponent = 0 then .ofBinary fraction (-1074) false
  else
    .ofBinary (0x10000000000000 + fraction) (exponent - 1075)
      (fraction == 0 && exponent != 1)

/-- The text of a double: its shortest decimal, written positionally.
Negative zero keeps its sign, NaN has none. -/
def ofDouble (x : Float) : String :=
  let bits := x.toBits
  let sign := if bits >>> 63 = 1 then "-" else ""
  let exponent := (bits >>> 52 &&& 0x7FF).toNat
  let fraction := (bits &&& 0xFFFFFFFFFFFFF).toNat
  if exponent = 0x7FF then
    if fraction = 0 then sign ++ "inf" else "NaN"
  else if exponent = 0 && fraction = 0 then sign ++ "0"
  else sign ++ (shortest (.ofFields exponent fraction)).positional

end LinearConstraints.Decimal
