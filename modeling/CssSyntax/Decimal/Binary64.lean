/-! Floating-point numbers of 64 bits without their sign, as exact pairs of a mantissa and a power
of two. Each operation rounds the exact result once, to the nearest number, and of two equally
near ones to the one with an even mantissa. -/

namespace CssSyntax

/-- The number `mantissa * 2 ^ exponent`. The mantissa has at most 53 bits, and has all 53 unless
the exponent is the least. -/
structure Binary64 where
  mantissa : Nat
  exponent : Int
deriving DecidableEq, Repr

namespace Binary64

def leastExponent : Int := -1074

def greatestExponent : Int := 971

def zero : Binary64 := ⟨0, leastExponent⟩

def isZero (number : Binary64) : Bool := number.mantissa == 0

/-- The quotient to the nearest whole number, a half to the even one. -/
def roundQuotient (dividend divisor : Nat) : Nat :=
  let quotient := dividend / divisor
  let twice := 2 * (dividend % divisor)
  if divisor < twice ∨ (divisor = twice ∧ quotient % 2 = 1) then quotient + 1 else quotient

/-- A power of two, one for a negative exponent. -/
def twos (exponent : Int) : Nat := Nat.pow 2 exponent.toNat

/-- A power of ten, one for a negative exponent. -/
def tens (exponent : Int) : Nat := Nat.pow 10 exponent.toNat

/-- The least mantissa of 53 bits, and the least of 54. -/
def leastFull : Nat := Nat.pow 2 52

def mantissaLimit : Nat := Nat.pow 2 53

/-- The dividend and the divisor of `dividend / divisor / 2 ^ exponent`. -/
def scaled (dividend divisor : Nat) (exponent : Int) : Nat × Nat :=
  (dividend * twos (-exponent), divisor * twos exponent)

/-- Numbers past the greatest are none. -/
def normal? (mantissa : Nat) (exponent : Int) : Option Binary64 :=
  let (mantissa, exponent) :=
    if mantissa = mantissaLimit then (leastFull, exponent + 1) else (mantissa, exponent)
  if greatestExponent < exponent then none else some ⟨mantissa, exponent⟩

/-- The number nearest to `dividend / divisor * 2 ^ shift`. -/
def ofQuotient? (dividend divisor : Nat) (shift : Int) : Option Binary64 :=
  if dividend = 0 then some zero
  else
    let guess := (dividend.log2 : Int) - divisor.log2 - 53 + shift
    let low := max leastExponent guess
    let (top, bottom) := scaled dividend divisor (low - shift)
    let exponent := if mantissaLimit ≤ top / bottom then low + 1 else low
    let (top, bottom) := scaled dividend divisor (exponent - shift)
    normal? (roundQuotient top bottom) exponent

def ofNat? (number : Nat) : Option Binary64 := ofQuotient? number 1 0

def mul? (left right : Binary64) : Option Binary64 :=
  ofQuotient? (left.mantissa * right.mantissa) 1 (left.exponent + right.exponent)

def div? (left right : Binary64) : Option Binary64 :=
  ofQuotient? left.mantissa right.mantissa (left.exponent - right.exponent)

/-- The greatest power of ten that is a number. -/
def greatestPower : Nat := 308

def powerOfTen (power : Nat) : Binary64 := (ofNat? (tens power)).getD zero

/-- `number / 10 ^ power`. Powers past the greatest are divided by in steps, and each step
rounds. -/
def scaleDown (number : Binary64) (power : Nat) : Binary64 :=
  if number.isZero then zero
  else if greatestPower < power then
    scaleDown ((number.div? (powerOfTen greatestPower)).getD zero) (power - greatestPower)
  else (number.div? (powerOfTen power)).getD zero
termination_by power
decreasing_by simp only [greatestPower] at *; omega

/-- `significand * 10 ^ exponent`. The significand, the power of ten and their product are each
rounded. Numbers past the greatest are none. -/
def ofDecimal? (significand : Nat) (exponent : Int) : Option Binary64 :=
  match ofNat? significand with
  | none => none
  | some number =>
    if number.isZero then some zero
    else if exponent < 0 then some (number.scaleDown (-exponent).toNat)
    else if greatestPower < exponent.toNat then none
    else number.mul? (powerOfTen exponent.toNat)

end Binary64

end CssSyntax
