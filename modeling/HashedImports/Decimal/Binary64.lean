/-!
Floating-point numbers of 64 bits, and the nearest of them to a decimal number.
-/

namespace HashedImports.Decimal

/-- A finite number is `significand * 2 ^ exponent`, with its sign. -/
inductive Binary64
  | finite (negative : Bool) (significand : Nat) (exponent : Int)
  | infinite (negative : Bool)
  | nan
  deriving DecidableEq, Repr

def roundDiv (num den : Nat) : Nat :=
  let q := num / den
  let r := 2 * (num % den)
  if r < den ∨ (r = den ∧ q % 2 = 0) then q else q + 1

def scaled (num den : Nat) (e : Int) : Nat × Nat :=
  if e < 0 then (num * Nat.pow 2 e.natAbs, den) else (num, den * Nat.pow 2 e.natAbs)

def exponentOf (num den : Nat) : Int :=
  let guess : Int := max (Int.ofNat num.log2 - Int.ofNat den.log2 - 52) (-1074)
  let (n, d) := scaled num den guess
  if Nat.pow 2 53 ≤ n / d then guess + 1
  else if n / d < Nat.pow 2 52 ∧ -1074 < guess then guess - 1
  else guess

def nearest (negative : Bool) (num den : Nat) : Binary64 :=
  let e := exponentOf num den
  let (n, d) := scaled num den e
  let m := roundDiv n d
  let (m, e) := if m = Nat.pow 2 53 then (Nat.pow 2 52, e + 1) else (m, e)
  if 971 < e then .infinite negative else .finite negative m e

/-- The nearest number to `digits * 10 ^ exponent`. Magnitudes far out of range are settled by the
number of digits alone. -/
def ofDecimal (negative : Bool) (digits : Nat) (exponent : Int) : Binary64 :=
  let magnitude := exponent + (Nat.toDigits 10 digits).length
  if digits = 0 ∨ magnitude < -330 then .finite negative 0 (-1074)
  else if 310 < magnitude then .infinite negative
  else if exponent < 0 then nearest negative digits (Nat.pow 10 exponent.natAbs)
  else nearest negative (digits * Nat.pow 10 exponent.natAbs) 1

end HashedImports.Decimal
