import HashedImports.Decimal.Binary64

namespace HashedImports.Decimal

/-- The number `num / den`, and half-open or closed bounds of what rounds to it. All three are over
one denominator. -/
structure Rounding where
  value : Nat
  low : Nat
  high : Nat
  den : Nat
  closed : Bool

/-- What rounds to `m * 2 ^ e`: half the way to each neighbour, ends included for even `m`. Below a
power of two the neighbours stand closer. -/
def roundingOf (m : Nat) (e : Int) : Rounding :=
  let below := if m = Nat.pow 2 52 ∧ -1074 < e then 1 else 2
  let scale : Nat → Nat := fun n => if e < 2 then n else n * Nat.pow 2 (e - 2).natAbs
  { value := scale (4 * m)
    low := scale (4 * m - below)
    high := scale (4 * m + 2)
    den := if e < 2 then Nat.pow 2 (2 - e).natAbs else 1
    closed := m % 2 = 0 }

def Rounding.admits (r : Rounding) (n : Nat) (k : Int) : Bool :=
  let (a, d) := if k < 0 then (n, Nat.pow 10 k.natAbs) else (n * Nat.pow 10 k.natAbs, 1)
  let x := a * r.den
  if r.closed then r.low * d ≤ x && x ≤ r.high * d else r.low * d < x && x < r.high * d

def Rounding.over (r : Rounding) (k : Int) : Nat × Nat :=
  if k < 0 then (r.value * Nat.pow 10 k.natAbs, r.den) else (r.value, r.den * Nat.pow 10 k.natAbs)

def Rounding.onGrid? (r : Rounding) (k : Int) : Option Nat :=
  let (a, d) := r.over k
  let below := a / d
  let near := roundDiv a d
  let far := if near = below then below + 1 else below
  if r.admits near k then some near else if r.admits far k then some far else none

/-- The count of decimal digits before the point; for numbers below one, what is missing there is
counted negatively. -/
def Rounding.magnitude (r : Rounding) : Int :=
  let (a, d) := r.over (-340)
  Int.ofNat (Nat.toDigits 10 (a / d)).length - 340

def Rounding.search (r : Rounding) : Nat → Int → Nat × Int
  | 0, k => ((r.onGrid? k).getD 0, k)
  | count + 1, k =>
    match r.onGrid? k with
    | some n => (n, k)
    | none => r.search count (k - 1)

structure Digits where
  digits : List Char
  point : Int

def shortest (m : Nat) (e : Int) : Digits :=
  if m = 0 then ⟨['0'], 1⟩
  else
    let r := roundingOf m e
    let (n, k) := r.search 17 (r.magnitude - 1)
    let ds := Nat.toDigits 10 n
    let point := k + ds.length
    ⟨(ds.reverse.dropWhile (· = '0')).reverse, point⟩

/-- How numbers are laid out: in positions while the point stands within the bounds, otherwise with
an exponent. -/
structure Layout where
  leastPoint : Int
  greatestPoint : Int
  exponentMark : Char
  exponentWidth : Nat

def Layout.exponent (l : Layout) (e : Int) : List Char :=
  let ds := Nat.toDigits 10 e.natAbs
  l.exponentMark :: (if e < 0 then '-' else '+') ::
    (List.replicate (l.exponentWidth - ds.length) '0' ++ ds)

def Layout.render (l : Layout) (d : Digits) : List Char :=
  let n := d.digits.length
  if d.point < l.leastPoint ∨ l.greatestPoint < d.point then
    let fraction := d.digits.drop 1
    d.digits.take 1 ++ (if fraction.isEmpty then [] else '.' :: fraction) ++
      l.exponent (d.point - 1)
  else if d.point ≤ 0 then
    '0' :: '.' :: (List.replicate d.point.natAbs '0' ++ d.digits)
  else
    let whole := d.point.natAbs
    if n ≤ whole then d.digits ++ List.replicate (whole - n) '0' ++ ['.', '0']
    else d.digits.take whole ++ '.' :: d.digits.drop whole

end HashedImports.Decimal
