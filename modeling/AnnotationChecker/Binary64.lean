/-!
# Binary floating point numbers of 64 bits

A finite number is a sign, a mantissa below `2 ^ 53` and a power of two that is at least `2 ^ -1074`;
unless the power is that least one, the mantissa is at least `2 ^ 52`, so each number is written in
one way. `Binary64.ofDecimal` takes the number nearest to a decimal, and of two nearest ones the one
with the even mantissa.
-/

namespace AnnotationChecker

/-- A number of 64 bits: its sign, and its size as `mantissa * 2 ^ power`. -/
inductive Binary64 where
  | finite (negative : Bool) (mantissa : Nat) (power : Int)
  | infinite (negative : Bool)
  | nan
deriving DecidableEq

namespace Binary64

/-- The power of the smallest numbers. -/
def leastPower : Int := -1074

/-- The power of the largest numbers. -/
def greatestPower : Int := 971

/-- Zero. -/
def zero : Binary64 := .finite false 0 leastPower

/-- The same size with the other sign. -/
def neg : Binary64 → Binary64
  | .finite s m q => .finite (!s) m q
  | .infinite s => .infinite (!s)
  | .nan => .nan

theorem neg_neg (x : Binary64) : x.neg.neg = x := by
  cases x <;> simp [neg]

/-- Mantissas are smaller than `2 ^ 53`. -/
def mantissaLimit : Nat := 0x20000000000000

/-- Above the least power, mantissas are at least `2 ^ 52`. -/
def leastNormal : Nat := 0x10000000000000

/-- `b` to the power `e`, where a negative `e` counts as zero. -/
def power (b : Nat) (e : Int) : Nat := Nat.pow b e.toNat

/-- `a / b` to the nearest integer, and of two nearest ones the even one. -/
def roundDiv (a b : Nat) : Nat :=
  if 2 * (a % b) < b then a / b
  else if b < 2 * (a % b) then a / b + 1
  else a / b + a / b % 2

/-- The quotient `a / b` as a fraction of `2 ^ q`, rounded. -/
def roundAt (a b : Nat) (q : Int) : Nat := roundDiv (a * power 2 (-q)) (b * power 2 q)

/-- The power `q` with `2 ^ 52 ≤ a / b / 2 ^ q < 2 ^ 53`, for positive `a` and `b`. -/
def normalPower (a b : Nat) : Int :=
  let k : Int := (a.log2 : Int) - (b.log2 : Int)
  if b * power 2 k ≤ a * power 2 (-k) then k - 52 else k - 53

/-- The number nearest to `a / b`, for positive `b`. -/
def ofRatio (a b : Nat) : Binary64 :=
  if a = 0 then zero
  else
    let q := max (normalPower a b) leastPower
    let m := roundAt a b q
    let m' := if m = mantissaLimit then leastNormal else m
    let q' := if m = mantissaLimit then q + 1 else q
    if greatestPower < q' then .infinite false else .finite false m' q'

/-- How many decimal digits a number has. -/
def digitCount (n : Nat) : Nat := (Nat.toDigits 10 n).length

/-- The number nearest to `m * 10 ^ e`. Sizes from `10 ^ 310` on are infinite and those below `10 ^ -330`
are zero, which spares the computation of huge powers. -/
def ofDecimal (m : Nat) (e : Int) : Binary64 :=
  if m = 0 then zero
  else if 310 < e + digitCount m then .infinite false
  else if e + digitCount m < -330 then zero
  else ofRatio (m * power 10 e) (power 10 (-e))

end Binary64

end AnnotationChecker
