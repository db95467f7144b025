import AnnotationChecker.Binary64
/-!
# The shortest decimal of a number

The text of a number has the fewest digits that read back to it; of two such decimals the nearer one
is taken, and the upper one when both are equally near. Numbers from `0.0001` to below `10 ^ 16` are
written positionally and keep a `.0` when they are whole; others have one digit before the point and
an exponent.
-/

namespace AnnotationChecker.Binary64

/-- The numbers that round to one number, as multiples of a quarter of its last place: those from
`low` to `high`, ends included when `ends` holds. -/
structure Neighbourhood where
  low : Nat
  mid : Nat
  high : Nat
  ends : Bool

/-- What rounds to a number with mantissa `m`. Ties go to even mantissas, and the number below a power
of two is only half as far away as the one above. -/
def Neighbourhood.of (m : Nat) : Neighbourhood :=
  ⟨4 * m - if m = leastNormal then 1 else 2, 4 * m, 4 * m + 2, m % 2 = 0⟩

/-- Does the quotient `a / b` round to the number? -/
def Neighbourhood.has (n : Neighbourhood) (a b : Nat) : Bool :=
  if n.ends then n.low * b ≤ a && a ≤ n.high * b else n.low * b < a && a < n.high * b

/-- How many digits `m * 2 ^ q` has before its point, for positive `m`; it is negative by the zeros
after the point of a number below 0.1. -/
def magnitude (m : Nat) (q : Int) : Int :=
  digitCount (m * power 2 q * power 10 400 / power 2 (-q)) - 400

/-- The multiple of `10 ^ j` that reads back to `m * 2 ^ q`: one of the two neighbours of the number,
the nearer one when both do, and the upper one when they are equally near. -/
def onGrid? (m : Nat) (q j : Int) : Option Nat :=
  let a := power 2 (q - 2) * power 10 (-j)
  let b := power 2 (2 - q) * power 10 j
  let n := Neighbourhood.of m
  let d := n.mid * a / b
  if n.has (d * b) a && (2 * n.mid * a < (2 * d + 1) * b || !n.has ((d + 1) * b) a) then some d
  else if n.has ((d + 1) * b) a then some (d + 1)
  else none

/-- The digits of the shortest decimal of `m * 2 ^ q`, for positive `m`, and how many of them stand
before the point. Grids are tried from coarse to fine; 17 digits are enough for every number. -/
def shortest (m : Nat) (q : Int) : List Char × Int :=
  let k := magnitude m q
  let grids := (List.range 17).map fun (n : Nat) => k - 1 - n
  match grids.findSome? fun j => (onGrid? m q j).map (·, j) with
  | some (d, j) =>
    let digits := Nat.toDigits 10 d
    ((digits.reverse.dropWhile (· == '0')).reverse, digits.length + j)
  | none => ([], k)

/-- Writes digits with `point` of them before the point, and at least one on each side of it. -/
def positional (digits : List Char) (point : Int) : List Char :=
  if point ≤ 0 then ['0', '.'] ++ List.replicate (-point).toNat '0' ++ digits
  else if digits.length ≤ point then
    digits ++ List.replicate (point - digits.length).toNat '0' ++ ['.', '0']
  else digits.take point.toNat ++ '.' :: digits.drop point.toNat

/-- Writes digits with one of them before the point, and an exponent. -/
def scientific (digits : List Char) (point : Int) : List Char :=
  let fraction := digits.drop 1
  digits.take 1 ++ (if fraction.isEmpty then [] else '.' :: fraction) ++ 'e' :: (toString (point - 1)).toList

/-- The text of a number. -/
def text : Binary64 → String
  | .nan => "NaN"
  | .infinite s => if s then "-inf" else "inf"
  | .finite s m q =>
    let digits :=
      if m = 0 then ['0', '.', '0']
      else
        let (ds, point) := shortest m q
        if -3 ≤ point ∧ point ≤ 16 then positional ds point else scientific ds point
    String.ofList (if s then '-' :: digits else digits)

end AnnotationChecker.Binary64
