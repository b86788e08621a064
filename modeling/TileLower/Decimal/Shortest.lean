import TileLower.Decimal.Binary

/-!
The fewest decimal digits that read back as the same 64-bit number. For one digit, then two, and so
on, the two neighbours of the number on that decimal grid are tested against the interval of reals
that round to it; of two hits the nearer is taken.
-/
namespace TileLower.Decimal

structure Digits where
  digits : Nat
  scale : Int
  deriving DecidableEq, Repr

def wholeExponent (num den : Nat) : Nat := (Nat.toDigits 10 (num / den)).length - 1

def fractionExponent (num den : Nat) : Nat → Nat → Nat
  | 0, j => j
  | fuel + 1, j => if den ≤ num * Nat.pow 10 j then j else fractionExponent num den fuel (j + 1)

def leadingExponent (num den : Nat) : Int :=
  if den ≤ num then wholeExponent num den else -(fractionExponent num den 400 1 : Int)

def compareGrid (a b c : Nat) (k : Int) : Ordering :=
  if 0 ≤ k then compare a (c * Nat.pow 10 k.toNat * b)
  else compare (a * Nat.pow 10 (-k).toNat) (c * b)

/-- The interval of reals that round to `m · 2 ^ q`, in quarters of a unit of the last place. -/
structure Interval where
  low : Nat
  value : Nat
  high : Nat
  scale : Int
  closed : Bool

def Interval.around (m : Nat) (q : Int) : Interval where
  low := if m = leadingBit ∧ -1074 < q then 4 * m - 1 else 4 * m - 2
  value := 4 * m
  high := 4 * m + 2
  scale := q - 2
  closed := m % 2 = 0

def Interval.holds (i : Interval) (c : Nat) (k : Int) : Bool :=
  let (low, den) := fraction i.low i.scale
  let (high, _) := fraction i.high i.scale
  match compareGrid low den c k, compareGrid high den c k with
  | .lt, .gt => true
  | .eq, _ => i.closed
  | _, .eq => i.closed
  | _, _ => false

def nearer (num den c : Nat) (k : Int) : Nat :=
  let (a, b) :=
    if 0 ≤ k then (2 * num, den * Nat.pow 10 k.toNat) else (2 * num * Nat.pow 10 (-k).toNat, den)
  match compare a ((2 * c + 1) * b) with
  | .lt => c
  | .gt => c + 1
  | .eq => if c % 2 = 0 then c else c + 1

def gridFloor (num den : Nat) (k : Int) : Nat :=
  if 0 ≤ k then num / (den * Nat.pow 10 k.toNat) else num * Nat.pow 10 (-k).toNat / den

def searchGrid (i : Interval) (num den : Nat) (lead : Int) : Nat → Nat → Nat × Int
  | 0, n => (gridFloor num den (lead - n), lead - n)
  | fuel + 1, n =>
    let k := lead - n
    let c := gridFloor num den k
    match i.holds c k, i.holds (c + 1) k with
    | true, true => (nearer num den c k, k)
    | true, false => (c, k)
    | false, true => (c + 1, k)
    | false, false => searchGrid i num den lead fuel (n + 1)

def dropZeros : Nat → Nat → Int → Digits
  | 0, d, k => ⟨d, k⟩
  | fuel + 1, d, k => if d % 10 = 0 then dropZeros fuel (d / 10) (k + 1) else ⟨d, k⟩

def shortest (m : Nat) (q : Int) : Digits :=
  let (num, den) := fraction m q
  let (c, k) := searchGrid (.around m q) num den (leadingExponent num den) 17 0
  dropZeros 400 c k

structure Style where
  least : Int
  limit : Int

def positional (ds : List Char) (point : Int) : List Char :=
  if point ≤ 0 then '0' :: '.' :: (List.replicate (-point).toNat '0' ++ ds)
  else if ds.length ≤ point.toNat then ds ++ List.replicate (point.toNat - ds.length) '0'
  else ds.take point.toNat ++ '.' :: ds.drop point.toNat

def scientific (ds : List Char) (exponent : Int) : List Char :=
  let e := Nat.toDigits 10 exponent.natAbs
  let e := if e.length < 2 then '0' :: e else e
  let tail := 'e' :: (if exponent < 0 then '-' else '+') :: e
  match ds with
  | [] => tail
  | [d] => d :: tail
  | d :: rest => d :: '.' :: (rest ++ tail)

def render (style : Style) (negative : Bool) (m : Nat) (q : Int) : String :=
  let body :=
    if m = 0 then ['0']
    else
      let d := shortest m q
      let ds := Nat.toDigits 10 d.digits
      let exponent := d.scale + ds.length - 1
      if style.least ≤ exponent ∧ exponent < style.limit then positional ds (exponent + 1)
      else scientific ds exponent
  String.ofList (if negative then '-' :: body else body)

end TileLower.Decimal
