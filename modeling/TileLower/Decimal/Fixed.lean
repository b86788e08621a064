import TileLower.Decimal.Binary

/-!
Decimals with a fixed number of places. The exact value is rounded to the nearest grid point and a
tie goes to the even one.
-/
namespace TileLower.Decimal

def roundDiv (num den : Nat) : Nat :=
  let c := num / den
  match compare (2 * (num % den)) den with
  | .lt => c
  | .gt => c + 1
  | .eq => if c % 2 = 0 then c else c + 1

def fixed (places : Nat) (negative : Bool) (m : Nat) (q : Int) : String :=
  let (num, den) := fraction m q
  let ds := Nat.toDigits 10 (roundDiv (num * Nat.pow 10 places) den)
  let ds := List.replicate (places + 1 - ds.length) '0' ++ ds
  let split := ds.length - places
  let body := if places = 0 then ds else ds.take split ++ '.' :: ds.drop split
  String.ofList (if negative then '-' :: body else body)

end TileLower.Decimal
