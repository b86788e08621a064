/-!
Elements of arrays. Evaluation works over any scalars with these operations; programs run on 64-bit
floating point numbers.
-/
namespace TileLower

class Scalar (α : Type) where
  zero : α
  add : α → α → α
  mul : α → α → α
  sub : α → α → α
  max : α → α → α
  ofFloat : Float → α

namespace Scalar

def isPositiveInfinity (x : Float) : Bool := x.isInf && x > 0

def maxFloat (x y : Float) : Float :=
  if isPositiveInfinity x || isPositiveInfinity y then 1.0 / 0.0
  else if x.isNaN || y.isNaN then 0.0 / 0.0
  else if x == 0 && x == y then
    -- Two zeros: the first unless it is the negative one.
    if x.toBits == 0 then x else y
  else if x > y then x else y

instance : Scalar Float where
  zero := 0
  add x y := x + y
  mul x y := x * y
  sub x y := x - y
  max := maxFloat
  ofFloat x := x

end Scalar
end TileLower
