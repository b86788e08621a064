import TileLower.Diagnostic
import TileLower.Text.Numeral

/-!
Affine expressions over loop dimensions, in wrapping 64-bit arithmetic. `add` and `mul` fold
constants; the bare constructors do not.
-/
namespace TileLower.Affine

inductive Expr where
  | dim (pos : Int64)
  | const (value : Int64)
  | sum (x y : Expr)
  | scaled (x : Expr) (factor : Int64)
  deriving DecidableEq, Repr, Inhabited

namespace Expr

def add (x y : Expr) : Expr :=
  match x, y with
  | .const a, .const b => .const (a + b)
  | .const a, y => if a = 0 then y else .sum (.const a) y
  | x, .const b => if b = 0 then x else .sum x (.const b)
  | x, y => .sum x y

def mul (x : Expr) (c : Int64) : Expr :=
  if c = 1 then x
  else if c = 0 then .const 0
  else match x with
    | .const a => .const (a * c)
    | x => .scaled x c

def eval (dims : List Int64) : Expr → Outcome Int64
  | .dim pos => entryAt dims pos
  | .const v => .ok v
  | .sum x y => do return (← x.eval dims) + (← y.eval dims)
  | .scaled x c => do return (← x.eval dims) * c

def substitute (args : List Expr) : Expr → Outcome Expr
  | .dim pos => entryAt args pos
  | .const v => .ok (.const v)
  | .sum x y => do return add (← x.substitute args) (← y.substitute args)
  | .scaled x c => do return mul (← x.substitute args) c

def isSum : Expr → Bool
  | .sum .. => true
  | _ => false

def render : Expr → String
  | .dim pos => "d" ++ Text.showInt pos
  | .const v => Text.showInt v
  | .sum x y => x.render ++ " + " ++ y.render
  | .scaled x c =>
    (if x.isSum then "(" ++ x.render ++ ")" else x.render) ++ " * " ++ Text.showInt c

end Expr
end TileLower.Affine
