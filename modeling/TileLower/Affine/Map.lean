import TileLower.Affine.Expr

/-!
Affine maps from loop indices to array indices, and permutation vectors. A map with a negative
number of dimensions can be made but not printed.
-/
namespace TileLower

structure AffineMap where
  numDims : Int64
  results : List Affine.Expr
  deriving DecidableEq, Repr, Inhabited

namespace AffineMap

open TileLower.Affine (Expr)

def numResults (m : AffineMap) : Nat := m.results.length

def minorIdentity (numDims numResults : Int64) : Outcome AffineMap := do
  let n ← listLength numResults
  .ok ⟨numDims, (List.range n).map fun i => .dim (numDims - numResults + Int64.ofNat i)⟩

def identity (n : Int64) : Outcome AffineMap := minorIdentity n n

def identityOf (n : Nat) : AffineMap :=
  ⟨Int64.ofNat n, (List.range n).map fun i => .dim (Int64.ofNat i)⟩

def minorOf (loops rank : Nat) : AffineMap :=
  ⟨Int64.ofNat loops, (List.range rank).map fun i =>
    .dim (Int64.ofNat loops - Int64.ofNat rank + Int64.ofNat i)⟩

def permutation (perm : List Int64) : AffineMap := ⟨Int64.ofNat perm.length, perm.map .dim⟩

def dimNames (n : Nat) : String :=
  ", ".intercalate ((List.range n).map fun i => "d" ++ toString i)

def render (m : AffineMap) : Outcome String := do
  let n ← listLength m.numDims
  .ok ("(" ++ dimNames n ++ ") -> (" ++ ", ".intercalate (m.results.map Expr.render) ++ ")")

def shownBy (letter : String) (m : AffineMap) : String :=
  match m.render with
  | .ok s => s
  | .error _ =>
    "%!" ++ letter ++ "(PANIC=String method: runtime error: makeslice: len out of range)"

def dimPosition (m : AffineMap) (i : Int64) : Outcome (Option Int64) := do
  match ← entryAt m.results i with
  | .dim pos => .ok (some pos)
  | _ => .ok none

def distinctDims (n : Int64) : List Int64 → List Expr → Outcome Bool
  | _, [] => .ok true
  | seen, .dim pos :: rest =>
    if n ≤ pos then .ok false
    else if pos < 0 then Outcome.abort
    else if seen.contains pos then .ok false
    else distinctDims n (pos :: seen) rest
  | _, _ :: _ => .ok false

def isProjectedPermutation (m : AffineMap) : Outcome Bool := do
  let _ ← listLength m.numDims
  distinctDims m.numDims [] m.results

def isPermutation (m : AffineMap) : Outcome Bool :=
  if Int64.ofNat m.numResults = m.numDims then m.isProjectedPermutation else .ok false

def equal (m o : AffineMap) : Outcome Bool := do
  let a ← m.render
  let b ← o.render
  .ok (a == b)

def isMinorIdentity (m : AffineMap) : Outcome Bool :=
  if m.numDims < Int64.ofNat m.numResults then .ok false
  else do m.equal (← minorIdentity m.numDims (Int64.ofNat m.numResults))

def isIdentity (m : AffineMap) : Outcome Bool :=
  if Int64.ofNat m.numResults = m.numDims then m.isMinorIdentity else .ok false

def substituteAll (args : List Expr) : List Expr → Outcome (List Expr)
  | [] => .ok []
  | e :: rest => do
    let e ← e.substitute args
    let rest ← substituteAll args rest
    .ok (e :: rest)

def compose (m other : AffineMap) : Outcome AffineMap :=
  if Int64.ofNat other.numResults = m.numDims then do
    .ok ⟨other.numDims, ← substituteAll other.results m.results⟩
  else Outcome.fail ("cannot compose " ++ m.shownBy "s" ++ " with " ++ other.shownBy "s" ++ ": " ++
    toString other.numResults ++ " results for " ++ Text.showInt m.numDims ++ " dimensions")

def positionOf (m : AffineMap) (pos : Int64) : Int64 :=
  Int64.ofNat (m.results.findIdx fun e => e == .dim pos)

def inverse (m : AffineMap) : Outcome AffineMap := do
  if ← m.isPermutation then
    .ok ⟨m.numDims, (List.range m.numDims.toNatClampNeg).map fun pos =>
      .dim (m.positionOf (Int64.ofNat pos))⟩
  else Outcome.fail (m.shownBy "s" ++ " is not a permutation")

def evalAll (indices : List Int64) : List Expr → Outcome (List Int64)
  | [] => .ok []
  | e :: rest => do
    let v ← e.eval indices
    let vs ← evalAll indices rest
    .ok (v :: vs)

def eval (m : AffineMap) (indices : List Int64) : Outcome (List Int64) := evalAll indices m.results

end AffineMap

namespace Permutation

def isVector (perm : List Int64) : Bool :=
  perm.all (fun p => 0 ≤ p && p < Int64.ofNat perm.length) && perm.Nodup

def inverseStep (inv : List Int64) : Nat → List Int64 → Outcome (List Int64)
  | _, [] => .ok inv
  | i, p :: rest => do
    let _ ← entryAt inv p
    inverseStep (inv.set p.toNatClampNeg (Int64.ofNat i)) (i + 1) rest

def inverseVector (perm : List Int64) : Outcome (List Int64) :=
  inverseStep (List.replicate perm.length 0) 0 perm

end Permutation
end TileLower
