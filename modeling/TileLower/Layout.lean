import TileLower.Affine.Map
import TileLower.ValueType.Basic

/-!
Blocked layouts. Some axes of an array are cut into tiles: the tile becomes an inner axis at the end
of the shape, and the outer axes may be permuted. `packedShape` gives the blocked shape and
`indexMap` the flat position of a blocked one.
-/
namespace TileLower

structure Layout where
  inner : List Int64
  outer : List Int64
  tiles : List Int64
  deriving DecidableEq, Repr, Inhabited

namespace Layout

def ncnc (n c : Int64) : Layout := ⟨[0, 1], [], [n, c]⟩
def kcck (k c : Int64) : Layout := ⟨[0, 1], [1, 0], [k, c]⟩
def vnni (v : Int64) : Layout := ⟨[0], [], [v]⟩
def nchwc (c : Int64) : Layout := ⟨[1], [], [c]⟩
def nkpqk (k : Int64) : Layout := ⟨[3], [0, 3, 1, 2], [k]⟩
def kcrsck (c k : Int64) : Layout := ⟨[1, 0], [], [c, k]⟩
def rsckToKcrsck (c k : Int64) : Layout := ⟨[2, 3], [3, 2, 0, 1], [c, k]⟩

def named? (name : String) (tiles : List Int64) : Option Layout :=
  match name, tiles with
  | "NCnc", [n, c] => some (ncnc n c)
  | "KCck", [k, c] => some (kcck k c)
  | "VNNI", [v] => some (vnni v)
  | "NCHWc", [c] => some (nchwc c)
  | "NKPQk", [k] => some (nkpqk k)
  | "KCRSck", [c, k] => some (kcrsck c k)
  | "RSCKToKCRSck", [c, k] => some (rsckToKcrsck c k)
  | _, _ => none

def render (d : Layout) : String :=
  let inner := "\x7binner=" ++ Text.showInts d.inner
  let outer := if d.outer.isEmpty then "" else " outer=" ++ Text.showInts d.outer
  inner ++ outer ++ " tiles=" ++ Text.showInts d.tiles ++ "\x7d"

def refuse {α : Type} (d : Layout) (reason : String) : Outcome α :=
  Outcome.fail ("layout " ++ d.render ++ ": " ++ reason)

def validateInner (d : Layout) (rank : Int64) : List Int64 → List Int64 → Outcome Unit
  | _, [] => .ok ()
  | seen, pos :: rest =>
    if pos < 0 ∨ rank ≤ pos then
      d.refuse ("inner axis " ++ Text.showInt pos ++ " out of range for rank " ++ Text.showInt rank)
    else if seen.contains pos then
      d.refuse ("inner axis " ++ Text.showInt pos ++ " tiled more than once")
    else validateInner d rank (pos :: seen) rest

def validate (d : Layout) (rank : Int64) : Outcome Unit := do
  if d.inner.length ≠ d.tiles.length then
    d.refuse (toString d.inner.length ++ " inner axes for " ++ toString d.tiles.length ++ " tiles")
  d.validateInner rank [] d.inner
  if d.tiles.any (· ≤ 0) then d.refuse "tile sizes must be positive"
  if d.outer.isEmpty then .ok ()
  else if Int64.ofNat d.outer.length ≠ rank ∨ ¬ Permutation.isVector d.outer then
    d.refuse ("outer permutation is not a permutation of " ++ Text.showInt rank ++ " axes")
  else .ok ()

def dividesFrom (d : Layout) (shape : List Int64) : Nat → List Int64 → Outcome Bool
  | _, [] => .ok true
  | j, pos :: rest =>
    if Int64.ofNat shape.length ≤ pos then .ok false
    else do
      let ext ← entryAt shape pos
      if ext = ValueType.dynamicSize then .ok false
      else
        let tile ← Outcome.ofOption d.tiles[j]?
        if tile = 0 then Outcome.abort
        else if ext % tile ≠ 0 then .ok false
        else dividesFrom d shape (j + 1) rest

def divides (d : Layout) (shape : List Int64) : Outcome Bool := d.dividesFrom shape 0 d.inner

def innerIndex? (d : Layout) (axis : Nat) : Option Nat :=
  d.inner.findIdx? (· == Int64.ofNat axis)

def tileOf? (d : Layout) (axis : Nat) : Option Int64 :=
  (d.innerIndex? axis).bind fun j => d.tiles[j]?

def entriesAt {α : Type} (vec : List α) : List Int64 → Outcome (List α)
  | [] => .ok []
  | p :: rest => do
    let v ← entryAt vec p
    let vs ← entriesAt vec rest
    .ok (v :: vs)

def interchange {α : Type} (vec : List α) (perm : List Int64) : Outcome (List α) :=
  if perm.isEmpty then .ok vec else entriesAt vec perm

def outerExtent (d : Layout) (axis : Nat) (ext : Int64) : Int64 :=
  match d.tileOf? axis with
  | none => ext
  | some tile => if ext = ValueType.dynamicSize then ext else (ext + tile - 1) / tile

def outerExtents (d : Layout) (shape : List Int64) : List Int64 :=
  shape.mapIdx fun axis ext => d.outerExtent axis ext

def packedShape (d : Layout) (shape : List Int64) : Outcome (List Int64) := do
  d.validate (Int64.ofNat shape.length)
  let outer ← interchange (d.outerExtents shape) d.outer
  .ok (outer ++ d.tiles)

def packedType (d : Layout) (t : ValueType) : Outcome ValueType := do
  .ok (t.withDims (← d.packedShape t.dims))

def axisExpr (d : Layout) (rank : Nat) (outerPos : List Int64) (axis : Nat) : Affine.Expr :=
  let outer := Affine.Expr.dim (outerPos.getD axis 0)
  match d.innerIndex? axis with
  | none => outer
  | some j => (outer.mul (d.tiles.getD j 0)).add (.dim (Int64.ofNat rank + Int64.ofNat j))

def indexMap (d : Layout) (rank : Int64) : Outcome AffineMap := do
  d.validate rank
  let n ← listLength rank
  let outerPos ← if d.outer.isEmpty then .ok ((List.range n).map Int64.ofNat)
    else Permutation.inverseVector d.outer
  .ok ⟨rank + Int64.ofNat d.tiles.length, (List.range n).map (d.axisExpr n outerPos)⟩

def isIdentity (d : Layout) : Bool :=
  d.tiles.isEmpty && d.outer == (List.range d.outer.length).map Int64.ofNat

end Layout
end TileLower
