import TileLower.Analysis.Body
import TileLower.Ops.Relayout
import TileLower.Rule.Basic

/-!
Blocking: matrix multiplications and convolutions on tensors become generic operations on packed
operands, followed by an unpack. The loop body moves unchanged.
-/
namespace TileLower.Blocking

def checkTiles (s : Site) (tiles : List Int64) (n : Nat) : Drafting Unit := do
  if tiles.length ≠ n then
    s.decline ("require " ++ toString n ++ " tile factors but got " ++ toString tiles.length)
  if tiles.any (· ≤ 0) then
    s.decline ("tile factors " ++ Text.showInts tiles ++ " must be positive")

def ask {α : Type} (f : Graph → Outcome α) : Drafting α := do
  Drafting.lift (f (← Drafting.graph))

def checkOperands (s : Site) : Drafting Unit := do
  if ¬ (← ask fun g => Structured.hasStaticShape g (g.op s.op)) then
    s.decline "require static shape"
  if ¬ (← ask fun g => Structured.hasTensorSemantics g (g.op s.op)) then
    s.decline "require tensor semantics"

structure Packing where
  value : Operand
  layout : Layout

def checkDivides (s : Site) : List Packing → Drafting Unit
  | [] => pure ()
  | p :: rest => do
    let t ← Drafting.typeOf p.value
    s.attempt "" (p.layout.validate (Int64.ofNat t.rank))
    if ¬ (← ask fun _ => p.layout.divides t.dims) then
      s.decline ("tiles " ++ Text.showInts p.layout.tiles ++ " do not divide " ++ t.render)
    checkDivides s rest

def packAll (s : Site) : List Packing → Drafting (List Operand)
  | [] => pure []
  | p :: rest => do
    let v ← s.expect (Relayout.pack p.value p.layout .kept)
    let vs ← packAll s rest
    pure (v :: vs)

def replaceWithBlocked (s : Site) (ins : List Operand) (out : Operand) (maps : List AffineMap)
    (iterators : List Iterator) (flat : Packing) : Drafting Unit := do
  let generic ← Structured.makeGeneric ins [out] maps iterators "" none
  Drafting.list generic
  Draft.moveRegion s.op generic
  let result ← ask fun g => g.resultAt generic 0
  let unpacked ← s.expect (Relayout.unpack result flat.value flat.layout .kept)
  Draft.replace s.op [unpacked]

def nth (vs : List Operand) (i : Nat) : Drafting Operand := Drafting.require vs[i]?

def operandsAt (s : Site) : Drafting (List Operand × List Operand) := ask fun g => do
  let ins ← Structured.inputs (g.op s.op)
  let outs ← Structured.outputs (g.op s.op)
  .ok (ins, outs)

def blockWith (s : Site) (a b c : Layout) (maps : List AffineMap) (iterators : List Iterator) :
    Drafting Unit := do
  let (ins, outs) ← operandsAt s
  let a := Packing.mk (← nth ins 0) a
  let b := Packing.mk (← nth ins 1) b
  let c := Packing.mk (← nth outs 0) c
  checkDivides s [a, b, c]
  match ← packAll s [a, b, c] with
  | [pa, pb, pc] => replaceWithBlocked s [pa, pb] pc maps iterators c
  | _ => Drafting.abort

def matmulMaps : List AffineMap :=
  [⟨6, [.dim 0, .dim 2, .dim 3, .dim 5]⟩, ⟨6, [.dim 1, .dim 2, .dim 5, .dim 4]⟩,
   ⟨6, [.dim 0, .dim 1, .dim 3, .dim 4]⟩]

def matmulIterators : List Iterator :=
  [.parallel, .parallel, .reduction, .parallel, .parallel, .reduction]

def matmul (tiles : List Int64) : Rule where
  name := "matmul-blocking"
  root := Structured.matmulKind
  draft s := do
    checkTiles s tiles 3
    checkOperands s
    match tiles with
    | [ti, tj, tk] =>
      blockWith s (.ncnc ti tk) (.kcck tk tj) (.ncnc ti tj) matmulMaps matmulIterators
    | _ => Drafting.abort

def convIterators : List Iterator :=
  List.replicate 5 .parallel ++ List.replicate 4 .reduction

def convMaps (sh sw : Int64) : List AffineMap :=
  let window (p r : Int64) (stride : Int64) := ((Affine.Expr.dim p).mul stride).add (.dim r)
  [⟨9, [.dim 0, .dim 5, window 2 6 sh, window 3 7 sw, .dim 8]⟩,
   ⟨9, [.dim 1, .dim 5, .dim 6, .dim 7, .dim 8, .dim 4]⟩,
   ⟨9, [.dim 0, .dim 1, .dim 2, .dim 3, .dim 4]⟩]

def blockConv (s : Site) (tiles : List Int64) (image : Int64 → Layout)
    (filter : Int64 → Int64 → Layout) (output : Int64 → Layout) : Drafting Unit := do
  checkTiles s tiles 2
  checkOperands s
  let op := (← Drafting.graph).op s.op
  let dilations := Structured.dilations op
  if dilations.any (· ≠ 1) then
    s.decline ("require unit dilations but got " ++ Text.showInts dilations)
  let strides := Structured.strides op
  match strides, tiles with
  | [sh, sw], [tc, tk] =>
    blockWith s (image tc) (filter tc tk) (output tk) (convMaps sh sw) convIterators
  | _, _ => s.decline ("require 2 strides but got " ++ Text.showInts strides)

def convNchwFchw (tiles : List Int64) : Rule where
  name := "conv-nchw-fchw-blocking"
  root := Structured.convNchwFchwKind
  draft s := blockConv s tiles .nchwc .kcrsck .nchwc

def convNhwcHwcf (tiles : List Int64) : Rule where
  name := "conv-nhwc-hwcf-blocking"
  root := Structured.convNhwcHwcfKind
  draft s := blockConv s tiles .nkpqk .rsckToKcrsck .nkpqk

def checkHalf (s : Site) : List Operand → Drafting Unit
  | [] => pure ()
  | v :: vs => do
    let t ← Drafting.typeOf v
    if t.element ≠ .bf16 then s.decline ("require bf16 operands but got " ++ t.render)
    checkHalf s vs

def vnniMatmul (tiles : List Int64) : Rule where
  name := "vnni-matmul-packing"
  root := Structured.matmulKind
  draft s := do
    checkTiles s tiles 1
    checkOperands s
    let (ins, outs) ← operandsAt s
    checkHalf s ((← Drafting.graph).op s.op).operands
    let b := Packing.mk (← nth ins 1) (.vnni (tiles.headD 0))
    checkDivides s [b]
    match ← packAll s [b] with
    | [packed] =>
      let new ← Primitive.make Primitive.vnniMatmulKind [← nth ins 0, packed] (← nth outs 0)
      Draft.replaceWithNew s.op new
    | _ => Drafting.abort

def checkPlanes (s : Site) : List Operand → Drafting Unit
  | [] => pure ()
  | v :: vs => do
    let t ← Drafting.typeOf v
    if t.rank ≠ 2 then s.decline ("require 2D operands but got " ++ t.render)
    checkPlanes s vs

def checkMatmulBody (s : Site) : Drafting Unit := do
  if ¬ (← ask fun g => Body.hasMatmulBody g (g.op s.op)) then
    s.decline "body does not multiply and accumulate"
  if ¬ (← ask fun g => Body.hasMatmulMaps (g.op s.op)) then
    s.decline "indexing maps are not the maps of a matrix multiplication"

def checkMark (s : Site) : Drafting Unit := do
  if ¬ Body.isMarkedWith ((← Drafting.graph).op s.op) Primitive.matmulKind then
    s.decline ("not marked with " ++ Primitive.matmulKind)

def matmulOperands (s : Site) : Drafting (Operand × Operand × Operand) := do
  match ← operandsAt s with
  | ([a, b], [c]) => pure (a, b, c)
  | _ => s.decline "require 2 inputs and 1 output"

def degeneralizeMatmul : Rule where
  name := "degeneralize-matmul"
  root := Structured.genericKind
  draft s := do
    if ¬ (← ask fun g => Structured.hasTensorSemantics g (g.op s.op)) then
      s.decline "require tensor semantics"
    checkMark s
    checkMatmulBody s
    let (a, b, c) ← matmulOperands s
    checkPlanes s ((← Drafting.graph).op s.op).operands
    let new ← Structured.matmul a b c
    Draft.replace s.op (((← Drafting.graph).resultsOf new).map some)

end TileLower.Blocking
