import TileLower.Lowering.Blocking

/-!
Propagation of packed layouts: an unpack moves behind the pad or the elementwise operation that reads
it, and a pack and an unpack that undo each other go away.
-/
namespace TileLower.Propagation

open Blocking (ask)

def unpackOf? (g : Graph) (v : Operand) : Outcome (Option OpId) := do
  match ← Graph.definingOp v with
  | some id => .ok (if Relayout.isUnpack (g.op id) then some id else none)
  | none => .ok none

def packOf? (g : Graph) (v : Operand) : Outcome (Option OpId) := do
  match ← Graph.definingOp v with
  | some id => .ok (if Relayout.isPack (g.op id) then some id else none)
  | none => .ok none

def blockedPadding (layout : Layout) (padding : Option (List Int64)) :
    Outcome (Option (List Int64)) := do
  let outer ← Layout.interchange (padding.getD []) layout.outer
  let all := outer ++ layout.tiles.map fun _ => (0 : Int64)
  .ok (if padding.isNone && all.isEmpty then none else some all)

def throughPad : Rule where
  name := "propagate-through-pad"
  root := Memory.padKind
  draft s := do
    let some unpack ← ask fun g => do unpackOf? g (← g.operandAt s.op 0)
      | s.decline "source is not produced by an unpack"
    let g ← Drafting.graph
    let op := g.op s.op
    let layout := Relayout.layoutOf (g.op unpack)
    let axes ← ask fun _ => Memory.paddedAxes op
    match axes.find? fun axis => layout.inner.contains (Int64.ofNat axis) with
    | some axis => s.decline ("cannot pad axis " ++ toString axis ++ ": axis is tiled by " ++
        layout.render)
    | none =>
      let low ← ask fun _ => blockedPadding layout (op.attrs.given? Memory.lowAttr)
      let high ← ask fun _ => blockedPadding layout (op.attrs.given? Memory.highAttr)
      let source ← ask fun g => g.operandAt unpack 0
      let value ← ask fun g => g.operandAt s.op 1
      let padded ← s.expect (Memory.pad source value low high)
      let result ← ask fun g => g.resultAt s.op 0
      let dest ← Memory.empty (g.typeOf result)
      let unpacked ← s.expect (Relayout.unpack padded dest layout (.ofOp (g.op unpack)))
      Draft.replace s.op [unpacked]

def foldWith (s : Site) (producer : Graph → Operand → Outcome (Option OpId)) (name : String) :
    Drafting Unit := do
  if ((← Drafting.graph).op s.op).results.isEmpty then s.decline "require tensor semantics"
  let some inner ← ask fun g => do producer g (← g.operandAt s.op 0)
    | s.decline ("source is not produced by " ++ name)
  let g ← Drafting.graph
  let here := Relayout.layoutOf (g.op s.op)
  let there := Relayout.layoutOf (g.op inner)
  if here ≠ there then
    s.decline ("layouts " ++ here.render ++ " and " ++ there.render ++ " differ")
  let source ← ask fun g => g.operandAt inner 0
  let t ← Drafting.typeOf source
  let want := g.typeOf (.result s.op 0)
  if t ≠ want then s.decline ("type " ++ t.render ++ " differs from " ++ want.render)
  Draft.replace s.op [source]

def foldPackOfUnpack : Rule where
  name := "fold-pack-of-unpack"
  root := Relayout.packKind
  draft s := foldWith s unpackOf? "an unpack"

def foldUnpackOfPack : Rule where
  name := "fold-unpack-of-pack"
  root := Relayout.unpackKind
  draft s := foldWith s packOf? "a pack"

structure LoopLayout where
  numLoops : Int64
  tiled : List Int64
  tiles : List Int64
  order : List Int64

namespace LoopLayout

def upTo (n : Int64) : List Int64 := (List.range n.toNatClampNeg).map Int64.ofNat

def ofOperand (numLoops rank : Int64) (d : Layout) : LoopLayout :=
  let first := numLoops - rank
  let axes := if d.outer.isEmpty then upTo rank else d.outer
  ⟨numLoops, d.inner.map (first + ·), d.tiles, upTo first ++ axes.map (first + ·)⟩

def tiledFrom (l : LoopLayout) (first : Int64) : List (Nat × Int64 × Int64) :=
  (l.tiled.zip l.tiles).mapIdx (fun j e => (j, e)) |>.filter fun e => first ≤ e.2.1

def operandLayout (l : LoopLayout) (rank : Int64) : Layout :=
  let first := l.numLoops - rank
  let tiled := l.tiledFrom first
  let outer := (l.order.filter (first ≤ ·)).map (· - first)
  let outer := if outer == upTo (Int64.ofNat outer.length) then [] else outer
  ⟨tiled.map fun e => e.2.1 - first, outer, tiled.map fun e => e.2.2⟩

def indexingMap (l : LoopLayout) (rank : Int64) : AffineMap :=
  let first := l.numLoops - rank
  let numDims := l.numLoops + Int64.ofNat l.tiles.length
  if rank = 0 then ⟨numDims, []⟩
  else
    ⟨numDims, (l.order.filter (first ≤ ·)).map .dim ++
      (l.tiledFrom first).map fun e => .dim (l.numLoops + Int64.ofNat e.1)⟩

end LoopLayout

def checkMaps (s : Site) : Nat → List AffineMap → Drafting Unit
  | _, [] => pure ()
  | i, m :: ms => do
    match m.results.find? fun e => !(e matches .dim _) with
    | some e => s.decline ("non-dim map result " ++ e.render ++ " in map " ++ toString i)
    | none => pure ()
    if ¬ (← ask fun _ => m.isMinorIdentity) then
      s.decline ("map " ++ toString i ++ " " ++ m.shownBy "s" ++ " is not a minor identity")
    checkMaps s (i + 1) ms

def checkElementwise (s : Site) : Drafting Unit := do
  let op := (← Drafting.graph).op s.op
  match (Structured.iteratorTypes op).find? (· ≠ .parallel) with
  | some it => s.decline ("not elementwise: found a " ++ it.name ++ " loop")
  | none => checkMaps s 0 (Structured.indexingMaps op)

def unpackedOperand (s : Site) (found : Option (Nat × OpId)) :
    Nat → List Operand → Drafting (Nat × OpId)
  | _, [] =>
    match found with
    | some e => pure e
    | none => s.decline "no operand is produced by an unpack"
  | i, v :: vs => do
    match ← ask fun g => unpackOf? g v with
    | none => unpackedOperand s found (i + 1) vs
    | some id =>
      if found.isSome then s.decline "several operands are produced by an unpack"
      else unpackedOperand s (some (i, id)) (i + 1) vs

structure Tiled where
  index : Nat
  value : Operand
  type : ValueType
  layout : Layout

def tileOperands (s : Site) (l : LoopLayout) : Nat → List Operand → Drafting (List Tiled)
  | _, [] => pure []
  | i, v :: vs => do
    let t ← Drafting.typeOf v
    let rank := Int64.ofNat t.rank
    let d := l.operandLayout rank
    s.attempt ("invalid permutation for operand " ++ toString i ++ ": ") (d.validate rank)
    if ¬ (← ask fun _ => d.divides t.dims) then
      s.decline ("layout " ++ d.render ++ " does not divide operand " ++ toString i ++ " of type " ++
        t.render)
    let rest ← tileOperands s l (i + 1) vs
    pure (⟨i, v, t, d⟩ :: rest)

def blockOperands (s : Site) (index : Nat) (unpack : OpId) : List Tiled → Drafting (List Operand)
  | [] => pure []
  | t :: ts => do
    let v ←
      if t.index = index then ask fun g => g.operandAt unpack 0
      else if t.layout.isIdentity then pure t.value
      else s.expect (Relayout.pack t.value t.layout .dropped)
    let vs ← blockOperands s index unpack ts
    pure (v :: vs)

def unpackResults (s : Site) (new : OpId) (index : Nat) (unpack : OpId) (outs : List Tiled) :
    List Nat → Drafting (List Operand)
  | [] => pure []
  | r :: rs => do
    let t : Tiled ← Drafting.require outs[r]?
    let result ← ask fun g => g.resultAt new r
    let v ←
      if t.layout.isIdentity then pure (some result)
      else
        let dest ← if t.index = index then ask fun g => g.operandAt unpack 1 else pure t.value
        s.expect (Relayout.unpack result dest t.layout .dropped)
    let vs ← unpackResults s new index unpack outs rs
    pure (v :: vs)

/-- A generic operation with an unpacked operand works on blocked operands and is unpacked itself. -/
def throughElementwise : Rule where
  name := "propagate-through-elementwise"
  root := Structured.genericKind
  draft s := do
    checkElementwise s
    let op := (← Drafting.graph).op s.op
    let (index, unpack) ← unpackedOperand s none 0 op.operands
    if ¬ (← ask fun g => Structured.hasTensorSemantics g op) then
      s.decline "require tensor semantics"
    let g ← Drafting.graph
    let layout := Relayout.layoutOf (g.op unpack)
    let rank := Int64.ofNat (← Drafting.typeOf (← Blocking.nth op.operands index)).rank
    s.attempt "invalid permutation: " (layout.validate rank)
    let numLoops := Int64.ofNat (Structured.numLoops op)
    let loops := LoopLayout.ofOperand numLoops rank layout
    let tiled ← tileOperands s loops 0 op.operands
    let blocked ← blockOperands s index unpack tiled
    let maps := tiled.map fun t => loops.indexingMap (Int64.ofNat t.type.rank)
    let iterators := List.replicate (Structured.numLoops op + loops.tiles.length) Iterator.parallel
    let n ← ask fun _ => Structured.inputCount op
    let new ← Structured.makeGeneric (blocked.take n) (blocked.drop n) maps iterators
      (Structured.libraryCall op) none
    Drafting.list new
    Draft.moveRegion s.op new
    let results ← unpackResults s new index unpack (tiled.drop n) (List.range op.results.length)
    Draft.replace s.op results

end TileLower.Propagation
