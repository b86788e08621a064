import Std.Data.HashMap
import TileLower.Rule.Basic

/-!
Building with names. A workbench holds a draft and names for values and operations. What is built
stays, and so do the names, also if a later step fails.
-/
namespace TileLower

structure Names where
  values : Std.HashMap String Operand
  ops : Std.HashMap String OpId

namespace Names

def empty : Names := ⟨{}, {}⟩

def bindValue (n : Names) (name : String) (v : Operand) : Names :=
  { n with values := n.values.insert name v }

def bindOp (n : Names) (name : String) (id : OpId) : Names :=
  { n with ops := n.ops.insert name id }

def bindNumbered (n : Names) (lead : String) (vs : List Operand) : Names :=
  vs.zipIdx.foldl (fun n p => n.bindValue (lead ++ toString p.2) p.1) n

end Names

structure Workbench where
  names : Names
  draft : Draft

abbrev Building := EStateM Fault Workbench

namespace Building

variable {α : Type}

def lift : Outcome α → Building α
  | .ok a => pure a
  | .error f => throw f

def abort : Building α := throw .abort

def draft (m : Drafting α) : Building α := fun w =>
  match m w.draft with
  | .ok a d => .ok a { w with draft := d }
  | .error f d => .error f { w with draft := d }

def graph : Building Graph := draft Drafting.graph

def names : Building Names := do return (← get).names

def value (name : String) : Building Operand := do
  lift (Outcome.ofOption (← names).values[name]?)

def isShown (name : String) : Bool := name != "" && !name.startsWith "_"

def nameValue (name : String) (v : Value) : Building Unit := modify fun w =>
  { names := w.names.bindValue name v
    draft :=
      if isShown name then { w.draft with graph := w.draft.graph.setName v name } else w.draft }

def nameValues : List String → List Value → Building Unit
  | name :: names, v :: vs => do
    nameValue name v
    nameValues names vs
  | _, _ => pure ()

def nameOp (name : String) (id : OpId) : Building Unit :=
  modify fun w => { w with names := w.names.bindOp name id }

def inBlock (b : BlockId) (m : Building α) : Building α := fun w =>
  let close (inner : Workbench) : Workbench :=
    { inner with draft := Drafting.close b w.draft inner.draft }
  match m { w with draft := { w.draft with created := [] } } with
  | .ok a inner => .ok a (close inner)
  | .error f inner => .error f (close inner)

end Building

structure Workspace where
  graph : Graph
  names : Names
  deepest : Nat

namespace Workspace

def ofGraph (g : Graph) (names : Names) : Workspace := ⟨g, names, 0⟩

def bench (w : Workspace) : Workbench := ⟨w.names, Draft.ofGraph w.graph⟩

def build {α : Type} (place : Graph → List OpId → Graph) (m : Building α) :
    EStateM Fault Workspace α := fun w =>
  let close (b : Workbench) : Workspace :=
    { w with graph := place b.draft.graph b.draft.created, names := b.names }
  match m w.bench with
  | .ok a b => .ok a (close b)
  | .error f b => .error f (close b)

end Workspace
end TileLower
