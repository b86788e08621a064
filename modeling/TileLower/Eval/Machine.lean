import TileLower.Eval.NdArray
import TileLower.Graph.Draft
import TileLower.Graph.Printer

/-!
The state of an evaluation: arrays in memory, and for each value computed so far the array that holds
it. Two values may share an array, and a buffer is written where it is.
-/
namespace TileLower.Eval

abbrev Ref := Nat

structure Machine (α : Type) where
  memory : Array (NdArray α)
  env : Value → Option Ref

/-- Steps on a machine; a fault leaves the machine as it was when it arose. -/
abbrev Exec (α : Type) := EStateM Fault (Machine α)

variable {α : Type}

def lift {β : Type} : Outcome β → Exec α β
  | .ok b => pure b
  | .error f => throw f

def fail {β : Type} (message : String) : Exec α β := throw (.error (.text message))

def abort {β : Type} : Exec α β := throw .abort

def array (r : Ref) : Exec α (NdArray α) := do
  return (← get).memory.getD r default

def allocate (a : NdArray α) : Exec α Ref := do
  let m ← get
  let r := m.memory.size
  set { m with memory := m.memory.push a }
  return r

def bind (v : Value) (r : Ref) : Exec α Unit :=
  modify fun m => { m with env := fun w => if w = v then some r else m.env w }

def bindNew (v : Value) (a : NdArray α) : Exec α Unit := do
  bind v (← allocate a)

def overwrite (r : Ref) (data : Array α) : Exec α Unit :=
  modify fun m => { m with memory := m.memory.modify r fun a => { a with data } }

def store (r : Ref) (idx : List Int64) (v : α) : Exec α Unit := do
  let a ← array r
  let i ← lift (do a.place (← a.offset idx))
  modify fun m => { m with memory := m.memory.modify r fun a =>
    { a with data := a.data.setIfInBounds i v } }

def load (r : Ref) (idx : List Int64) : Exec α α := do
  lift ((← array r).get idx)

def describe (g : Graph) : Operand → String
  | some v => g.printValue v
  | none => "<nil>"

def value (g : Graph) (v : Operand) : Exec α Ref := do
  let m ← get
  match v.bind m.env with
  | some r => return r
  | none => fail ("value " ++ describe g v ++ " has not been computed")

def values (g : Graph) : List Operand → Exec α (List Ref)
  | [] => return []
  | v :: vs => do
    let r ← value g v
    let rs ← values g vs
    return r :: rs

def output (g : Graph) (id : OpId) (init : Operand) (result : Int64) : Exec α Ref := do
  let r ← value g init
  match init with
  | none => abort
  | some v =>
    if (g.typeOf v).isTensor then
      let copy ← allocate (← array r)
      if result < Int64.ofNat (g.op id).results.length then
        if result < 0 then abort
        bind (.result id result.toNatClampNeg) copy
      return copy
    else return r

end TileLower.Eval
