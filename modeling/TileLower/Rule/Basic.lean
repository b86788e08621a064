import TileLower.Graph.Draft

/-!
Rules. A rule looks at one operation and drafts changes, or declines with a reason. Drafted changes
take place together, when the draft is committed.
-/
namespace TileLower

structure Site where
  rule : String
  op : OpId
  deriving Repr, DecidableEq

structure Rule where
  name : String
  root : String
  draft : Site → Drafting Unit

namespace Site

variable {α : Type}

def decline (s : Site) (reason : String) : Drafting α := do
  throw (.error (.declined s.rule ((← Drafting.graph).op s.op).kind reason))

def expect (s : Site) (m : Drafting α) : Drafting α := fun d =>
  match m d with
  | .error (.error cause) d =>
    .error (.error (.internal (.located (d.graph.location (some s.op)) cause))) d
  | r => r

def attempt (s : Site) (lead : String) (m : Outcome α) : Drafting α :=
  match m with
  | .ok a => pure a
  | .error .abort => Drafting.abort
  | .error (.error cause) => s.decline (lead ++ cause.message)

end Site

namespace Draft

def internalAt {α : Type} (g : Graph) (id : OpId) (message : String) : Outcome α :=
  Outcome.raise (.internal (.located (g.location (some id)) (.text message)))

def checkReplacement (g : Graph) (id : OpId) : Nat → List Slot → List Operand → Outcome Unit
  | i, s :: ss, v :: vs =>
    match v with
    | none => internalAt g id ("cannot replace result " ++ toString i ++ " with a nil value")
    | some v =>
      if g.typeOf v = s.type then checkReplacement g id (i + 1) ss vs
      else internalAt g id ("cannot replace result " ++ toString i ++ " of type " ++ s.type.render ++
        " with a value of type " ++ (g.typeOf v).render)
  | _, _, _ => .ok ()

def canReplace (g : Graph) (id : OpId) (vals : List Operand) : Outcome Unit := do
  let results := (g.op id).results
  if vals.length ≠ results.length then
    internalAt g id ("cannot replace " ++ toString results.length ++ " results with " ++
      toString vals.length ++ " values")
  checkReplacement g id 0 results vals

def replace (id : OpId) (vals : List Operand) : Drafting Unit := do
  Drafting.lift (canReplace (← Drafting.graph) id vals)
  modify fun d => { d with replacements := d.replacements ++ [(id, vals)] }

def replaceWithNew (id new : OpId) : Drafting Unit := do
  Drafting.list new
  replace id (((← Drafting.graph).resultsOf new).map some)

def moveRegion (source target : Option OpId) : Drafting Unit :=
  modify fun d => { d with moves := d.moves ++ [(source, target)] }

def erase (id : Option OpId) : Drafting Unit :=
  modify fun d => { d with erased := d.erased ++ [id] }

def hasChanges (d : Draft) : Bool :=
  !(d.created.isEmpty && d.replacements.isEmpty && d.moves.isEmpty && d.erased.isEmpty)

end Draft
end TileLower
