import TileLower.Rule.Basic

/-!
Committing a draft: new operations go before the anchor, then regions move, replaced operations go
and erased ones go. A change that cannot be made is an internal error, and one of an absent operation
aborts; the changes before it stay.
-/
namespace TileLower

structure Changed where
  graph : Graph
  fault : Option Fault

namespace Changed

def ok (g : Graph) : Changed := ⟨g, none⟩

def abort (g : Graph) : Changed := ⟨g, some .abort⟩

def internal (g : Graph) (id : OpId) (message : String) : Changed :=
  ⟨g, some (.error (.internal (.located (g.location (some id)) (.text message))))⟩

def andThen (c : Changed) (next : Graph → Changed) : Changed :=
  match c.fault with
  | none => next c.graph
  | some _ => c

end Changed

namespace Draft

def commitMoves (g : Graph) : List (Option OpId × Option OpId) → Changed
  | [] => .ok g
  | (some source, target) :: rest =>
    if (g.op source).region.isNone then .internal g source "no region to move"
    else match target with
      | some target => commitMoves (g.takeRegion target source) rest
      | none => .abort g
  | (none, _) :: _ => .abort g

def replaceResults (g : Graph) (id : OpId) : Nat → List Operand → Graph
  | _, [] => g
  | i, v :: vs => replaceResults (g.replaceUses (some (.result id i)) v) id (i + 1) vs

def detach (g : Graph) (id : OpId) : Graph :=
  match (g.op id).block with
  | some b => g.erase b id
  | none => g

def commitReplacements (g : Graph) : List (OpId × List Operand) → Graph
  | [] => g
  | (id, vals) :: rest => commitReplacements (detach (replaceResults g id 0 vals) id) rest

def commitErasures (g : Graph) : List (Option OpId) → Changed
  | [] => .ok g
  | none :: _ => .abort g
  | some id :: rest =>
    if (g.resultsOf id).any fun v => g.hasUses (some v) then
      .internal g id "cannot erase an operation with uses"
    else commitErasures (detach g id) rest

def commit (d : Draft) (anchor : OpId) : Changed :=
  let g := d.graph
  match (g.op anchor).block with
  | none => .internal g anchor "cannot commit a rewrite anchored on a detached operation"
  | some b =>
    (commitMoves (g.insertBefore b (some anchor) d.created) d.moves).andThen fun g =>
      commitErasures (commitReplacements g d.replacements) d.erased

end Draft
end TileLower
