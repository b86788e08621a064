import TileLower.Rule.Greedy
import TileLower.Rule.Workbench

/-!
Scripted rules: lists of actions that are carried out at each operation of a kind. A script may be
limited to a number of runs. What its actions build, and the names they give, stay whether or not the
changes that they draft are made.
-/
namespace TileLower

inductive Script.Action where
  | stage (setup : Site → Building (Drafting Unit))
  | detach
  | decline (reason : String)
  | declineUnlessKind (kind : String)
  | declineInFunction
  | wrappedDecline (reason : String)
  | fail (reason : String)
  | internal (reason : String)

structure Script where
  name : String
  root : String
  limit : Option Int
  actions : List Script.Action

namespace Script

inductive Verdict where
  | done
  | fault (f : Fault)
  | refused (cause : Diagnostic)

def check (site : Site) : Action → Drafting Unit
  | .decline reason => site.decline reason
  | .declineUnlessKind kind => do
    if ((← Drafting.graph).op site.op).kind ≠ kind then site.decline ("not a " ++ kind)
  | .declineInFunction => do site.decline ("in @" ++ (← Drafting.graph).name)
  | .wrappedDecline reason => fun d =>
    match (site.decline reason : Drafting Unit) d with
    | .error (.error cause) d => .error (.error (.context "wrapped" cause)) d
    | r => r
  | .fail reason => Drafting.fail reason
  | .internal reason => do Drafting.lift (Draft.internalAt (← Drafting.graph) site.op reason)
  | _ => pure ()

def change (m : Drafting Unit) (w : Workbench) : Workbench × Verdict :=
  match m w.draft with
  | .ok () d => ({ w with draft := d }, .done)
  | .error f d => ({ w with draft := d }, .fault f)

def takeOut (site : Site) : Drafting Unit := do
  let g ← Drafting.graph
  let b : BlockId ← Drafting.require (g.op site.op).block
  modify fun d => { d with graph := g.erase b site.op }

def step (site : Site) (a : Action) (w : Workbench) : Workbench × Verdict :=
  match a with
  | .stage setup =>
    match setup site w with
    | .ok changes w => change changes w
    | .error .abort w => (w, .fault .abort)
    | .error (.error cause) w => (w, .refused cause)
  | .detach => change (takeOut site) w
  | a => change (check site a) w

def runActions (site : Site) : List Action → Workbench → Workbench × Verdict
  | [], w => (w, .done)
  | a :: rest, w =>
    match step site a w with
    | (w, .done) => runActions site rest w
    | stopped => stopped

structure Memory where
  names : Names
  runs : List (Nat × Nat)
  refusal : Option Diagnostic

def Memory.ofNames (names : Names) : Memory := ⟨names, [], none⟩

def Memory.count (m : Memory) (number : Nat) : Nat := (m.runs.lookup number).getD 0

def Memory.counted (m : Memory) (number : Nat) : Memory :=
  { m with runs := (number, m.count number + 1) :: m.runs.filter fun r => r.1 != number }

def isSpent (s : Script) (count : Nat) : Bool :=
  match s.limit with
  | some n => decide (n ≤ (count : Int))
  | none => false

def enter (g : Graph) (id : OpId) (n : Names) : Names :=
  ((n.bindOp "$op" id).bindNumbered "$o" (g.op id).operands).bindNumbered "$r"
    ((g.resultsOf id).map some)

def pattern (number : Nat) (s : Script) : Greedy.Pattern Memory where
  name := s.name
  root := s.root
  trial id g m :=
    let count := m.count number
    if s.isSpent count then
      ⟨g, m, Outcome.raise
        (.declined s.name (g.op id).kind ("applied " ++ toString count ++ " times"))⟩
    else
      let m := m.counted number
      let (w, verdict) := runActions ⟨s.name, id⟩ s.actions ⟨enter g id m.names, Draft.ofGraph g⟩
      let m := { m with names := w.names }
      match verdict with
      | .done => ⟨w.draft.graph, m, .ok w.draft⟩
      | .fault f => ⟨w.draft.graph, m, .error f⟩
      | .refused cause => ⟨w.draft.graph, { m with refusal := some cause }, Outcome.abort⟩

end Script
end TileLower
