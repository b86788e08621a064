import TileLower.Rule.Commit
import TileLower.Rule.DeadCode

/-!
Greedy application of rules. A sweep tries the rules in order at each operation of the function as it
stood when the sweep began, and commits the first draft that changes something. Sweeps are repeated
until one changes nothing.
-/
namespace TileLower.Greedy

structure Trial (σ : Type) where
  graph : Graph
  state : σ
  draft : Outcome Draft

structure Pattern (σ : Type) where
  name : String
  root : String
  trial : OpId → Graph → σ → Trial σ

def Pattern.ofRule {σ : Type} (r : Rule) : Pattern σ where
  name := r.name
  root := r.root
  trial id g s :=
    ⟨g, s, match r.draft ⟨r.name, id⟩ (Draft.ofGraph g) with
      | .ok () d => .ok d
      | .error f _ => .error f⟩

def Pattern.applies {σ : Type} (p : Pattern σ) (kind : String) : Bool :=
  p.root == "" || p.root == kind

structure Event where
  message : String
  fields : List (String × String)
  deriving Repr, DecidableEq

def Event.line (e : Event) : String :=
  String.join (e.message :: e.fields.map fun f => " " ++ f.1 ++ "=" ++ f.2)

structure Options where
  maxIterations : Int
  deadCode : Bool
  deriving Repr

def defaultMaxIterations : Int := 10

structure Progress (σ : Type) where
  graph : Graph
  state : σ
  changes : Nat
  iterations : Nat
  converged : Bool
  applied : OrderedMap String Nat
  erased : Nat
  declines : List Diagnostic
  events : List Event
  fault : Option Fault

namespace Progress

variable {σ : Type}

def start (g : Graph) (s : σ) : Progress σ :=
  ⟨g, s, 0, 0, false, OrderedMap.empty, 0, [], [], none⟩

def stop (p : Progress σ) (f : Fault) : Progress σ := { p with fault := some f }

def stopWithin (p : Progress σ) (message : String) : Fault → Progress σ
  | .abort => p.stop .abort
  | .error d => p.stop (.error (.context message d))

def log (p : Progress σ) (message : String) (fields : List (String × String)) : Progress σ :=
  { p with events := p.events ++ [⟨message, fields⟩] }

end Progress

variable {σ : Type}

def commit (pattern : String) (id : OpId) (d : Draft) (p : Progress σ) : Progress σ :=
  let place := p.graph.location (some id)
  let c := d.commit id
  let p := { p with graph := c.graph }
  match c.fault with
  | some f => p.stopWithin ("pattern " ++ pattern ++ " failed to commit on " ++ place) f
  | none =>
    let count := (p.applied.load? pattern).getD 0
    { p with changes := p.changes + 1, applied := p.applied.store pattern (count + 1) }.log
      "rewrite" [("pattern", pattern), ("op", place)]

def tryAt (id : OpId) : List (Pattern σ) → Progress σ → Bool × Progress σ
  | [], p => (false, p)
  | pat :: rest, p =>
    if pat.applies (p.graph.op id).kind then
      let t := pat.trial id p.graph p.state
      let p := { p with graph := t.graph, state := t.state }
      match t.draft with
      | .error .abort => (false, p.stop .abort)
      | .error (.error d) =>
        let place := p.graph.location (some id)
        if d.isDecline then
          tryAt id rest ({ p with declines := p.declines ++ d.parts }.log "decline"
            [("pattern", pat.name), ("op", place), ("reason", d.message)])
        else
          (false, p.stopWithin ("pattern " ++ pat.name ++ " failed on " ++ place) (.error d))
      | .ok d => if d.hasChanges then (true, commit pat.name id d p) else tryAt id rest p
    else tryAt id rest p

def visit (pats : List (Pattern σ)) : List OpId → Bool → Progress σ → Bool × Progress σ
  | [], changed, p => (changed, p)
  | id :: rest, changed, p =>
    if p.graph.isAlive id then
      let (here, p) := tryAt id pats p
      match p.fault with
      | some _ => (changed || here, p)
      | none => visit pats rest (changed || here) p
    else visit pats rest changed p

def sweep (pats : List (Pattern σ)) (p : Progress σ) : Bool × Progress σ :=
  visit pats p.graph.walkAll false { p with declines := [] }

def sweeps (pats : List (Pattern σ)) (deadCode : Bool) : Nat → Progress σ → Progress σ
  | 0, p => p
  | fuel + 1, p =>
    let (changed, p) := sweep pats { p with iterations := p.iterations + 1 }
    match p.fault with
    | some _ => p
    | none =>
      let (g, n) := if deadCode then DeadCode.eliminate p.graph else (p.graph, 0)
      let p := { p with graph := g, erased := p.erased + n }
      if changed || n > 0 then sweeps pats deadCode fuel p else { p with converged := true }

def apply (pats : List (Pattern σ)) (o : Options) (g : Graph) (s : σ) : Progress σ :=
  let p := sweeps pats o.deadCode o.maxIterations.toNat (Progress.start g s)
  match p.fault with
  | some _ => p
  | none => p.log "rewrite done"
    [("func", p.graph.name), ("rewrites", toString p.changes),
     ("iterations", toString p.iterations), ("converged", toString p.converged)]

structure Decline where
  pattern : String
  kind : String
  reason : String
  deriving Repr, DecidableEq

def Decline.message (d : Decline) : String :=
  (Diagnostic.declined d.pattern d.kind d.reason).message

def declineIn? : Diagnostic → Option Decline
  | .text _ => none
  | .bare _ => none
  | .context _ d => declineIn? d
  | .located _ d => declineIn? d
  | .internal d => declineIn? d
  | .declined pattern kind reason => some ⟨pattern, kind, reason⟩
  | .several ds => ds.attach.findSome? fun ⟨d, _⟩ => declineIn? d

def declineList (p : Progress σ) : List Decline := p.declines.filterMap declineIn?

end TileLower.Greedy
