import TileLower.Json.Value
import TileLower.Rule.Greedy

/-!
Reports on the runs of rules over a function.
-/
namespace TileLower.Service

structure Report where
  pass : String
  changes : Nat
  iterations : Nat
  converged : Bool
  applied : OrderedMap String Nat
  declines : List String

namespace Report

def ofProgress {σ : Type} (pass : String) (p : Greedy.Progress σ) : Report where
  pass := pass
  changes := p.changes
  iterations := p.iterations
  converged := p.converged
  applied := p.applied
  declines := (Greedy.declineList p).map Greedy.Decline.message

def countJson (n : Nat) : Json := .int (Int64.ofNat n)

def appliedField (applied : OrderedMap String Nat) : List (String × Json) :=
  if applied.entries.isEmpty then []
  else [("applied", .object (applied.entries.map fun e => (e.1, countJson e.2)))]

def toJson (r : Report) : Json :=
  .object <|
    [("pass", .text r.pass), ("rewrites", countJson r.changes),
     ("iterations", countJson r.iterations), ("converged", .bool r.converged)] ++
    appliedField r.applied ++ Json.optionalList "declines" .text r.declines

end Report

structure Run (σ : Type) where
  pass : String
  patterns : List (Greedy.Pattern σ)
  options : Greedy.Options

structure Ran (σ : Type) where
  graph : Graph
  state : σ
  reports : List Report
  fault : Option Fault

def Ran.start {σ : Type} (g : Graph) (s : σ) : Ran σ := ⟨g, s, [], none⟩

def runAll {σ : Type} : List (Run σ) → Ran σ → Ran σ
  | [], r => r
  | run :: rest, r =>
    let p := Greedy.apply run.patterns run.options r.graph r.state
    let r := ⟨p.graph, p.state, r.reports ++ [Report.ofProgress run.pass p], p.fault⟩
    match p.fault with
    | some _ => r
    | none => runAll rest r

end TileLower.Service
