import TileLower.Graph.Verify
import TileLower.Program.Recipe

/-!
The function that a program describes. Each name is defined once and before it is used; the function
ends with a return and is well formed.
-/
namespace TileLower.Program

abbrev Scope := OrderedMap String Value

structure Built where
  graph : Graph
  scope : Scope

def lookup (scope : Scope) (name : String) : Outcome Value :=
  match scope.load? name with
  | some v => .ok v
  | none => Outcome.fail ("undefined value " ++ Text.quote name)

def lookupAll (scope : Scope) (names : List String) : Outcome (List Value) :=
  names.mapM (lookup scope)

def define (b : Built) (name : String) (v : Value) : Outcome Built :=
  if b.scope.contains name then Outcome.fail ("value " ++ Text.quote name ++ " already defined")
  else .ok ⟨b.graph.setName v name, b.scope.store name v⟩

def defineParams : Nat → List Parameter → Built → Outcome Built
  | _, [], b => .ok b
  | i, p :: ps, b => do
    let b ← Outcome.within ("argument " ++ toString i)
      (define b p.name (.argument Graph.body i))
    defineParams (i + 1) ps b

def atEnd {α : Type} (g : Graph) (m : Drafting α) : Outcome (α × Graph) :=
  match m (Draft.ofGraph g) with
  | .ok a d => .ok (a, d.graph.append Graph.body d.created)
  | .error f _ => .error f

def makeStep (scope : Scope) (s : Step) (ins : List Value) : Recipe → Outcome (Drafting Operand)
  | .fresh _ make => .ok (make s ins)
  | .into _ make => do
    if s.out = "" then Outcome.fail "missing output"
    .ok (make s ins (← lookup scope s.out))

def buildStep (b : Built) (s : Step) : Outcome Built := do
  match Recipe.ofName? s.op with
  | none => Outcome.fail ("unknown operation " ++ Text.quote s.op)
  | some recipe =>
    if ¬ recipe.counts.contains s.ins.length then
      Outcome.fail ("got " ++ toString s.ins.length ++ " inputs but want " ++
        Text.bracketed (recipe.counts.map toString))
    let ins ← lookupAll b.scope s.ins
    let (result, g) ← atEnd b.graph (← makeStep b.scope s ins recipe)
    let b := { b with graph := g }
    if s.name = "" then .ok b
    else match result with
      | none => Outcome.fail ("cannot name " ++ Text.quote s.name ++ ": operation has no result")
      | some v => define b s.name v

def buildSteps : Nat → List Step → Built → Outcome Built
  | _, [], b => .ok b
  | i, s :: ss, b => do
    let b ← Outcome.within ("operation " ++ toString i ++ " (" ++ s.op ++ ")") (buildStep b s)
    buildSteps (i + 1) ss b

def paramType (p : Parameter) : Outcome ValueType :=
  Outcome.within ("argument " ++ p.name) (ValueType.parse p.type)

def build (p : Program) : Outcome Built := do
  let types ← p.params.mapM paramType
  let b ← defineParams 0 p.params ⟨Graph.ofArguments p.functionName types, OrderedMap.empty⟩
  let b ← buildSteps 0 p.steps b
  let returned ← Outcome.within "return" (lookupAll b.scope p.returns)
  let (_, g) ← atEnd b.graph (Memory.ret (returned.map some))
  g.verify
  .ok { b with graph := g }

end TileLower.Program
