/-!
What can go wrong, as causes. `Diagnostic.message` holds the wording of nesting, locations and
internal errors; `Collector` gathers diagnostics under nested contexts.
-/
namespace TileLower

inductive Diagnostic where
  | text (message : String)
  | bare (message : String)
  | context (message : String) (cause : Diagnostic)
  | located (place : String) (cause : Diagnostic)
  | internal (cause : Diagnostic)
  | declined (pattern kind reason : String)
  | several (causes : List Diagnostic)
  deriving Repr, Inhabited

namespace Diagnostic

def isDecline : Diagnostic → Bool
  | .text _ => false
  | .bare _ => false
  | .context _ d => d.isDecline
  | .located _ d => d.isDecline
  | .internal d => d.isDecline
  | .declined .. => true
  | .several ds => ds.attach.any fun ⟨d, _⟩ => d.isDecline

def isInternal : Diagnostic → Bool
  | .text _ => false
  | .bare _ => false
  | .context _ d => d.isInternal
  | .located _ d => d.isInternal
  | .internal _ => true
  | .declined .. => false
  | .several ds => ds.attach.any fun ⟨d, _⟩ => d.isInternal

def isTraced : Diagnostic → Bool
  | .text _ => true
  | .bare _ => false
  | .context .. => true
  | .located _ d => d.isTraced
  | .internal d => d.isTraced
  | .declined .. => false
  | .several ds => ds.attach.any fun ⟨d, _⟩ => d.isTraced

def internalHeader : String :=
  "internal error. This is a bug in the lowering. Please report it. Error:\n"

def traceNote (d : Diagnostic) : String :=
  if d.isTraced then "\nError generated at:\n" else ""

mutual

def message : Diagnostic → String
  | .text m => m
  | .bare m => m
  | .context m d => m ++ ": " ++ d.message
  | .located place d => place ++ ": " ++ d.message
  | .internal d => internalHeader ++ d.detailed
  | .declined pattern kind reason => pattern ++ ": " ++ kind ++ ": " ++ reason
  | .several ds => "; ".intercalate (messages ds)

def detailed : Diagnostic → String
  | .text m => m
  | .bare m => m
  | .context m d => d.detailed ++ "\n" ++ m
  | .located place d => place ++ ": " ++ d.message ++ d.traceNote
  | .internal d => internalHeader ++ d.detailed
  | .declined pattern kind reason => pattern ++ ": " ++ kind ++ ": " ++ reason
  | .several ds => "; ".intercalate (messages ds)

def messages : List Diagnostic → List String
  | [] => []
  | d :: ds => d.message :: messages ds

end

def parts : Diagnostic → List Diagnostic
  | .several ds => ds
  | d => [d]

def ofList? : List Diagnostic → Option Diagnostic
  | [] => none
  | [d] => some d
  | ds => some (.several ds)

end Diagnostic

/-- Why a computation gave no result: it was asked for something outside the domain of one of its
steps (an absent value, a position out of range, a division by zero), or it reported a diagnostic. -/
inductive Fault where
  | abort
  | error (cause : Diagnostic)
  deriving Repr, Inhabited

abbrev Outcome := Except Fault

namespace Outcome

def abort {α : Type} : Outcome α := .error .abort

def fail {α : Type} (message : String) : Outcome α := .error (.error (.text message))

def raise {α : Type} (d : Diagnostic) : Outcome α := .error (.error d)

def ofOption {α : Type} : Option α → Outcome α
  | some a => .ok a
  | none => abort

def within {α : Type} (message : String) : Outcome α → Outcome α
  | .error (.error d) => .error (.error (.context message d))
  | o => o

end Outcome

def lengthLimit : Int64 := 17592186044416

def listLength (n : Int64) : Outcome Nat :=
  if 0 ≤ n ∧ n ≤ lengthLimit then .ok n.toNatClampNeg else Outcome.abort

def entryAt? {α : Type} (xs : List α) (i : Int64) : Option α :=
  if i < 0 then none else xs[i.toNatClampNeg]?

def entryAt {α : Type} (xs : List α) (i : Int64) : Outcome α := .ofOption (entryAt? xs i)

structure Collector.Frame where
  wrap : Diagnostic → Diagnostic
  found : List Diagnostic

structure Collector where
  frames : List Collector.Frame
  found : List Diagnostic

namespace Collector

def empty : Collector := ⟨[], []⟩

def push (c : Collector) (wrap : Diagnostic → Diagnostic) : Collector :=
  { c with frames := ⟨wrap, []⟩ :: c.frames }

def append (c : Collector) (d : Diagnostic) : Collector :=
  match c.frames with
  | [] => { c with found := c.found ++ d.parts }
  | top :: rest => { c with frames := { top with found := top.found ++ d.parts } :: rest }

def pop (c : Collector) : Outcome Collector :=
  match c.frames with
  | [] => Outcome.abort
  | top :: rest =>
    let c := { c with frames := rest }
    match Diagnostic.ofList? top.found with
    | none => .ok c
    | some d => .ok (c.append (top.wrap d))

def result? (c : Collector) : Option Diagnostic :=
  if c.frames.isEmpty then Diagnostic.ofList? c.found
  else some (.internal (.located "<nil op>"
    (.text "cannot fetch errors while the context stack is non-empty")))

def results (c : Collector) : List Diagnostic :=
  (c.result?.map Diagnostic.parts).getD []

def isEmpty (c : Collector) : Bool :=
  c.found.isEmpty && c.frames.all fun f => f.found.isEmpty

end Collector
end TileLower
