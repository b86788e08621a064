import TileLower.Diagnostic

/-!
Causes that may be missing. Context around nothing is nothing, while a place or the mark of an internal
error can be put on it. A place on nothing has no message of its own, and what stands in for it shows
only inside an internal error.
-/
namespace TileLower

inductive Cause where
  | missing
  | known (d : Diagnostic)
  | wordless (d : Diagnostic)

namespace Cause

def missingText : String := "<nil>"

def wordlessText : String :=
  "%!v(PANIC=Format method: runtime error: invalid memory address or nil pointer dereference)"

def within (message : String) : Cause → Cause
  | .missing => .missing
  | .known d => .known (.context message d)
  | .wordless d => .wordless (.context message d)

def locate (place : String) : Cause → Cause
  | .known d => .known (.located place d)
  | _ => .wordless (.bare wordlessText)

def internal : Cause → Cause
  | .missing => .known (.internal (.bare missingText))
  | .known d => .known (.internal d)
  | .wordless d => .known (.internal d)

def diagnostic : Cause → Outcome Diagnostic
  | .known d => .ok d
  | _ => Outcome.abort

end Cause
end TileLower
