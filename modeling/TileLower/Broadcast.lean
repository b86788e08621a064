import TileLower.Diagnostic
import TileLower.ValueType.Basic

/-!
Broadcasts of an operand to a two-dimensional output: how its elements are replicated and the
distance between its rows.
-/
namespace TileLower

inductive Broadcast where
  | full
  | row
  | column
  | scalar
  deriving DecidableEq, Repr, Inhabited

namespace Broadcast

def name : Broadcast → String
  | .full => "NONE"
  | .row => "ROW"
  | .column => "COLUMN"
  | .scalar => "SCALAR"

def ofInt? (k : Int64) : Option Broadcast := entryAt? [.full, .row, .column, .scalar] k

def nameOfInt (k : Int64) : String := ((ofInt? k).map name).getD "UNKNOWN"

def internal {α : Type} (message : String) : Outcome α := Outcome.raise (.internal (.text message))

def reshapeReversed : List Int64 → List Int64 → Option (List Int64)
  | [], _ => some []
  | _ :: his, [] => some (1 :: his.map fun _ => 1)
  | hi :: his, lo :: los =>
    if lo = 1 ∧ 1 < hi then (reshapeReversed his los).map (1 :: ·)
    else if (1 < lo ∧ hi = 1) ∨ lo = hi then (reshapeReversed his los).map (lo :: ·)
    else none

def reshape (higher lower : List Int64) : Outcome (List Int64) :=
  if higher.length < lower.length then
    internal ("cannot reshape " ++ Text.showInts lower ++ " to the rank of " ++ Text.showInts higher)
  else match reshapeReversed higher.reverse lower.reverse with
    | some dims => .ok dims.reverse
    | none => internal ("broadcast semantics broken: cannot broadcast " ++ Text.showInts lower ++
        " to " ++ Text.showInts higher)

def classify (input : ValueType) (output : List Int64) : Outcome (Int64 × Broadcast) :=
  if ¬ input.isShaped then .ok (1, .scalar)
  else if input.dims.all (· == 1) then .ok (1, .scalar)
  else match output with
    | [rows, columns] => do
      match ← reshape output input.dims with
      | [r, c] =>
        if c = 1 ∧ 1 < columns then .ok (c, .column)
        else if r = 1 ∧ 1 < rows then .ok (c, .row)
        else if r = rows ∧ c = columns then .ok (c, .full)
        else internal ("cannot classify the broadcast of " ++ input.render ++ " to " ++
          Text.showInts output)
      | _ => Outcome.abort
    | _ => internal ("cannot classify the broadcast of " ++ input.render ++ " to " ++
        Text.showInts output ++ ": expected a 2D output")

end Broadcast
end TileLower
