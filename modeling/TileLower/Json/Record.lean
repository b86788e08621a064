import TileLower.Json.Value

/-!
Reading records from JSON objects. Names of fields are compared without regard to case, fields with
other names are passed over, and of two fields with one name the last counts. `null` leaves a text as
it was and empties a list.
-/
namespace TileLower.Json

def setFields {σ : Type} (set : String → Json → σ → Option σ) : List (String × Json) → σ → Option σ
  | [], s => some s
  | (name, value) :: rest, s => do
    let s ← set name.toLower value s
    setFields set rest s

def record? {σ : Type} (set : String → Json → σ → Option σ) (blank : σ) : Json → Option σ
  | .null => some blank
  | .object fields => setFields set fields blank
  | _ => none

def textOr? (old : String) : Json → Option String
  | .null => some old
  | .text s => some s
  | _ => none

def list? {α : Type} (item : Json → Option α) : Json → Option (Option (List α))
  | .null => some none
  | .list items => (items.mapM item).map some
  | _ => none

end TileLower.Json
