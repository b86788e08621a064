/-!
Values of the JSON data format. Fields of an object keep their order, and a name may occur twice.
-/
namespace TileLower

inductive Json where
  | null
  | bool (value : Bool)
  | int (value : Int64)
  | float (value : Float)
  | text (value : String)
  | list (items : List Json)
  | object (fields : List (String × Json))
  deriving Inhabited

namespace Json

def ofList? {α : Type} (f : α → Json) : Option (List α) → Json
  | some xs => .list (xs.map f)
  | none => .null

def optionalList {α : Type} (name : String) (f : α → Json) (xs : List α) : List (String × Json) :=
  if xs.isEmpty then [] else [(name, .list (xs.map f))]

def optionalText (name value : String) : List (String × Json) :=
  if value = "" then [] else [(name, .text value)]

end Json
end TileLower
