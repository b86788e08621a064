import TileLower.Affine.Map
import TileLower.Decimal.Shortest
import TileLower.OrderedMap
import TileLower.Text.Quoted
import TileLower.ValueType.Basic

/-!
Attributes of operations: named constants in the order in which they were first set.
-/
namespace TileLower

inductive Iterator where
  | parallel
  | reduction
  deriving DecidableEq, Repr, Inhabited

def Iterator.name : Iterator → String
  | .parallel => "parallel"
  | .reduction => "reduction"

inductive Attribute where
  | int (value : Int64)
  | ints (values : Option (List Int64))
  | text (value : String)
  | texts (values : List String)
  | float (value : Float)
  | bool (value : Bool)
  | maps (values : List AffineMap)
  | iterators (values : List Iterator)
  | type (value : ValueType)
  | none
  deriving Repr, Inhabited

namespace Attribute

def floatStyle : Decimal.Style := ⟨-4, 6⟩

def renderFloat (x : Float) : String :=
  match Decimal.Reading.ofFloat x with
  | .nan => "NaN"
  | .infinite negative => if negative then "-Inf" else "+Inf"
  | .finite negative m q => Decimal.render floatStyle negative m q

def plain : Attribute → String
  | .int v => Text.showInt v
  | .ints v => Text.showInts (v.getD [])
  | .text v => v
  | .texts v => Text.bracketed v
  | .float v => renderFloat v
  | .bool v => if v then "true" else "false"
  | .maps v => Text.bracketed (v.map (AffineMap.shownBy "v"))
  | .iterators v => Text.bracketed (v.map Iterator.name)
  | .type v => v.render
  | .none => "<nil>"

def render : Attribute → String
  | .text v => Text.quote v
  | a => a.plain

end Attribute

abbrev Attributes := OrderedMap String Attribute

namespace Attributes

def int? (a : Attributes) (name : String) : Option Int64 :=
  match a.load? name with
  | some (.int v) => some v
  | _ => none

def ints? (a : Attributes) (name : String) : Option (List Int64) :=
  match a.load? name with
  | some (.ints v) => some (v.getD [])
  | _ => none

def given? (a : Attributes) (name : String) : Option (List Int64) :=
  match a.load? name with
  | some (.ints v) => v
  | _ => none

def text? (a : Attributes) (name : String) : Option String :=
  match a.load? name with
  | some (.text v) => some v
  | _ => none

def float? (a : Attributes) (name : String) : Option Float :=
  match a.load? name with
  | some (.float v) => some v
  | _ => none

def bool? (a : Attributes) (name : String) : Option Bool :=
  match a.load? name with
  | some (.bool v) => some v
  | _ => none

def maps? (a : Attributes) (name : String) : Option (List AffineMap) :=
  match a.load? name with
  | some (.maps v) => some v
  | _ => none

def iterators? (a : Attributes) (name : String) : Option (List Iterator) :=
  match a.load? name with
  | some (.iterators v) => some v
  | _ => none

def render (a : Attributes) : String :=
  if a.entries.isEmpty then ""
  else "\x7b" ++ ", ".intercalate (a.entries.map fun e => e.1 ++ " = " ++ e.2.render) ++ "\x7d"

def ofList (entries : List (String × Attribute)) : Attributes :=
  entries.foldl (fun a e => a.store e.1 e.2) OrderedMap.empty

end Attributes
end TileLower
