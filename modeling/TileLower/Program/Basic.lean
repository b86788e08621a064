import TileLower.Diagnostic
import TileLower.ValueType.Basic

/-!
Programs: a description of a function by names, as a user writes it. `Program.build` in
`Program/Build` makes the function.
-/
namespace TileLower

structure Program.Parameter where
  name : String
  type : String
  deriving DecidableEq, Repr

structure Program.Step where
  op : String
  ins : List String
  out : String
  name : String
  type : String
  value : Float
  strides : Option (List Int64)
  dilations : Option (List Int64)
  low : Option (List Int64)
  high : Option (List Int64)
  deriving Repr

structure Program where
  name : String
  params : List Program.Parameter
  steps : List Program.Step
  returns : List String
  deriving Repr

namespace Program

def defaultName : String := "main"

def functionName (p : Program) : String := if p.name = "" then defaultName else p.name

end Program
end TileLower
