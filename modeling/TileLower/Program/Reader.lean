import TileLower.Json.Reader
import TileLower.Json.Record
import TileLower.Program.Basic

/-!
Reading programs from JSON. A field that is left out is empty.
-/
namespace TileLower.Program

def exactBound : Float := 9007199254740992

def int? : Json → Option Int64
  | .float x => if x.floor == x && x.abs < exactBound then some x.toInt64 else none
  | _ => none

def float? : Json → Option Float
  | .float x => some x
  | _ => none

def text? : Json → Option String := Json.textOr? ""

def items? {α : Type} (item : Json → Option α) (j : Json) : Option (List α) :=
  (Json.list? item j).map fun xs => xs.getD []

def Parameter.set (name : String) (value : Json) (p : Parameter) : Option Parameter :=
  match name with
  | "name" => (text? value).map fun name => { p with name }
  | "type" => (text? value).map fun type => { p with type }
  | _ => some p

def Parameter.ofJson? : Json → Option Parameter := Json.record? Parameter.set ⟨"", ""⟩

def Step.blank : Step := ⟨"", [], "", "", "", 0, none, none, none, none⟩

def Step.set (name : String) (value : Json) (s : Step) : Option Step :=
  match name with
  | "op" => (text? value).map fun op => { s with op }
  | "ins" => (items? text? value).map fun ins => { s with ins }
  | "out" => (text? value).map fun out => { s with out }
  | "name" => (text? value).map fun name => { s with name }
  | "type" => (text? value).map fun type => { s with type }
  | "value" => (float? value).map fun value => { s with value }
  | "strides" => (Json.list? int? value).map fun strides => { s with strides }
  | "dilations" => (Json.list? int? value).map fun dilations => { s with dilations }
  | "low" => (Json.list? int? value).map fun low => { s with low }
  | "high" => (Json.list? int? value).map fun high => { s with high }
  | _ => some s

def Step.ofJson? : Json → Option Step := Json.record? Step.set Step.blank

def set (name : String) (value : Json) (p : Program) : Option Program :=
  match name with
  | "name" => (text? value).map fun name => { p with name }
  | "args" => (items? Parameter.ofJson? value).map fun params => { p with params }
  | "ops" => (items? Step.ofJson? value).map fun steps => { p with steps }
  | "return" => (items? text? value).map fun returns => { p with returns }
  | _ => some p

def decode? (s : String) : Option Program :=
  (Json.decode? s).bind (Json.record? set ⟨"", [], [], []⟩)

end TileLower.Program
