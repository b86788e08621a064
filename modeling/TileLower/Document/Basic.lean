import TileLower.Json.Value

/-!
Functions as documents: names instead of values, texts instead of types.
-/
namespace TileLower

structure Document.Typed where
  name : String
  type : String
  deriving DecidableEq, Repr, Inhabited

structure Document.Setting where
  name : String
  value : Json
  deriving Inhabited

mutual

inductive Document.Op where
  | mk (kind : String) (operands : List String) (results : List Document.Typed)
      (attrs : List Document.Setting) (region : Option Document.Block)

inductive Document.Block where
  | mk (args : List Document.Typed) (ops : Option (List Document.Op))

end

structure Document where
  name : String
  args : Option (List Document.Typed)
  ops : Option (List Document.Op)

namespace Document

def Typed.toJson (v : Typed) : Json := .object [("name", .text v.name), ("type", .text v.type)]

def Setting.toJson (s : Setting) : Json := .object [("name", .text s.name), ("value", s.value)]

mutual

def Op.toJson : Op → Json
  | .mk kind operands results attrs region => .object <|
    [("kind", .text kind)] ++ Json.optionalList "operands" .text operands ++
    Json.optionalList "results" Typed.toJson results ++
    Json.optionalList "attrs" Setting.toJson attrs ++
    match region with
    | some b => [("region", b.toJson)]
    | none => []

def Block.toJson : Block → Json
  | .mk args ops => .object <|
    Json.optionalList "args" Typed.toJson args ++
    match ops with
    | some ops => [("ops", .list (opsToJson ops))]
    | none => [("ops", .null)]

def opsToJson : List Op → List Json
  | [] => []
  | op :: rest => op.toJson :: opsToJson rest

end

def toJson (d : Document) : Json :=
  .object [("name", .text d.name), ("args", Json.ofList? Typed.toJson d.args),
    ("ops", Json.ofList? Op.toJson d.ops)]

end Document
end TileLower
