import TileLower.Diagnostic
import TileLower.Text.Quoted
import TileLower.ValueType.Basic

/-!
The written form of types: `index`, an element name, or `tensor<…>` and `memref<…>` around extents
and an element name divided by `x`. An unknown extent is written `?`.
-/
namespace TileLower.ValueType

open Text

def refuse {α : Type} (text : List Char) (detail : String) : Outcome α :=
  Outcome.fail ("invalid type " ++ quote (String.ofList text) ++ detail)

def readDim (text field : List Char) : Outcome Int64 :=
  if field = ['?'] then .ok dynamicSize
  else match int64? field with
    | some d => if d < 0 then bad else .ok d
    | none => bad
where
  bad := refuse text (": invalid axis length " ++ quote (String.ofList field))

def readDims (text : List Char) : List (List Char) → Outcome (List Int64)
  | [] => .ok []
  | field :: rest => do
    let d ← readDim text field
    let ds ← readDims text rest
    .ok (d :: ds)

def readShape (text : List Char) (kind : TypeKind) (rest : List Char) : Outcome ValueType :=
  if rest.getLast? = some '>' then
    let fields := splitChars 'x' rest.dropLast
    let last := String.ofList (fields.getLastD [])
    match ElementType.ofName? last with
    | none => refuse text (": unknown element type " ++ quote last)
    | some element => do
      let dims ← readDims text fields.dropLast
      .ok ⟨kind, element, dims⟩
  else refuse text ": missing >"

def openings : List (List Char × TypeKind) :=
  [("tensor<".toList, .tensor), ("memref<".toList, .buffer)]

def parseChars (text : List Char) : Outcome ValueType :=
  let name := String.ofList text
  if name = "index" then .ok index
  else match ElementType.ofName? name with
    | some element => .ok (scalar element)
    | none =>
      match openings.find? fun o => o.1.isPrefixOf text with
      | some (opening, kind) => readShape text kind (text.drop opening.length)
      | none => refuse text ""

def parse (s : String) : Outcome ValueType := parseChars (trimChars s.toList)

end TileLower.ValueType
