import TileLower.Decimal.Fixed
import TileLower.Diagnostic
import TileLower.Eval.Box
import TileLower.Text.Numeral

/-!
The text of an array: rows in braces, nested along the outer axes one level of indentation each.
-/
namespace TileLower.ArrayText

def trimZeros (s : String) : String :=
  if s.toList.contains '.' then
    let cs := s.toList.reverse.dropWhile (· = '0')
    let cs := match cs with
      | '.' :: rest => rest
      | cs => cs
    String.ofList cs.reverse
  else s

def number (places : Nat) (x : Float) : String :=
  match Decimal.Reading.ofFloat x with
  | .nan => "NaN"
  | .infinite negative => if negative then "-Inf" else "+Inf"
  | .finite negative m q => trimZeros (Decimal.fixed places negative m q)

def singlePlaces : Nat := 6
def doublePlaces : Nat := 10

def strides : List Int64 → List Int64
  | [] => []
  | _ :: axes => axes.foldl (· * ·) 1 :: strides axes

def row (data : Array String) (base n : Int64) : Outcome String := do
  let _ ← listLength n
  let vals ← Box.fold n (fun vals i => do
    let pos := base + i
    if pos < 0 then Outcome.abort
    else .ok (vals.push (← Outcome.ofOption data[pos.toNatClampNeg]?))) #[]
  .ok ("\x7b" ++ ", ".intercalate vals.toList ++ "\x7d")

def tab : String := "\t"

def nested (data : Array String) : String → Int64 → List (Int64 × Int64) → Outcome String
  | _, base, [] => row data base 1
  | _, base, [(n, _)] => row data base n
  | indent, base, (n, stride) :: axes => do
    let rows ← Box.fold n (fun rows i => do
      .ok (rows ++ indent ++ tab ++ (← nested data (indent ++ tab) (base + stride * i) axes) ++
        ",\n")) ""
    .ok ("\x7b\n" ++ rows ++ indent ++ "\x7d")

def body (data : Array String) (axes : List Int64) : Outcome String :=
  match axes with
  | [] => do .ok ("(" ++ (← Outcome.ofOption data[0]?) ++ ")")
  | _ => nested data "" 0 (axes.zip (strides axes))

def sizeNote (count : Nat) (axes : List Int64) (total : Int64) : String :=
  "len(data)=" ++ toString count ++ " does not match axes " ++ Text.showInts axes ++ "=" ++
    Text.showInt total

def render (data : Array String) (axes : List Int64) (name : Option String) : Outcome String := do
  let total := axes.foldl (· * ·) 1
  if total ≠ Int64.ofNat data.size then .ok (sizeNote data.size axes total)
  else
    let head := match name with
      | some n => String.join (axes.map fun d => "[" ++ Text.showInt d ++ "]") ++ n
      | none => ""
    .ok (head ++ (← body data axes))

end TileLower.ArrayText
