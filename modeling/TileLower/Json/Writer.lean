import TileLower.Decimal.Shortest
import TileLower.Json.Value
import TileLower.Text.Numeral
import TileLower.Text.Quoted

/-!
The text of a JSON value, each item and field on a line of its own and indented by two blanks per
level. A float that is not finite cannot be written.
-/
namespace TileLower.Json

def isMarkup (c : Char) : Bool :=
  c = '<' || c = '>' || c = '&' || c = '\u2028' || c = '\u2029'

def escapedChar (c : Char) : List Char :=
  if c = '"' || c = '\\' then ['\\', c]
  else if c = '\n' then ['\\', 'n']
  else if c = '\r' then ['\\', 'r']
  else if c = '\t' then ['\\', 't']
  else if c.toNat < 0x20 || isMarkup c then '\\' :: 'u' :: Text.hex 4 c.toNat
  else [c]

def quote (s : String) : String :=
  String.ofList ('"' :: (s.toList.flatMap escapedChar ++ ['"']))

def floatStyle : Decimal.Style := ⟨-6, 21⟩

def writeFloat? (x : Float) : Option String :=
  match Decimal.Reading.ofFloat x with
  | .finite negative m q => some (Decimal.render floatStyle negative m q)
  | _ => none

def lineAt (depth : Nat) : String := "\n" ++ String.join (List.replicate depth "  ")

def bracket (opening closing : String) (depth : Nat) (lines : List String) : String :=
  if lines.isEmpty then opening ++ closing
  else opening ++ ",".intercalate (lines.map (lineAt (depth + 1) ++ ·)) ++ lineAt depth ++ closing

mutual

def write? (depth : Nat) : Json → Option String
  | .null => some "null"
  | .bool b => some (if b then "true" else "false")
  | .int x => some (Text.showInt x)
  | .float x => writeFloat? x
  | .text s => some (quote s)
  | .list items => (writeItems? (depth + 1) items).map (bracket "[" "]" depth)
  | .object fields => (writeFields? (depth + 1) fields).map (bracket "\x7b" "\x7d" depth)

def writeItems? (depth : Nat) : List Json → Option (List String)
  | [] => some []
  | item :: rest => do
    let first ← write? depth item
    let others ← writeItems? depth rest
    some (first :: others)

def writeFields? (depth : Nat) : List (String × Json) → Option (List String)
  | [] => some []
  | (name, value) :: rest => do
    let first ← write? depth value
    let others ← writeFields? depth rest
    some ((quote name ++ ": " ++ first) :: others)

end

def encode? (j : Json) : Option String := write? 0 j

end TileLower.Json
