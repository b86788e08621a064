import TileLower.Document.Basic
import TileLower.Json.Writer

/-!
The text of a document. Operations inside a region are indented by three levels more than the
operation that has the region; this is the margin of the region. When a level of nesting is reached
for the first time, the margin two levels above it is lost: what follows in that region is indented as
if the region had none. Documents written one after another count as one for this.
-/
namespace TileLower.Document

def braced (depth closing : Nat) (lines : List String) : String :=
  "\x7b" ++ ",".intercalate (lines.map (Json.lineAt depth ++ ·)) ++ Json.lineAt closing ++ "\x7d"

def marginAfter (level before after margin : Nat) : Nat :=
  if before ≤ level ∧ level < after then 0 else margin

abbrev Written (α : Type) := Except Nat α

def Written.ofOption {α : Type} (deepest : Nat) : Option α → Written α
  | some a => .ok a
  | none => .error deepest

mutual

def Op.write (level margin deepest : Nat) : Op → Written (String × Nat)
  | .mk kind operands results attrs region => do
    let fields ← Written.ofOption deepest <| Json.writeFields? (margin + 3) <|
      [("kind", .text kind)] ++ Json.optionalList "operands" .text operands ++
      Json.optionalList "results" Typed.toJson results ++
      Json.optionalList "attrs" Setting.toJson attrs
    match region with
    | none => .ok (braced (margin + 3) (margin + 2) fields, deepest)
    | some block =>
      let (text, margin', deepest) ← block.write level margin deepest
      .ok (braced (margin + 3) (margin' + 2) (fields ++ ["\"region\": " ++ text]), deepest)

def Block.write (level margin deepest : Nat) : Block → Written (String × Nat × Nat)
  | .mk args ops => do
    let fields ← Written.ofOption deepest <|
      Json.writeFields? (margin + 4) (Json.optionalList "args" Typed.toJson args)
    match ops with
    | none => .ok (braced (margin + 4) (margin + 3) (fields ++ ["\"ops\": null"]), margin, deepest)
    | some [] => .ok (braced (margin + 4) (margin + 3) (fields ++ ["\"ops\": []"]), margin, deepest)
    | some (op :: rest) =>
      let (first, after) ← op.write (level + 1) (margin + 3) (max deepest (level + 1))
      let margin' := marginAfter (level + 1) deepest after margin
      let (others, margin', deepest) ← writeRest level margin' after rest
      let text := "\"ops\": [" ++ Json.lineAt (margin + 5) ++ first ++ others ++
        Json.lineAt (margin' + 4) ++ "]"
      .ok (braced (margin + 4) (margin' + 3) (fields ++ [text]), margin', deepest)

def writeRest (level margin deepest : Nat) : List Op → Written (String × Nat × Nat)
  | [] => .ok ("", margin, deepest)
  | op :: rest => do
    let (text, after) ← op.write (level + 1) (margin + 3) (max deepest (level + 1))
    let margin' := marginAfter (level + 1) deepest after margin
    let (others, last, deepest) ← writeRest level margin' after rest
    .ok ("," ++ Json.lineAt (margin + 5) ++ text ++ others, last, deepest)

end

def writeOps (deepest : Nat) : List Op → Written (List String × Nat)
  | [] => .ok ([], deepest)
  | op :: rest => do
    let (text, deepest) ← op.write 0 0 deepest
    let (others, deepest) ← writeOps deepest rest
    .ok (text :: others, deepest)

def write (deepest : Nat) (d : Document) : Written (String × Nat) := do
  let fields ← Written.ofOption deepest <| Json.writeFields? 1
    [("name", .text d.name), ("args", Json.ofList? Typed.toJson d.args)]
  let (ops, deepest) ← match d.ops with
    | some ops => (writeOps deepest ops).map fun r => (Json.bracket "[" "]" 1 r.1, r.2)
    | none => .ok ("null", deepest)
  .ok (braced 1 0 (fields ++ ["\"ops\": " ++ ops]), deepest)

def encodeFrom (deepest : Nat) (d : Document) : Option String × Nat :=
  match d.write deepest with
  | .ok (text, deepest) => (some text, deepest)
  | .error deepest => (none, deepest)

def encode? (d : Document) : Option String := (encodeFrom 0 d).1

end TileLower.Document
