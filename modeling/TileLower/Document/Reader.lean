import TileLower.Document.Basic
import TileLower.Json.Reader

/-!
Reading documents from JSON. What a document holds already stays where the text does not mention it.
-/
namespace TileLower.Document

open Json (Reader readRecord textOr)

def readItems {α : Type} (item : Nat → α → Reader α) (blank : α) (depth : Nat) (old : List α) :
    Reader (List α) := fun bs =>
  match depth with
  | 0 => none
  | depth + 1 => (Json.readList (item depth) blank old bs).map fun p => (p.1.getD [], p.2)

def readTyped : Nat → Typed → Reader Typed
  | 0, _ => fun _ => none
  | depth + 1, v => readRecord .whole depth ["name", "type"] field v
where
  field (name : String) (v : Typed) : Reader Typed := fun bs =>
    if name = "name" then (textOr .whole v.name bs).map fun p => ({ v with name := p.1 }, p.2)
    else (textOr .whole v.type bs).map fun p => ({ v with type := p.1 }, p.2)

def readSetting : Nat → Setting → Reader Setting
  | 0, _ => fun _ => none
  | depth + 1, s => readRecord .whole depth ["name", "value"] (field depth) s
where
  field (depth : Nat) (name : String) (s : Setting) : Reader Setting := fun bs =>
    if name = "name" then (textOr .whole s.name bs).map fun p => ({ s with name := p.1 }, p.2)
    else (Json.readValue depth bs).map fun p => ({ s with value := p.1 }, p.2)

def readTexts : Nat → List String → Reader (List String) := readItems (fun _ => textOr .whole) ""

def readTypeds : Nat → List Typed → Reader (List Typed) := readItems readTyped ⟨"", ""⟩

def readSettings : Nat → List Setting → Reader (List Setting) := readItems readSetting ⟨"", .null⟩

def Op.blank : Op := .mk "" [] [] [] none

def Block.blank : Block := .mk [] none

def readRegion (block : Block → Reader Block) (old : Option Block) : Reader (Option Block) := fun bs =>
  match Json.skipBlanks bs with
  | 0x6e :: rest => (Json.word .whole "ull" rest).map fun rest => (none, rest)
  | bs => (block (old.getD Block.blank) bs).map fun p => (some p.1, p.2)

def readOpField (block : Block → Reader Block) (depth : Nat) (name : String) : Op → Reader Op
  | .mk kind operands results attrs region => fun bs =>
    if name = "kind" then
      (textOr .whole kind bs).map fun p => (.mk p.1 operands results attrs region, p.2)
    else if name = "operands" then
      (readTexts depth operands bs).map fun p => (.mk kind p.1 results attrs region, p.2)
    else if name = "results" then
      (readTypeds depth results bs).map fun p => (.mk kind operands p.1 attrs region, p.2)
    else if name = "attrs" then
      (readSettings depth attrs bs).map fun p => (.mk kind operands results p.1 region, p.2)
    else
      (readRegion block region bs).map fun p => (.mk kind operands results attrs p.1, p.2)

def readBlockField (ops : List Op → Reader (Option (List Op))) (depth : Nat) (name : String) :
    Block → Reader Block
  | .mk args old => fun bs =>
    if name = "args" then (readTypeds depth args bs).map fun p => (.mk p.1 old, p.2)
    else (ops (old.getD []) bs).map fun p => (.mk args p.1, p.2)

mutual

def readOp : Nat → Op → Reader Op
  | 0, _ => fun _ => none
  | depth + 1, op =>
    readRecord .whole depth ["attrs", "kind", "operands", "region", "results"]
      (readOpField (readBlock depth) depth) op

def readBlock : Nat → Block → Reader Block
  | 0, _ => fun _ => none
  | depth + 1, b =>
    readRecord .whole depth ["args", "ops"] (readBlockField (readOps depth) depth) b

def readOps : Nat → List Op → Reader (Option (List Op))
  | 0, _ => fun _ => none
  | depth + 1, old => Json.readList (readOp depth) Op.blank old

end

def readArgs : Nat → List Typed → Reader (Option (List Typed))
  | 0, _ => fun _ => none
  | depth + 1, old => Json.readList (readTyped depth) ⟨"", ""⟩ old

def readField (depth : Nat) (name : String) (d : Document) : Reader Document := fun bs =>
  if name = "args" then
    (readArgs depth (d.args.getD []) bs).map fun p => ({ d with args := p.1 }, p.2)
  else if name = "name" then (textOr .whole d.name bs).map fun p => ({ d with name := p.1 }, p.2)
  else (readOps depth (d.ops.getD []) bs).map fun p => ({ d with ops := p.1 }, p.2)

def read : Reader Document :=
  let depth := Json.maxDepth - 1
  readRecord .whole depth ["args", "name", "ops"] (readField depth) ⟨"", none, none⟩

def decode? (s : String) : Option Document := Json.decodeWith? read s

end TileLower.Document
