import TileLower.Graph.Walk
import TileLower.UniqueNames

/-!
The text of a function. Values get unique names as they are met, from the name they prefer; an
operand that was not defined before is named where it is used, before the results.
-/
namespace TileLower.Graph

structure Namer where
  names : List (Value × String)
  unique : UniqueNames

namespace Namer

def empty : Namer := ⟨[], UniqueNames.empty⟩

def define (g : Graph) (v : Value) (n : Namer) : String × Namer :=
  let (name, unique) := n.unique.name (g.slot v).name
  let name := "%" ++ name
  (name, ⟨(v, name) :: n.names, unique⟩)

def defineAll (g : Graph) : List Value → Namer → List String × Namer
  | [], n => ([], n)
  | v :: rest, n =>
    let (name, n) := n.define g v
    let (names, n) := defineAll g rest n
    (name :: names, n)

def lookup (n : Namer) (v : Value) : Option String :=
  (n.names.find? fun e => e.1 = v).map Prod.snd

def operand (g : Graph) (v : Option Value) (n : Namer) : String × Namer :=
  match v with
  | none => ("%<nil>", n)
  | some v =>
    match n.lookup v with
    | some name => (name, n)
    | none => n.define g v

def operands (g : Graph) : List (Option Value) → Namer → List String × Namer
  | [], n => ([], n)
  | v :: rest, n =>
    let (name, n) := n.operand g v
    let (names, n) := operands g rest n
    (name :: names, n)

end Namer

def indent (depth : Nat) : String := String.join (List.replicate depth "  ")

inductive Piece where
  | text (value : String)
  | name (value : String)
  deriving DecidableEq, Repr, Inhabited

namespace Piece

def value : Piece → String
  | .text s => s
  | .name s => s

def name? : Piece → Option String
  | .text _ => none
  | .name s => some s

def join (pieces : List Piece) : String := String.join (pieces.map value)

def commas : List (List Piece) → List Piece
  | [] => []
  | [group] => group
  | group :: rest => group ++ .text ", " :: commas rest

end Piece

def operandPiece (v : Option Value) (name : String) : Piece :=
  if v.isSome then .name name else .text name

def printArgs (g : Graph) (b : BlockId) (n : Namer) : List Piece × Namer :=
  let args := g.argumentsOf b
  let (names, n) := n.defineAll g args
  (Piece.commas (names.zipWith (fun name v =>
    [.name name, .text (": " ++ (g.typeOf v).render)]) args), n)

def printHead (g : Graph) (id : OpId) (n : Namer) : List Piece × Namer :=
  let op := g.op id
  let (operands, n) := n.operands g op.operands
  let (results, n) := n.defineAll g (g.resultsOf id)
  let left := if results.isEmpty then []
    else Piece.commas (results.map fun r => [.name r]) ++ [.text " = "]
  let operands := Piece.commas (op.operands.zipWith (fun v name => [operandPiece v name]) operands)
  let attrs := op.attrs.render
  let attrs := if attrs = "" then "" else " " ++ attrs
  let types := if results.isEmpty then ""
    else " : " ++ ", ".intercalate (op.results.map fun s => s.type.render)
  (left ++ .text (op.kind ++ "(") :: operands ++ [.text (")" ++ attrs ++ types)], n)

def printOp (g : Graph) (region : Nat → BlockId → Namer → List Piece × Namer) (depth : Nat)
    (id : OpId) (n : Namer) : List Piece × Namer :=
  let (head, n) := g.printHead id n
  match (g.op id).region with
  | none => (.text (indent depth) :: head ++ [.text "\n"], n)
  | some r =>
    let (inner, n) := region depth r n
    (.text (indent depth) :: head ++ .text " \x7b\n" :: inner ++ [.text (indent depth ++ "\x7d\n")], n)

def printOps (g : Graph) (region : Nat → BlockId → Namer → List Piece × Namer) (depth : Nat) :
    List OpId → Namer → List Piece × Namer
  | [], n => ([], n)
  | id :: rest, n =>
    let (first, n) := printOp g region depth id n
    let (others, n) := printOps g region depth rest n
    (first ++ others, n)

def printBlock (g : Graph) : Nat → Nat → BlockId → Namer → List Piece × Namer
  | 0, _, _, n => ([], n)
  | fuel + 1, depth, b, n =>
    let (head, n) :=
      if (g.block b).args.isEmpty then ([], n)
      else
        let (args, n) := g.printArgs b n
        (.text (indent depth ++ "^bb(") :: args ++ [.text "):\n"], n)
    let (ops, n) := printOps g (printBlock g fuel) (depth + 1) (g.block b).ops n
    (head ++ ops, n)

def printRegion (g : Graph) : Nat → BlockId → Namer → List Piece × Namer :=
  g.printBlock g.blocks.size

def pieces (g : Graph) : List Piece :=
  let (args, n) := g.printArgs body Namer.empty
  let (ops, _) := g.printOps g.printRegion 1 (g.block body).ops n
  .text ("func @" ++ g.name ++ "(") :: args ++ .text ") \x7b\n" :: ops ++ [.text "\x7d\n"]

def print (g : Graph) : String := Piece.join g.pieces

def printSingle (g : Graph) (id : OpId) : String :=
  let (text, _) := g.printOp g.printRegion 0 id Namer.empty
  String.ofList (Piece.join text).toList.dropLast

def printValue (g : Graph) (v : Value) : String :=
  let s := g.slot v
  if s.name = "" then s.type.render else "%" ++ s.name ++ ": " ++ s.type.render

end TileLower.Graph
