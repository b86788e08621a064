import TileLower.Json.Reader
import TileLower.Service.Path
import TileLower.Service.Store

/-!
Requests to the service and its replies.
-/
namespace TileLower.Service

structure Request where
  config : String
  emit : String
  deriving DecidableEq, Repr

namespace Request

def readField (name : String) (r : Request) : Json.Reader Request := fun bs =>
  if name = "config" then
    (Json.textOr .stream r.config bs).map fun p => ({ r with config := p.1 }, p.2)
  else (Json.textOr .stream r.emit bs).map fun p => ({ r with emit := p.1 }, p.2)

def read : Json.Reader Request :=
  Json.readRecord .stream (Json.maxDepth - 1) ["config", "emit"] readField ⟨"", ""⟩

def decode? (s : String) : Option Request := Json.decodeFirst? read s

end Request

structure Reply where
  status : Nat
  body : Json

namespace Reply

def failure (status : Nat) (type message : String) : Reply :=
  ⟨status, .object [("error", .object [("message", .text message), ("type", .text type)])]⟩

def notFound : Reply := failure 404 "not_found_error" "compilation not found"

def noRoute : Reply := ⟨404, .object [("message", .text "Not Found")]⟩

end Reply

def handleGet (s : Store) (id : String) : Reply :=
  match s.get? id with
  | some r => ⟨200, r.toJson⟩
  | none => Reply.notFound

def handleDelete (s : Store) (id : String) : Reply × Store :=
  match s.delete id with
  | (true, s) => (⟨200, .object [("id", .text id), ("deleted", .bool true)]⟩, s)
  | (false, s) => (Reply.notFound, s)

def route {α : Type} (target : String) (handle : String → α) (refuse : Reply → α) : Outcome α := do
  let bs ← Path.idBytes target
  if bs.isEmpty then return refuse Reply.noRoute
  match Text.ofBytes? bs with
  | some id => return handle id
  | none => return refuse Reply.notFound

def get (s : Store) (target : String) : Outcome Reply := route target (handleGet s) id

def delete (s : Store) (target : String) : Outcome (Reply × Store) :=
  route target (handleDelete s) fun r => (r, s)

end TileLower.Service
