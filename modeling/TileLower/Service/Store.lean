import TileLower.Service.Report

/-!
Results of compilations, kept by their identifiers.
-/
namespace TileLower

namespace OrderedMap

variable {κ β : Type} [DecidableEq κ]

def take (m : OrderedMap κ β) (k : κ) : Option β × OrderedMap κ β := (m.load? k, m.delete k)

end OrderedMap

namespace Service

structure Result where
  id : String
  createdAt : Int64
  status : String
  passes : List Report
  text : String
  error : String
  deriving Inhabited

def Result.toJson (r : Result) : Json :=
  .object <|
    [("id", .text r.id), ("created_at", .int r.createdAt), ("status", .text r.status)] ++
    Json.optionalList "passes" Report.toJson r.passes ++
    Json.optionalText "text" r.text ++ Json.optionalText "error" r.error

structure Store where
  results : OrderedMap String Result

namespace Store

def empty : Store := ⟨OrderedMap.empty⟩

def save (s : Store) (r : Result) : Store := ⟨s.results.store r.id r⟩

def get? (s : Store) (id : String) : Option Result := s.results.load? id

def delete (s : Store) (id : String) : Bool × Store :=
  let (r, results) := s.results.take id
  (r.isSome, ⟨results⟩)

def size (s : Store) : Nat := s.results.size

def expire (s : Store) (before : Int64) : Nat × Store :=
  s.results.entries.foldl (fun (n, s) e =>
    if before ≤ e.2.createdAt then (n, s)
    else
      let (found, s) := s.delete e.1
      (if found then n + 1 else n, s)) (0, s)

end Store
end Service
end TileLower
