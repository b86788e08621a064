/-!
Names for printed values. A base name is used as it stands the first time and with a counter behind
it later; the empty base name asks for the next free number.
-/
namespace TileLower

structure UniqueNames where
  uses : List (String × Nat)
  next : Nat
  deriving Repr, DecidableEq

namespace UniqueNames

def empty : UniqueNames := ⟨[], 0⟩

def counter? (n : UniqueNames) (name : String) : Option Nat :=
  (n.uses.find? fun use => use.1 = name).map Prod.snd

def setCounter (n : UniqueNames) (name : String) (count : Nat) : UniqueNames :=
  { n with uses := (name, count) :: n.uses.filter fun use => use.1 ≠ name }

/-- The first number from `next` on that is not a name yet. Among `fuel + 1` numbers one is free
when fewer names than that are in use. -/
def freeNumber (n : UniqueNames) : Nat → Nat → Nat
  | 0, i => i
  | fuel + 1, i => if (n.counter? (toString i)).isSome then freeNumber n fuel (i + 1) else i

def number (n : UniqueNames) : String × UniqueNames :=
  let i := n.freeNumber n.uses.length n.next
  let name := toString i
  (name, { n.setCounter name 1 with next := i + 1 })

def name (n : UniqueNames) (base : String) : String × UniqueNames :=
  if base = "" then n.number
  else match n.counter? base with
    | none => (base, n.setCounter base 1)
    | some count =>
      let name := base ++ "_" ++ toString count
      (name, (n.setCounter base (count + 1)).setCounter name 1)

def nameAll (n : UniqueNames) : List String → List String
  | [] => []
  | base :: rest =>
    let (name, n) := n.name base
    name :: n.nameAll rest

end UniqueNames
end TileLower
