import TileLower.Json.Escape

/-!
Names of fields. A name is compared byte by byte with those that are known, without regard to the case
of ASCII letters. The first name in the list that begins with what was read is the one meant, if what
stands between the quotes is at least as long as the name.
-/
namespace TileLower.Json

structure Candidate where
  name : String
  rest : Bytes

def Candidate.ofName (name : String) : Candidate := ⟨name, Text.bytes name⟩

def lowerCase (b : UInt8) : UInt8 := if 0x41 ≤ b && b ≤ 0x5a then b + 0x20 else b

def Candidate.advance? (b : UInt8) (c : Candidate) : Option Candidate :=
  match c.rest with
  | [] => none
  | r :: rest => if r = lowerCase b then some { c with rest } else none

def advance (cs : List Candidate) (b : UInt8) : List Candidate := cs.filterMap (Candidate.advance? b)

def nameOf? (cs : List Candidate) (length : Nat) : Option String :=
  match cs with
  | [] => none
  | c :: _ => if (Text.bytes c.name).length ≤ length then some c.name else none

def unknownName (bs : Bytes) : Option (Option String × Bytes) :=
  (skipText bs).map fun rest => (none, rest)

def readNameFrom (src : Source) :
    Nat → List Candidate → Nat → Bytes → Option (Option String × Bytes)
  | 0, _, _, _ => none
  | _ + 1, _, _, [] => none
  | fuel + 1, cs, length, b :: rest =>
    match asChar b with
    | '"' => some (nameOf? cs length, rest)
    | '\x00' => none
    | '\\' => do
      let e ← keyEscape? src rest
      let left := e.bytes.foldl advance cs
      if left.isEmpty then unknownName (rest.drop e.resume)
      else readNameFrom src fuel left (length + e.taken + 1) (rest.drop e.taken)
    | _ =>
      let left := advance cs b
      if left.isEmpty then unknownName rest
      else readNameFrom src fuel left (length + 1) rest

def readName (src : Source) (names : List String) (bs : Bytes) : Option (Option String × Bytes) :=
  match bs with
  | 0x22 :: rest => some (none, rest)
  | bs => readNameFrom src bs.length (names.map Candidate.ofName) 0 bs

end TileLower.Json
