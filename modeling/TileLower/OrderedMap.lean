import TileLower.Table

/-!
Maps that keep the order in which keys were first stored: a list of the keys beside the table of
their values. Storing a present key changes its value in place; a key that was deleted and stored
again comes last.
-/
namespace TileLower

structure OrderedMap (κ : Type) (β : Type) where
  keys : List κ
  table : Table κ β
  deriving Repr

namespace OrderedMap

variable {κ β : Type} [DecidableEq κ]

def empty : OrderedMap κ β := ⟨[], .empty⟩

instance : Inhabited (OrderedMap κ β) := ⟨empty⟩

def size (m : OrderedMap κ β) : Nat := m.keys.length

def load? (m : OrderedMap κ β) (k : κ) : Option β := m.table.find? k

def contains (m : OrderedMap κ β) (k : κ) : Bool := m.table.contains k

def store (m : OrderedMap κ β) (k : κ) (v : β) : OrderedMap κ β where
  keys := if m.table.contains k then m.keys else m.keys ++ [k]
  table := m.table.insert k v

def delete (m : OrderedMap κ β) (k : κ) : OrderedMap κ β :=
  if m.table.contains k then ⟨m.keys.erase k, m.table.erase k⟩ else m

section Iteration

variable [Inhabited β]

-- A key that is not in the table would be listed with a value by default.
def entries (m : OrderedMap κ β) : List (κ × β) := m.keys.map fun k => (k, (m.table.find? k).getD default)

def values (m : OrderedMap κ β) : List β := m.keys.map fun k => (m.table.find? k).getD default

def clone (m : OrderedMap κ β) : OrderedMap κ β := m.entries.foldl (fun r e => r.store e.1 e.2) empty

end Iteration

end OrderedMap
end TileLower
