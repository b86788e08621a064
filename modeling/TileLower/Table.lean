/-!
Finite maps. A key has at most one cell; in which order the cells lie is not told.
-/
namespace TileLower

structure Table (κ : Type) (β : Type) where
  cells : List (κ × β)
  distinct : (cells.map Prod.fst).Nodup
  deriving Repr

namespace Table

variable {κ β : Type} [DecidableEq κ]

def empty : Table κ β := ⟨[], .nil⟩

def find? (t : Table κ β) (k : κ) : Option β := t.cells.lookup k

def contains (t : Table κ β) (k : κ) : Bool := (t.find? k).isSome

def size (t : Table κ β) : Nat := t.cells.length

def erase (t : Table κ β) (k : κ) : Table κ β where
  cells := t.cells.filter fun c => decide (c.1 ≠ k)
  distinct := t.distinct.sublist (List.filter_sublist.map Prod.fst)

def insert (t : Table κ β) (k : κ) (v : β) : Table κ β where
  cells := (k, v) :: (t.erase k).cells
  distinct := by
    refine List.nodup_cons.2 ⟨fun mem => ?_, (t.erase k).distinct⟩
    obtain ⟨c, found, same⟩ := List.mem_map.1 mem
    exact of_decide_eq_true (List.mem_filter.1 found).2 same

end Table
end TileLower
