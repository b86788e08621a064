/-!
Boxes of index vectors: all vectors with coordinates from zero to below given extents, the last
coordinate running fastest. They are counted through like the wheels of an odometer.
-/
namespace TileLower.Box

@[specialize]
def foldFrom {m : Type → Type} [Monad m] {β : Type} (f : β → Int64 → m β) : Nat → Int64 → β → m β
  | 0, _, b => pure b
  | n + 1, i, b => do
    let b ← f b i
    foldFrom f n (i + 1) b

@[inline]
def fold {m : Type → Type} [Monad m] {β : Type} (extent : Int64) (f : β → Int64 → m β) (b : β) :
    m β :=
  foldFrom f extent.toNatClampNeg 0 b

-- The coordinates before `i` are turned, the last of them first; one that reaches its extent goes
-- back to zero and the one before it is turned.
def advance (dims : List Int64) : Nat → List Int64 → Option (List Int64)
  | 0, _ => none
  | i + 1, idx =>
    let x := idx.getD i 0 + 1
    if x < dims.getD i 0 then some (idx.set i x) else advance dims i (idx.set i 0)

theorem advanceLength {dims : List Int64} {i : Nat} {idx next : List Int64}
    (more : advance dims i idx = some next) : next.length = idx.length := by
  induction i generalizing idx with
  | zero => cases more
  | succ i ih =>
    simp only [advance] at more
    split at more
    · cases more
      exact List.length_set
    · rw [ih more,List.length_set]

def room (dim x : Int64) : Nat := (dim.toInt - (x + 1).toInt).toNat

def roomLeft (dims idx : List Int64) : Nat → Nat
  | 0 => 0
  | i + 1 => roomLeft dims idx i * UInt64.size + room (dims.getD i 0) (idx.getD i 0)

theorem roomBelow (dim x : Int64) : room dim x < UInt64.size := by
  have := dim.toInt_lt
  have := (x + 1).le_toInt
  rw [room,UInt64.size]
  omega

theorem roomStep {dim x : Int64} (below : x + 1 < dim) : room dim (x + 1) < room dim x := by
  have low := Int64.lt_iff_toInt_lt.1 below
  have high := dim.toInt_lt
  have bottom := (x + 1).le_toInt
  have step : (x + 1 + 1).toInt = (x + 1).toInt + 1 := by
    rw [Int64.toInt_add,Int64.toInt_one,Int.bmod_eq_of_le (by omega) (by omega)]
  rw [room,room,step]
  omega

theorem roomLeftSet (dims idx : List Int64) (x : Int64) {i j : Nat} (le : i ≤ j) :
    roomLeft dims (idx.set j x) i = roomLeft dims idx i := by
  induction i with
  | zero => rfl
  | succ i ih =>
    have other : (idx.set j x).getD i 0 = idx.getD i 0 := by
      simp only [List.getD_eq_getElem?_getD,List.getElem?_set_ne (show j ≠ i by omega)]
    rw [roomLeft,roomLeft,ih (by omega),other]

-- A turn that carries gives up at most what the later coordinates can count.
theorem roomLeftAdvance {dims : List Int64} {i : Nat} {idx next : List Int64}
    (inside : i ≤ idx.length) (more : advance dims i idx = some next) :
    roomLeft dims next i < roomLeft dims idx i := by
  induction i generalizing idx with
  | zero => cases more
  | succ i ih =>
    simp only [advance] at more
    split at more
    case isTrue below =>
      cases more
      have here (x : Int64) : (idx.set i x).getD i 0 = x := by
        simp only [List.getD_eq_getElem?_getD,List.getElem?_set_self inside,Option.getD_some]
      have := roomStep below
      rw [roomLeft,roomLeft,roomLeftSet _ _ _ (Nat.le_refl i),here]
      omega
    case isFalse =>
      have less := ih (by rw [List.length_set]; omega) more
      rw [roomLeftSet _ _ _ (Nat.le_refl i)] at less
      have below := roomBelow (dims.getD i 0) (next.getD i 0)
      rw [roomLeft,roomLeft]
      rw [UInt64.size] at below ⊢
      omega

def visitFrom {m : Type → Type} [Monad m] (dims : List Int64) (f : List Int64 → m Unit)
    (idx : List Int64) (rank : idx.length = dims.length) : m Unit := do
  f idx
  match more : advance dims dims.length idx with
  | none => pure ()
  | some next => visitFrom dims f next ((advanceLength more).trans rank)
termination_by roomLeft dims idx dims.length
decreasing_by exact roomLeftAdvance (Nat.le_of_eq rank.symm) more

def each {m : Type → Type} [Monad m] (dims : List Int64) (f : List Int64 → m Unit) : m Unit :=
  if dims.any (· ≤ 0) then pure ()
  else visitFrom dims f (List.replicate dims.length 0) List.length_replicate

end TileLower.Box
