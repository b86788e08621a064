import TileLower.Proofs.Words
import TileLower.Eval.Box

/-! Boxes of index vectors, as lists of natural numbers. Running a step at each vector of a box is running
it along the list `grid`, in the order of the list. -/
namespace TileLower.Box

open List

def grid : List Nat → List (List Nat)
  | [] => [[]]
  | n :: ns => (range n).flatMap fun i => (grid ns).map (i :: ·)

abbrev Inside (is ns : List Nat) : Prop := Forall₂ (· < ·) is ns

theorem memGrid {is ns} : is ∈ grid ns ↔ Inside is ns := by
  induction ns generalizing is with
  | nil => simp [grid]
  | cons n ns ih =>
    simp only [grid,mem_flatMap,mem_range,mem_map,forall₂_cons_right_iff]
    constructor
    · rintro ⟨i,hi,js,hjs,rfl⟩
      exact ⟨i,js,hi,ih.mp hjs,rfl⟩
    · rintro ⟨i,js,hi,hjs,rfl⟩
      exact ⟨i,hi,js,ih.mpr hjs,rfl⟩

theorem insideIff {is ns : List Nat} :
    Inside is ns ↔ is.length = ns.length ∧ ∀ i n, ns[i]? = some n → is.getD i 0 < n := by
  constructor
  · intro inside
    induction inside with
    | nil => simp
    | cons below _ ih =>
      refine ⟨by simp [ih.1],fun i n found => ?_⟩
      cases i with
      | zero => simpa using (show _ < n from (by simpa using found : _ = n) ▸ below)
      | succ i => simpa using ih.2 i n (by simpa using found)
  · rintro ⟨length,below⟩
    induction ns generalizing is with
    | nil => simpa using length
    | cons n ns ih => cases is with
      | nil => simp at length
      | cons i is =>
        refine .cons (by simpa using below 0 n rfl) (ih (by simpa using length) fun j m found => ?_)
        simpa using below (j + 1) m (by simpa using found)

theorem gridNodup (ns : List Nat) : (grid ns).Nodup := by
  induction ns with
  | nil => simp [grid]
  | cons n ns ih =>
    refine nodup_flatMap.mpr ⟨fun i _ => ih.map fun _ _ h => (List.cons.inj h).2,?_⟩
    refine nodup_range.imp fun {i j} different => ?_
    intro v hv hw
    obtain ⟨is,_,rfl⟩ := mem_map.mp hv
    obtain ⟨js,_,same⟩ := mem_map.mp hw
    exact different (List.cons.inj same).1.symm

theorem gridEmpty {ns} (empty : 0 ∈ ns) : grid ns = [] := by
  induction ns with
  | nil => simp at empty
  | cons n ns ih =>
    rcases mem_cons.mp empty with rfl | rest
    · rfl
    · simp [grid,ih rest]

theorem gridLength (ns : List Nat) : (grid ns).length = ns.prod := by
  induction ns with
  | nil => rfl
  | cons n ns ih => simp [grid,length_flatMap,ih]

theorem insideZero {ns : List Nat} (pos : ∀ n ∈ ns, 0 < n) : Inside (ns.map fun _ => 0) ns := by
  induction ns with
  | nil => exact .nil
  | cons n ns ih => exact .cons (pos n (.head _)) (ih fun n mem => pos n (.tail _ mem))

theorem wordsZero (ns : List Nat) : words (ns.map fun _ => 0) = replicate ns.length 0 := by
  rw [words,map_map,← map_const']
  rfl

def upward : List Nat → List Nat → List (List Nat)
  | n :: ns, i :: is =>
    (upward ns is).map (i :: ·) ++ (range' (i + 1) (n - (i + 1))).flatMap fun j => (grid ns).map (j :: ·)
  | _, _ => [[]]

theorem upwardZero {ns : List Nat} (pos : ∀ n ∈ ns, 0 < n) : upward ns (ns.map fun _ => 0) = grid ns := by
  induction ns with
  | nil => rfl
  | cons n ns ih =>
    obtain ⟨k,rfl⟩ := Nat.exists_eq_add_one.mpr (pos n (.head _))
    rw [map_cons,upward,ih fun n mem => pos n (.tail _ mem),grid,range_eq_range',range'_succ,flatMap_cons]
    simp

/- Turning all coordinates of a vector is turning those after the first, and the first only if these are back at zero.
The coordinates from `i` on stay as they are. -/
theorem advanceCons (d x : Int64) (ds : List Int64) {i : Nat} {xs : List Int64} (inside : i ≤ xs.length) :
    advance (d :: ds) (i + 1) (x :: xs) = match advance ds i xs with
      | some ys => some (x :: ys)
      | none => if x + 1 < d then some ((x + 1) :: (replicate i 0 ++ xs.drop i)) else none := by
  induction i generalizing xs with
  | zero => simp [advance]
  | succ i ih =>
    have zeroed : replicate i 0 ++ (xs.set i 0).drop i = replicate (i + 1) (0 : Int64) ++ xs.drop (i + 1) := by
      rw [replicate_succ',append_assoc,drop_eq_getElem_cons (by rw [length_set]; omega),getElem_set_self,
        drop_set_of_lt (Nat.lt_succ_self i)]
      rfl
    rw [advance]
    simp only [getD_cons_succ,set_cons_succ]
    rw [ih (by rw [length_set]; omega),zeroed,advance]
    split <;> rfl

theorem insidePos {is ns : List Nat} (inside : Inside is ns) : ∀ n ∈ ns, 0 < n := by
  induction inside with
  | nil => exact fun _ mem => absurd mem not_mem_nil
  | cons below _ ih => exact forall_mem_cons.mpr ⟨Nat.zero_lt_of_lt below,ih⟩

theorem upwardStep {ns is : List Nat} (small : Small ns) (inside : Inside is ns) :
    advance (words ns) ns.length (words is) = none ∧ upward ns is = [is] ∨
      ∃ js, Inside js ns ∧ advance (words ns) ns.length (words is) = some (words js) ∧
        upward ns is = is :: upward ns js := by
  induction inside with
  | nil => exact .inl ⟨rfl,rfl⟩
  | @cons i n is ns below inside ih =>
    have rank : ns.length = (words is).length := by rw [wordsLength,inside.length_eq]
    have step := advanceCons (Int64.ofNat n) (Int64.ofNat i) (words ns) rank.le
    have turned : Int64.ofNat i + 1 = Int64.ofNat (i + 1) := Word.addWords i 1
    have turns : Int64.ofNat i + 1 < Int64.ofNat n ↔ i + 1 < n := by
      rw [turned,Word.ofNatLtIff (Nat.lt_of_le_of_lt below small.head) small.head]
    rcases ih small.tail with ⟨last,only⟩ | ⟨js,inside',next,more⟩
    · rw [last] at step
      have pos := insidePos inside
      by_cases room : i + 1 < n
      · have left : n - (i + 1) = n - (i + 1 + 1) + 1 := by omega
        refine .inr ⟨(i + 1) :: ns.map fun _ => 0,.cons room (insideZero pos),?_,?_⟩
        · rw [wordsCons _ (ns.map fun _ => 0),wordsZero,← turned]
          rw [rank,drop_length,append_nil,← rank] at step
          exact step.trans (if_pos (turns.mpr room))
        · rw [upward,only,left,range'_succ,flatMap_cons,upward,upwardZero pos]
          rfl
      · refine .inl ⟨step.trans (if_neg (turns.not.mpr room)),?_⟩
        rw [upward,only,show n - (i + 1) = 0 by omega]
        rfl
    · rw [next] at step
      exact .inr ⟨i :: js,.cons below inside',step,by rw [upward,more,upward]; rfl⟩

section Runs

variable {m : Type → Type} [Monad m]

def along {ι : Type} : List ι → (ι → m Unit) → m Unit
  | [], _ => pure ()
  | i :: is, f => do
    f i
    along is f

theorem alongAppend [LawfulMonad m] {ι} (is js : List ι) (f : ι → m Unit) :
    along (is ++ js) f = (along is f >>= fun _ => along js f) := by
  induction is with
  | nil => simp [along]
  | cons i is ih => simp [along,ih]

theorem alongMap {ι κ} (is : List ι) (g : ι → κ) (f : κ → m Unit) :
    along (is.map g) f = along is fun i => f (g i) := by
  induction is with
  | nil => rfl
  | cons i is ih => simp [along,ih]

theorem visitLast {dims idx : List Int64} (last : advance dims dims.length idx = none) (f : List Int64 → m Unit)
    (rank : idx.length = dims.length) : visitFrom dims f idx rank = (f idx >>= fun _ => pure ()) := by
  rw [visitFrom]
  split
  · rfl
  · rename_i more
    rw [last] at more
    cases more

theorem visitNext {dims idx next : List Int64} (more : advance dims dims.length idx = some next)
    (f : List Int64 → m Unit) (rank : idx.length = dims.length) :
    visitFrom dims f idx rank =
      (f idx >>= fun _ => visitFrom dims f next ((advanceLength more).trans rank)) := by
  rw [visitFrom]
  split
  · rename_i last
    rw [last] at more
    cases more
  · rename_i other found
    obtain rfl : other = next := Option.some.inj (found.symm.trans more)
    rfl

-- The vectors up from one of the box, along which the odometer is still to go.
theorem visitAlong [LawfulMonad m] {ns : List Nat} (small : Small ns) (f : List Int64 → m Unit) {is : List Nat}
    (inside : Inside is ns) (rank : (words is).length = (words ns).length) :
    visitFrom (words ns) f (words is) rank = along (upward ns is) fun js => f (words js) := by
  induction left : (upward ns is).length generalizing is with
  | zero =>
    rcases upwardStep small inside with ⟨-,only⟩ | ⟨_,-,-,more⟩
    · simp [only] at left
    · simp [more] at left
  | succ n ih =>
    rcases upwardStep small inside with ⟨last,only⟩ | ⟨js,inside',next,more⟩
    · rw [visitLast (by rwa [wordsLength]),only]
      rfl
    · have fewer : (upward ns js).length = n := by simpa [more] using left
      rw [visitNext (by rwa [wordsLength]),ih inside' _ fewer,more]
      rfl

theorem eachAlong [LawfulMonad m] {ns} (small : Small ns) (f : List Int64 → m Unit) :
    each (words ns) f = along (grid ns) fun is => f (words is) := by
  unfold each
  split
  · rename_i found
    obtain ⟨d,hd,le⟩ := any_eq_true.mp found
    obtain ⟨n,hn,rfl⟩ := mem_map.mp hd
    have zero : n = 0 := by
      have : Int64.ofNat n ≤ Int64.ofNat 0 := by simpa using le
      rw [Word.ofNatLeIff (small n hn) (by decide)] at this
      omega
    rw [gridEmpty (zero ▸ hn)]
    rfl
  · rename_i positive
    have pos (n : Nat) (mem : n ∈ ns) : 0 < n := by
      refine Nat.pos_of_ne_zero fun zero => positive (any_eq_true.mpr ⟨0,?_,rfl⟩)
      exact mem_map.mpr ⟨n,mem,by rw [zero]; rfl⟩
    have start : replicate (words ns).length 0 = words (ns.map fun _ => 0) := by
      rw [wordsLength,wordsZero]
    simp only [start]
    rw [visitAlong small f (insideZero pos),upwardZero pos]

end Runs

def coordinates (extent : Int64) : List Int64 :=
  (range extent.toNatClampNeg).map Int64.ofNat

def indices : List Int64 → List (List Int64)
  | [] => [[]]
  | d :: ds => (coordinates d).flatMap fun i => (indices ds).map (i :: ·)

theorem indicesWords {ns} (small : Small ns) : indices (words ns) = (grid ns).map words := by
  induction ns with
  | nil => rfl
  | cons n ns ih =>
    simp only [wordsCons,indices,grid,coordinates,Word.toNatOfNat small.head,ih small.tail,map_flatMap,
      flatMap_map,map_map]
    rfl

theorem indicesEmpty {dims : List Int64} {d} (mem : d ∈ dims) (le : d ≤ 0) : indices dims = [] := by
  induction mem with
  | head ds =>
    have none_ : d.toNatClampNeg = 0 := by
      rw [Int64.le_iff_toInt_le] at le
      rw [← Int64.toNat_toInt]
      exact Int.toNat_of_nonpos le
    rw [indices,coordinates,none_]
    rfl
  | tail d' _ ih => simp [indices,ih]

theorem eachIndices {m : Type → Type} [Monad m] [LawfulMonad m] (dims : List Int64) (f : List Int64 → m Unit) :
    each dims f = along (indices dims) f := by
  by_cases empty : ∃ d ∈ dims, d ≤ 0
  · obtain ⟨d,mem,le⟩ := empty
    rw [each,if_pos (any_eq_true.mpr ⟨d,mem,decide_eq_true le⟩),indicesEmpty mem le]
    rfl
  · obtain ⟨ns,small,rfl⟩ := wordsOfNonneg fun d mem =>
      Int64.le_of_lt (Int64.not_le.mp fun le => empty ⟨d,mem,le⟩)
    rw [eachAlong small,indicesWords small,alongMap]

end TileLower.Box
