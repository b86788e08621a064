import TileLower.Proofs.Structured

/-!
Products of matrices as primitives. For one element of the output a loop nest and a primitive take the same products
in the same order.
-/
namespace TileLower

open Outcome List Int64

theorem foldlMFlatMap {ι κ ν} (is : List ι) (p : ι → List κ) (f : ν → κ → Outcome ν) (v : ν) :
    (is.flatMap p).foldlM f v = is.foldlM (fun v i => (p i).foldlM f v) v := by
  induction is generalizing v with
  | nil => rfl
  | cons i is ih =>
    rw [flatMap_cons,foldlM_append,foldlM_cons]
    exact congrArg _ (funext ih)

theorem foldlMBeside {ι μ ν : Type} {f : μ → ι → Outcome μ} {h : ν → ι → Outcome ν} (R : μ → ν → Prop) {is : List ι}
    (one : ∀ i ∈ is, ∀ u v w, R u v → f u i = .ok w → ∃ x, h v i = .ok x ∧ R w x) {u w : μ} {v : ν} (related : R u v)
    (ok : is.foldlM f u = .ok w) : ∃ x, is.foldlM h v = .ok x ∧ R w x := by
  induction is generalizing u v with
  | nil =>
    cases ok
    exact ⟨v,rfl,related⟩
  | cons i is ih =>
    rw [foldlM_cons] at ok
    obtain ⟨d,first,ok⟩ := bindOk.mp ok
    obtain ⟨x,step,related⟩ := one i (.head _) u v d related first
    obtain ⟨y,rest,related⟩ := ih (fun i mem => one i (.tail _ mem)) related ok
    exact ⟨y,by rw [foldlM_cons,step]; exact rest,related⟩

namespace Eval

open Box (Inside grid)

variable {α : Type}

theorem foldFromRun {β : Type} {f : β → Int64 → Exec α β} {h : β → Nat → Outcome β} {s : Machine α}
    (one : ∀ b c i, h b i = .ok c → f b (ofNat i) s = .ok c s) {n k : Nat} {b c : β}
    (ok : (range' k n).foldlM h b = .ok c) : Box.foldFrom f n (ofNat k) b s = .ok c s := by
  induction n generalizing k b with
  | zero =>
    cases ok
    rfl
  | succ n ih =>
    rw [range'_succ,foldlM_cons] at ok
    obtain ⟨d,first,rest⟩ := bindOk.mp ok
    have next : ofNat k + 1 = ofNat (k + 1) := Word.addWords k 1
    rw [Box.foldFrom,Step.bindOfOk (one b d k first),next]
    exact ih rest

theorem foldRun {β : Type} {f : β → Int64 → Exec α β} {h : β → Nat → Outcome β} {s : Machine α}
    (one : ∀ b c i, h b i = .ok c → f b (ofNat i) s = .ok c s) {n : Nat} (small : n < wordBound) {b c : β}
    (ok : (range n).foldlM h b = .ok c) : Box.fold (ofNat n) f b s = .ok c s := by
  rw [Box.fold,Word.toNatOfNat small]
  exact foldFromRun (k := 0) one (by rwa [← range_eq_range'])

theorem gridOnly (ns k : List Nat) : (grid ns).filter (id · = k) = if k ∈ grid ns then [k] else [] := by
  rw [filter_congr (q := (· == k)) fun x _ => by simp [Bool.beq_eq_decide_eq],filter_beq]
  split
  · rename_i inside
    rw [count_eq_one_of_mem (Box.gridNodup ns) inside,replicate_one]
  · rename_i outside
    rw [count_eq_zero.mpr outside,replicate_zero]

variable [Scalar α]

def addProduct (a b : NdArray α) (left : List Int64) (right : Outcome (List Int64)) (sum : α) : Outcome α := do
  let x ← a.get left
  let y ← b.get (← right)
  .ok (Scalar.add sum (Scalar.mul x y))

def addProducts (c : Contraction) (batch depth : Nat) (a b : NdArray α) (i j : Nat) (sum : α) : Outcome α :=
  (range batch).foldlM (fun sum t => (range depth).foldlM (fun sum k =>
    addProduct a b (c.left (ofNat t) (ofNat i) (ofNat k))
      (c.right (ofNat t) (ofNat k) (ofNat j)) sum) sum) sum

def contractPoint (c : Contraction) (a b out : Ref) (idx : List Int64) : Exec α Unit := do
  let acc ← load out idx
  match idx with
  | i :: j :: _ => store out idx (← accumulate c a b i j acc)
  | short =>
    if c.batch ≤ 0 ∨ c.depth ≤ 0 then store out idx acc
    else
      if let [i] := short then let _ ← load a (c.left 0 i 0)
      abort

theorem contractPoints (c : Contraction) (a b out : Ref) (s : Machine α) :
    contract c a b out s = Box.each (s.arrayAt out).type.dims (contractPoint c a b out) s := rfl

def contractStep (c : Contraction) (batch depth : Nat) (a b : NdArray α) (idx : List Nat) (v : List α) : Outcome (List α) := do
  .ok [← addProducts c batch depth a b (idx.getD 0 0) (idx.getD 1 0) (v.getD 0 Scalar.zero)]

structure Contraction.Counts (c : Contraction) (batch depth : Nat) : Prop where
  batchIs : c.batch = ofNat batch
  depthIs : c.depth = ofNat depth
  smallBatch : batch < wordBound
  smallDepth : depth < wordBound

section Contract

variable {c : Contraction} {batch depth m n : Nat} (counts : c.Counts batch depth) {a b out : Ref} {s : Machine α}

include counts in
theorem accumulateRun {i j : Nat} {v w : α} (ok : addProducts c batch depth (s.arrayAt a) (s.arrayAt b) i j v = .ok w) :
    accumulate c a b (ofNat i) (ofNat j) v s = .ok w s := by
  rw [accumulate,counts.batchIs,counts.depthIs]
  unfold addProducts at ok
  refine foldRun (fun v w t inner => ?_) counts.smallBatch ok
  refine foldRun (fun v w k ok => ?_) counts.smallDepth inner
  obtain ⟨x,left,ok⟩ := bindOk.mp ok
  obtain ⟨idx,at_,ok⟩ := bindOk.mp ok
  obtain ⟨y,right,ok⟩ := bindOk.mp ok
  cases ok
  have loadA : load a (c.left (ofNat t) (ofNat i) (ofNat k)) s = .ok x s := liftOk.mpr ⟨left,rfl⟩
  have loadB : load b idx s = .ok y s := liftOk.mpr ⟨right,rfl⟩
  rw [Step.bindOfOk loadA,at_,Step.bindOfOk (x := lift _) rfl,Step.bindOfOk loadB]
  rfl

variable (left : out ≠ a) (right : out ≠ b)

include counts left right

theorem contractPointFollows {u e d} (shows_ : Shows s [(.identityOf 2, out)] [m, n] e u) {idx}
    (inside : Inside idx [m, n])
    (stepped : keyedStep id (contractStep c batch depth (s.arrayAt a) (s.arrayAt b)) e idx = .ok d) :
    ∃ t, contractPoint c a b out (words idx) u = .ok () t ∧ Shows s [(.identityOf 2, out)] [m, n] d t := by
  obtain ⟨w,step,same⟩ := bindOk.mp stepped
  cases same
  obtain ⟨y,sums,same⟩ := bindOk.mp step
  cases same
  obtain ⟨full,-⟩ := shows_.full _ (mem_singleton.mpr rfl)
  have cell : [(u.arrayAt out).cell [m, n] idx] = e idx := shows_.cells idx (.inr inside)
  obtain ⟨i,j,rfl⟩ := length_eq_two.mp inside.length_eq
  obtain ⟨t,stored,shown⟩ : ∃ t, storeAll (words [i, j]) ([(AffineMap.identityOf 2, out)].zip [y]) u = .ok () t ∧
      Shows s [(.identityOf 2, out)] [m, n] (Function.update e [i, j] [y]) t := storeShows (by simp)
    (fun p mem => by rw [mem_singleton.mp mem]; rfl) shows_ (.inr inside) rfl
  refine ⟨t,?_,shown⟩
  have loaded : load out (words [i, j]) u = .ok ((u.arrayAt out).cell [m, n] [i, j]) u := liftOk.mpr ⟨full.get inside,rfl⟩
  have summed : accumulate c a b (ofNat i) (ofNat j) ((u.arrayAt out).cell [m, n] [i, j]) u = .ok y u := by
    refine accumulateRun counts ?_
    rw [shows_.other a (by simpa using left),shows_.other b (by simpa using right)]
    rw [id_eq,← cell] at sums
    exact sums
  have written : store out (words [i, j]) y u = .ok () t := by
    obtain ⟨_,_,written,ended⟩ := Step.bindOk.mp (show (store out (words [i, j]) y >>= fun _ => pure ()) u = .ok () t from stored)
    cases ended
    exact written
  rw [contractPoint,Step.bindOfOk loaded]
  exact (Step.bindOfOk summed _).trans written

theorem contractRun (full : (s.arrayAt out).Full [m, n]) {e}
    (sums : ∀ i j, i < m → j < n → ∃ y, e [i, j] = [y] ∧ addProducts c batch depth (s.arrayAt a) (s.arrayAt b) i j
      ((s.arrayAt out).cell [m, n] [i, j]) = .ok y) :
    ∃ t, contract c a b out s = .ok () t ∧ Shows s [(.identityOf 2, out)] [m, n] e t := by
  let final (k : List Nat) : List α := if k ∈ grid [m, n] then e k else tuple s [(.identityOf 2, out)] [m, n] k
  have folds (k : List Nat) : ((grid [m, n]).filter (id · = k)).foldlM (fun v idx =>
      contractStep c batch depth (s.arrayAt a) (s.arrayAt b) idx v) (tuple s [(.identityOf 2, out)] [m, n] k) =
        .ok (final k) := by
    rw [gridOnly]
    by_cases mem : k ∈ grid [m, n]
    · have inside := Box.memGrid.mp mem
      obtain ⟨i,j,rfl⟩ := length_eq_two.mp inside.length_eq
      obtain ⟨hi,rest⟩ := forall₂_cons.mp inside
      obtain ⟨hj,-⟩ := forall₂_cons.mp rest
      obtain ⟨y,same,sum⟩ := sums i j hi hj
      have step : contractStep c batch depth (s.arrayAt a) (s.arrayAt b) [i, j]
          (tuple s [(.identityOf 2, out)] [m, n] [i, j]) = .ok [y] := by
        refine bindOk.mpr ⟨y,sum,rfl⟩
      rw [if_pos mem,foldlM_cons,step,bindOfOk]
      simp only [final,if_pos mem,same]
      rfl
    · rw [if_neg mem]
      simp only [final,if_neg mem]
      rfl
  obtain ⟨t,ran,shows_⟩ := alongFollows (keyedStep id (contractStep c batch depth (s.arrayAt a) (s.arrayAt b)))
    (Shows s [(.identityOf 2, out)] [m, n]) (fun idx mem e d u shows_ stepped =>
      contractPointFollows counts left right shows_ (Box.memGrid.mp mem) stepped)
    (showsStart (by simpa using full)) ((keyedLoopOk id _).mpr folds)
  refine ⟨t,?_,shows_.env,shows_.size,shows_.other,shows_.full,fun k at_ => ?_⟩
  · rw [contractPoints,full.dims,Box.eachAlong full.small,ran]
  · have inside : Inside k [m, n] := at_.resolve_left (by simp)
    rw [shows_.cells k at_]
    exact if_pos (Box.memGrid.mpr inside)

end Contract

variable (α) in
def Accumulates (g : Graph) (b : BlockId) : Prop :=
  ∀ (x y z : α) ys, evalBody g b [x, y, z] = .ok ys → ys = [Scalar.add z (Scalar.mul x y)]

section Nest

variable {c : Contraction} {mx my : AffineMap} {es : List Nat} {m n batch depth i j : Nat} {key : List Nat → List Nat}
  {place : Nat → Nat → List Nat} {g : Graph} {blk : BlockId} {a b a' b' : NdArray α}

variable (mx my) in
theorem accumulated (accumulates : Accumulates α g blk)
    (points : (grid es).filter (key · = [i, j]) = (range batch).flatMap fun t => (range depth).map (place t))
    (left : ∀ t < batch, ∀ k < depth, ∀ x, (do a.get (← mx.eval (words (place t k)))) = .ok x →
      a'.get (c.left (ofNat t) (ofNat i) (ofNat k)) = .ok x)
    (right : ∀ t < batch, ∀ k < depth, ∀ x, (do b.get (← my.eval (words (place t k)))) = .ok x →
      (do b'.get (← c.right (ofNat t) (ofNat k) (ofNat j))) = .ok x) {x : α} {w : List α}
    (ok : ((grid es).filter (key · = [i, j])).foldlM (fun v idx =>
      nestStep g blk 1 [m, n] (readAll (words idx) [(mx, a), (my, b)]) (key idx) v) [x] = .ok w) :
    ∃ y, w = [y] ∧ addProducts c batch depth a' b' i j x = .ok y := by
  have step {t k : Nat} (ht : t < batch) (hk : k < depth) {v w : List α} {y : α} (same : v = [y])
      (ok : nestStep g blk 1 [m, n] (readAll (words (place t k)) [(mx, a), (my, b)]) (key (place t k)) v = .ok w) :
      ∃ z, addProduct a' b' (c.left (ofNat t) (ofNat i) (ofNat k))
        (c.right (ofNat t) (ofNat k) (ofNat j)) y = .ok z ∧ w = [z] := by
    subst same
    obtain ⟨⟨xs,read,body⟩,-,-⟩ := nestStepOk.mp ok
    obtain ⟨p,first,read⟩ := bindOk.mp read
    obtain ⟨x₁,got,read⟩ := bindOk.mp read
    obtain ⟨xs',read,same⟩ := bindOk.mp read
    obtain ⟨q,second,read⟩ := bindOk.mp read
    obtain ⟨x₂,got',read⟩ := bindOk.mp read
    cases read
    cases same
    refine ⟨Scalar.add y (Scalar.mul x₁ x₂),?_,accumulates x₁ x₂ y w body⟩
    obtain ⟨idx,at_,value⟩ := bindOk.mp (right t ht k hk x₂ (bindOk.mpr ⟨q,second,got'⟩))
    rw [addProduct,left t ht k hk x₁ (bindOk.mpr ⟨p,first,got⟩),bindOfOk,at_,bindOfOk,value,
      bindOfOk]
  rw [points,foldlMFlatMap] at ok
  obtain ⟨y,sums,same⟩ := foldlMBeside (fun (v : List α) y => v = [y]) (h := fun sum t =>
    (range depth).foldlM (fun sum k => addProduct a' b' (c.left (ofNat t) (ofNat i) (ofNat k))
      (c.right (ofNat t) (ofNat k) (ofNat j)) sum) sum) (fun t ht v y w same ok => by
    rw [foldlM_map] at ok
    exact foldlMBeside (fun (v : List α) y => v = [y]) (fun k hk v y w same ok =>
      step (mem_range.mp ht) (mem_range.mp hk) same ok) same ok) rfl ok
  exact ⟨y,same,sums⟩

end Nest

section Primitives

omit [Scalar α] in
theorem valuesRun {g} {s : Machine α} {vs : List Value} {rs : List Ref} (bound : vs.map s.env = rs.map some) :
    values g (vs.map some) s = .ok rs s := by
  induction vs generalizing rs with
  | nil =>
    obtain rfl : rs = [] := by simpa using bound.symm
    rfl
  | cons v vs ih =>
    cases rs with
    | nil => cases bound
    | cons r rs =>
      obtain ⟨here,rest⟩ := List.cons.inj bound
      rw [map_cons,values,Step.bindOfOk (valueRun here),Step.bindOfOk (ih rest)]
      rfl

omit [Scalar α] in
theorem primitiveArraysRun {g : Graph} {id} {s t : Machine α} {vs : List Value} {z} {rs : List Ref} {q}
    (operands : (g.op id).operands = vs.map some ++ [some z]) (bound : vs.map s.env = rs.map some)
    (out : output g id (some z) 0 s = .ok q t) : primitiveArrays g id s = .ok (rs, q) t := by
  have inputs : Primitive.inputs (g.op id) = .ok (vs.map some) := by simp [Primitive.inputs,operands]
  have last : Primitive.output (g.op id) = .ok (some z) := by simp [Primitive.output,operands]
  simp only [primitiveArrays,inputs,last]
  refine (Step.bindOfOk (x := lift _) rfl _).trans ((Step.bindOfOk (valuesRun bound) _).trans ?_)
  exact (Step.bindOfOk (x := lift _) rfl _).trans ((Step.bindOfOk out _).trans rfl)

variable {g : Graph} {id : OpId} {x y z : Value} {rx ry rz : Ref} {s : Machine α} {c : Contraction}
  (verified : Primitive.verify g (g.op id) = .ok ())
  (contracts : (g.op id).kind ∉ [Primitive.identityKind, Primitive.reluKind, Primitive.addKind])
  (operands : (g.op id).operands = [some x, some y, some z]) (boundX : s.env x = some rx) (boundY : s.env y = some ry)

include verified contracts operands boundX boundY

theorem primitiveRun {q} {t : Machine α} (out : output g id (some z) 0 s = .ok q t)
    (found : contractionOf (g.op id).kind (t.arrayAt rx).type (t.arrayAt ry).type = .ok c) :
    primitive g id s = contract c rx ry q t := by
  simp only [mem_cons,not_mem_nil,or_false,not_or] at contracts
  obtain ⟨notIdentity,notRelu,notAdd⟩ := contracts
  have arrays : primitiveArrays g id s = .ok ([rx, ry], q) t :=
    primitiveArraysRun (show _ = [x, y].map some ++ [some z] from operands) (by simp [boundX,boundY]) out
  have chosen : lift (contractionOf (g.op id).kind (t.arrayAt rx).type (t.arrayAt ry).type) t = .ok c t :=
    liftOk.mpr ⟨found,rfl⟩
  simp only [primitive,verified,if_neg notIdentity,if_neg notRelu,if_neg notAdd]
  refine (Step.bindOfOk (x := lift _) rfl _).trans ((Step.bindOfOk arrays _).trans ?_)
  exact Step.bindOfOk chosen _

theorem primitiveTensor {batch depth m n} (counts : c.Counts batch depth) (boundZ : s.env z = some rz)
    (tensor : (g.typeOf z).isTensor = true) (one : (g.op id).results.length = 1) (validX : rx < s.memory.size)
    (validY : ry < s.memory.size)
    (found : contractionOf (g.op id).kind (s.arrayAt rx).type (s.arrayAt ry).type = .ok c)
    (full : (s.arrayAt rz).Full [m, n]) {e}
    (sums : ∀ i j, i < m → j < n → ∃ v, e [i, j] = [v] ∧ addProducts c batch depth (s.arrayAt rx) (s.arrayAt ry) i j
      ((s.arrayAt rz).cell [m, n] [i, j]) = .ok v) :
    primitive g id s = .ok () (s.bindAll id 0 (tabulateAll [s.arrayAt rz] [m, n] e)) := by
  let u := s.bindAll id 0 [s.arrayAt rz]
  have out : output g id (some z) 0 s = .ok s.memory.size u :=
    outputTensor (i := 0) tensor boundZ (one ▸ Nat.zero_lt_one) (one ▸ by decide)
  have new : u.arrayAt s.memory.size = s.arrayAt rz := Machine.bindAllNew s id 0 [s.arrayAt rz] 0
  have oldX : u.arrayAt rx = s.arrayAt rx := Machine.bindAllOld validX ..
  have oldY : u.arrayAt ry = s.arrayAt ry := Machine.bindAllOld validY ..
  obtain ⟨t,ran,shows_⟩ := contractRun (s := u) (e := e) counts (Nat.ne_of_gt validX)
    (Nat.ne_of_gt validY) (show (u.arrayAt s.memory.size).Full [m, n] from new ▸ full) (by rwa [oldX,oldY,new])
  rw [primitiveRun verified contracts operands boundX boundY out (by rwa [oldX,oldY]),ran,
    showsBindAll (show [AffineMap.identityOf 2].length = [s.arrayAt rz].length from rfl) shows_]

end Primitives

end Eval

end TileLower
