import TileLower.Proofs.Elementwise

/-!
Bodies that copy, add or take a positive part yield what they are recognised for, if zeros are not told apart by their
sign.
-/
namespace TileLower

open Outcome ZeroFill List Scalar Body

/-- Scalars with a single zero, of which a maximum does not depend on which of two comes first. -/
class Scalar.OneZero (α : Type) [Scalar α] : Prop where
  zero : ∀ c : Float, (c == 0) = true → (ofFloat c : α) = Scalar.zero
  max : ∀ x y : α, Scalar.max x y = Scalar.max y x

theorem Scalar.IsZero.eq {α : Type} [Scalar α] [OneZero α] {x : α} (zero : IsZero x) : x = Scalar.zero := by
  rcases zero with same | ⟨c,zero,rfl⟩
  · exact same
  · exact OneZero.zero c zero

section Looks

variable {g : Graph} {b : BlockId}

theorem Body.hasCopySemanticsOk {op : Operation} (ok : hasCopySemantics g op = .ok true) :
    (op.operands.length = 2 ∧ Structured.numInputs op = 1) ∧ ∀ b, op.region = some b →
      ∃ k, (g.block b).ops = [k] ∧ (g.op k).operands = [some (.argument b 0)] ∧ 0 < (g.block b).args.length := by
  unfold hasCopySemantics at ok
  split at ok
  · cases ok
  · rename_i b region
    split at ok
    · rename_i counts
      split at ok
      · rename_i k only
        split at ok
        · rename_i v yielded
          split at ok
          · exact absurd ok Outcome.abortOk
          · rename_i present
            have same : v = some (.argument b 0) := by simpa using ok
            refine ⟨counts.2.2,fun b' region' => ?_⟩
            obtain rfl : b = b' := Option.some.inj (region.symm.trans region')
            exact ⟨k,only,same ▸ yielded,length_pos_iff.mpr (by simpa using present)⟩
        · cases ok
      · cases ok
    · cases ok

theorem ToPrimitive.isAddBodyOk (ok : isAddBody g b = .ok true) :
    ∃ first last add i x y, (g.block b).ops = [first, last] ∧ (g.block b).args.length = 3 ∧
      (g.op last).operands = [some (.result add i)] ∧ (g.op add).kind = Arith.addFloatKind ∧
      (g.op add).operands[0]? = some x ∧ (g.op add).operands[1]? = some y ∧
      (x = some (.argument b 0) ∧ y = some (.argument b 1) ∨ x = some (.argument b 1) ∧ y = some (.argument b 0)) := by
  unfold isAddBody at ok
  split at ok
  · rename_i first last only
    split at ok
    · cases ok
    · rename_i three
      split at ok
      · rename_i v yielded
        obtain ⟨defined,found,rest⟩ := bindOk.mp ok
        cases defined with
        | none => cases rest
        | some add =>
          dsimp only at rest
          split at rest
          · cases rest
          · rename_i kind
            obtain ⟨x,firstOperand,rest⟩ := bindOk.mp rest
            obtain ⟨y,secondOperand,rest⟩ := bindOk.mp rest
            obtain ⟨i,rfl⟩ := Propagation.definingOpOk found
            exact ⟨first,last,add,i,x,y,only,not_not.mp three,yielded,not_not.mp kind,
              Graph.operandAtOk.mp firstOperand,Graph.operandAtOk.mp secondOperand,by simpa using rest⟩
      · cases ok
  · cases ok

end Looks

theorem Graph.Encloses.owned {g : Graph} {scope b j} (encloses : g.Encloses scope b) (inside : (g.op j).block = some b)
    (i : Nat) : .result j i ∉ scope := fun visible => by
  obtain ⟨c,_,outer,there,deeper⟩ := encloses.around.origin visible
  obtain rfl : b = c := Option.some.inj (inside.symm.trans (outer.block encloses.formed there))
  exact encloses.irrefl deeper

namespace Eval

variable {α : Type} [Scalar α] {g : Graph} {id : OpId} {b : BlockId} {pre : List OpId} {yield : OpId} {scope : List Value}

section Bodies

variable (straight : g.Straight b pre yield)

include straight

theorem resultInside {j i} (known : .result j i ∈ scope ++ g.argumentsOf b ++ g.computed pre)
    (inner : .result j i ∉ scope) {c : Nat × Nat} (counts : Arith.counts? (g.op j).kind = some c) (one : c.2 = 1) :
    j ∈ pre ∧ i = 0 := by
  obtain ⟨mem,within⟩ := (Graph.seenResult known).resolve_left inner
  have count := (straight.counts j mem c counts).2
  exact ⟨mem,by omega⟩

variable (sees : g.Sees scope b)

include sees

theorem copyYields (region : (g.op id).region = some b) (ok : Body.hasCopySemantics g (g.op id) = .ok true) {x : α}
    {xs ys : List α} (ran : evalBody g b (x :: xs) = .ok ys) : ys = [x] := by
  obtain ⟨env,solves,rfl⟩ := evalBodySolves sees straight ran
  obtain ⟨k,only,yielded,present⟩ := (hasCopySemanticsOk ok).2 b region
  have whole : pre ++ [yield] = [] ++ [k] := straight.ops.symm.trans only
  obtain ⟨-,same⟩ := append_inj' whole rfl
  rw [singleton_inj.mp same,yielded]
  exact congrArg (· :: []) (Option.some.inj (solves.args 0 present)).symm

theorem sumYields [Commutes α] (ok : ToPrimitive.isAddBody g b = .ok true) {x y z : α} {ys : List α}
    (ran : evalBody g b [x, y, z] = .ok ys) : ys = [Scalar.add x y] := by
  obtain ⟨env,solves,rfl⟩ := evalBodySolves sees straight ran
  obtain ⟨first,last,add,i,u,w,only,three,yielded,kind,firstOperand,secondOperand,sides⟩ :=
    ToPrimitive.isAddBodyOk ok
  have whole : pre ++ [yield] = [first] ++ [last] := straight.ops.symm.trans only
  obtain ⟨rfl,same⟩ := append_inj' whole rfl
  obtain rfl := singleton_inj.mp same
  have known := yieldKnown sees straight yielded
  have inner : .result add i ∉ scope := fun outer => by
    obtain ⟨k,rfl⟩ : ∃ k, u = some (.argument b k) := sides.elim (fun h => ⟨_,h.1⟩) fun h => ⟨_,h.1⟩
    obtain ⟨_,same,visible⟩ := sees.closed add i outer _ (mem_of_getElem? firstOperand)
    cases same
    exact sees.argument k visible
  obtain ⟨mem,rfl⟩ := resultInside straight known inner (c := (2, 1)) (by rw [kind]; rfl) rfl
  have value := Except.ok.inj ((solves.scalars add mem).symm.trans
    (evalScalarAdd firstOperand secondOperand (by rw [kind]; rfl)).2)
  have left : env (.argument b 0) = x := (Option.some.inj (solves.args 0 (by omega))).symm
  have right : env (.argument b 1) = y := (Option.some.inj (solves.args 1 (by omega))).symm
  rw [yielded]
  refine congrArg (· :: []) (value.trans ?_)
  rcases sides with ⟨rfl,rfl⟩ | ⟨rfl,rfl⟩
  · exact congrArg₂ Scalar.add left right
  · exact (congrArg₂ Scalar.add right left).trans (Commutes.add y x)

end Bodies

/- Zeros in bodies. What is computed outside reads as zero. -/
section Zeros

variable {args : List α} {env : Locals α} (solves : Solves g b pre args env)

include solves

theorem constantZero {c x} (constant : (g.op c).kind = Arith.constantKind)
    (known : Arith.constantValue? (g.op c) = some x) (zero : (x == 0) = true) (i : Nat) :
    IsZero (env (.result c i)) := by
  by_cases here : c ∈ pre ∧ i = 0
  · obtain ⟨mem,rfl⟩ := here
    have value := solves.scalars c mem
    simp only [evalScalar,constant,if_true,known,Option.getD_some] at value
    exact .inr ⟨x,zero,(Except.ok.inj value).symm⟩
  · refine .inl (solves.outside _ (fun _ same => by cases same) fun j mem same => here ?_)
    cases same
    exact ⟨mem,rfl⟩

theorem tracedZero {k} (traced : ZeroFill.trace g k = .ok .zero ∨ ∃ next, ZeroFill.trace g k = .ok (.from next))
    (i : Nat) : IsZero (env (.result k i)) := by
  have other (stuck : scalarKind (g.op k).kind = false) : IsZero (env (.result k i)) := by
    refine .inl (solves.outside _ (fun _ same => by cases same) fun j mem same => ?_)
    cases same
    exact evalScalarStuck stuck env _ (solves.scalars _ mem)
  rcases traced with zero | ⟨next,source⟩
  · rcases traceZero zero with ⟨constant,x,known,zero⟩ | ⟨fill,-⟩
    · exact constantZero solves constant known zero i
    · exact other (by rw [fill]; decide)
  · obtain ⟨_,-,⟨kind,-⟩ | ⟨kind | kind | kind | kind,-⟩⟩ := traceFrom source <;>
      exact other (by rw [kind]; decide)

theorem zeroOperand {v} (ok : isZeroOperand g id b v = .ok true) : IsZero (env.read v) ∨
    ∃ k w, v = some (.argument b k) ∧ (g.op id).operands[k]? = some w ∧ isZeroBefore g w (some id) = .ok true := by
  obtain ⟨early,looked,rest⟩ := bindOk.mp ok
  cases early with
  | true =>
    refine .inl ?_
    rcases orOk looked with constant | producer
    · obtain ⟨c,i,x,rfl,kind,known,zero⟩ := isZeroConstantOk constant
      exact constantZero solves kind known zero i
    · obtain ⟨defined,found,followed⟩ := bindOk.mp producer
      obtain ⟨k,rfl,traced⟩ := followOk followed
      obtain ⟨i,rfl⟩ := Propagation.definingOpOk found
      exact tracedZero solves (traced.imp_right fun ⟨next,source,_⟩ => ⟨next,source⟩) i
  | false =>
    cases v with
    | none => exact absurd rest Outcome.abortOk
    | some v =>
      simp only [Bool.false_eq_true,if_false] at rest
      split at rest
      · rename_i w found
        cases v with
        | result => cases found
        | argument b' k =>
          simp only [operandOfArgument] at found
          split at found
          · rename_i here
            exact .inr ⟨k,w,by rw [here],found,rest⟩
          · cases found
      · cases rest

end Zeros

theorem reluYields [OneZero α] (encloses : g.Encloses scope b) (straight : g.Straight b pre yield)
    (region : (g.op id).region = some b) (count : (g.block b).args.length = (g.op id).operands.length) {v}
    (ok : reluSource? g id = .ok (some v)) {xs ys} (ran : evalBody g b xs = .ok ys) :
    ∃ (j : Nat) (x w : α), (g.op id).operands[j]? = some v ∧ xs[j]? = some x ∧ ys = [Scalar.max x w] ∧ (IsZero w ∨
      ∃ (k : Nat) (u : Operand), (g.op id).operands[k]? = some u ∧ xs[k]? = some w ∧
        isZeroBefore g u (some id) = .ok true) := by
  have sees := encloses.sees
  obtain ⟨env,solves,rfl⟩ := evalBodySolves sees straight ran
  obtain ⟨last,max,i,lhs,rhs,ends,yielded,kind,inside,first,second,pairs⟩ := reluSourceOk region ok
  obtain rfl : yield = last := by
    rw [Graph.terminator?,straight.ops,getLast?_concat] at ends
    exact Option.some.inj ends
  have known := yieldKnown sees straight yielded
  obtain ⟨mem,rfl⟩ := resultInside straight known (encloses.owned inside i) (c := (2, 1)) (by rw [kind]; rfl) rfl
  have value := Except.ok.inj ((solves.scalars max mem).symm.trans (evalScalarMax first second kind))
  have argument {j : Nat} {u : Operand} (found : (g.op id).operands[j]? = some u) : xs[j]? = some (env (.argument b j)) :=
    solves.args j (count ▸ (List.getElem?_eq_some_iff.mp found).1)
  have zero {u : Operand} (isZero : isZeroOperand g id b u = .ok true) : IsZero (env.read u) ∨
      ∃ (k : Nat) (w : Operand), (g.op id).operands[k]? = some w ∧ xs[k]? = some (env.read u) ∧
        isZeroBefore g w (some id) = .ok true := by
    refine (zeroOperand solves isZero).imp_right ?_
    rintro ⟨k,w,rfl,found,known⟩
    exact ⟨k,w,found,argument found,known⟩
  rw [yielded]
  rcases pairs with pair | pair
  · obtain ⟨j,rfl,found,isZero⟩ := reluPairOk pair
    exact ⟨j,_,_,found,argument found,congrArg (· :: []) value,zero isZero⟩
  · obtain ⟨j,rfl,found,isZero⟩ := reluPairOk pair
    exact ⟨j,_,_,found,argument found,congrArg (· :: []) (value.trans (OneZero.max ..)),zero isZero⟩

section Computes

open TileLower.AffineMap (minorOf)

variable {s : Machine α} {ns : List Nat} {ins all : List (AffineMap × Ref)} {vs : List Value}

theorem computesInputs {f out}
    (same : ∀ (xs : List α) (v y : α), xs.length = ins.length → evalBody g b (xs ++ [v]) = .ok [y] → f xs = .ok y) :
    Computes g b s ns (ins ++ [out]) f ins := by
  intro i zs y inside read body
  rw [held,map_append] at read
  obtain ⟨xs,vs,left,right,rfl⟩ := readAllAppend.mp read
  obtain ⟨v,rfl⟩ := length_eq_one_iff.mp (readAllLength right)
  exact ⟨xs,left,same xs v y (by simpa using readAllLength left) body⟩

omit [Scalar α] in
theorem readAllAt {idx : List Int64} {l : List (AffineMap × NdArray α)} {xs : List α} {j : Nat}
    {p : AffineMap × NdArray α} {x : α} (ok : readAll idx l = .ok xs) (at_ : l[j]? = some p) (got : xs[j]? = some x) :
    readAll idx [p] = .ok [x] := by
  induction l generalizing xs j with
  | nil => simp at at_
  | cons q l ih =>
    obtain ⟨k,map,rest⟩ := bindOk.mp ok
    obtain ⟨y,here,rest⟩ := bindOk.mp rest
    obtain ⟨ys,later,rest⟩ := bindOk.mp rest
    cases rest
    cases j with
    | zero =>
      cases at_
      cases got
      simp only [readAll,map,here,bindOfOk]
    | succ j => exact ih later at_ got

theorem Trails.unique {m m' t} (left : Trails ns m t) (right : Trails ns m' t) : m = m' := by
  obtain ⟨rank,le,rfl,dims⟩ := left
  obtain ⟨rank',le',rfl,dims'⟩ := right
  have same := congrArg length (dims.symm.trans dims')
  simp only [wordsLength,length_drop] at same
  obtain rfl : rank = rank' := by omega
  rfl

theorem computesRelu [OneZero α] (encloses : g.Encloses scope b) (straight : g.Straight b pre yield)
    (region : (g.op id).region = some b) (count : (g.block b).args.length = (g.op id).operands.length) {v : Value}
    (ok : reluSource? g id = .ok (some (some v))) {ws : List Value} (operands : (g.op id).operands = ws.map some)
    (bound : ws.map s.env = (all.map Prod.snd).map some) (trails : ∀ p ∈ all, Trails ns p.1 (s.arrayAt p.2).type)
    (clear : ∀ u, isZeroBefore g (some u) (some id) = .ok true → Clear s u) :
    ∃ p ∈ all, s.env v = some p.2 ∧ Computes g b s ns all reluOf [p] := by
  have array {j : Nat} {u : Operand} (found : (g.op id).operands[j]? = some u) :
      ∃ w p, u = some w ∧ all[j]? = some p ∧ s.env w = some p.2 := by
    rw [operands,getElem?_map] at found
    obtain ⟨w,at_,rfl⟩ := Option.map_eq_some_iff.mp found
    have same := congrArg (·[j]?) bound
    simp only [getElem?_map,at_,Option.map_some] at same
    cases there : all[j]? with
    | none => rw [there] at same; cases same
    | some p =>
      rw [there] at same
      exact ⟨w,p,rfl,rfl,Option.some.inj same⟩
  obtain ⟨j,found⟩ := getElem?_of_mem (ToPrimitive.reluSourceMem ok)
  obtain ⟨_,p,same,here,boundV⟩ := array found
  cases same
  refine ⟨p,mem_of_getElem? here,boundV,fun i xs y inside read body => ?_⟩
  obtain ⟨j',x,w,found',at_,yielded,zero⟩ := reluYields encloses straight region count ok body
  obtain ⟨_,p',same,here',boundV'⟩ := array found'
  cases same
  have alike : p' = p := by
    have refs : p'.2 = p.2 := Option.some.inj (boundV'.symm.trans boundV)
    have maps : p'.1 = p.1 := (trails p' (mem_of_getElem? here')).unique (refs ▸ trails p (mem_of_getElem? here))
    exact Prod.ext maps refs
  have heldAt {k : Nat} {q : AffineMap × Ref} (there : all[k]? = some q) : (held s all)[k]? = some (q.1, s.arrayAt q.2) := by
    rw [held,getElem?_map,there]
    rfl
  have isZero : IsZero w := by
    rcases zero with zero | ⟨k,u,foundU,atU,known⟩
    · exact zero
    · obtain ⟨u,q,rfl,there,boundU⟩ := array foundU
      obtain ⟨e,-,rest⟩ := bindOk.mp (readAllAt read (heldAt there) atU)
      obtain ⟨w',got,rest⟩ := bindOk.mp rest
      cases rest
      exact clear u known q.2 boundU w (getMem got)
  refine ⟨[x],readAllAt read (heldAt (alike ▸ here')) at_,?_⟩
  rw [singleton_inj.mp yielded,isZero.eq]
  rfl

end Computes

end Eval

end TileLower
