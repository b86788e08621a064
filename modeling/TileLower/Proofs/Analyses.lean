import TileLower.Proofs.Lowerings

/-!
Analyses give an answer on operations that have the operands which their kinds promise.
-/
namespace TileLower

open List Structured Body Arith

def Outcome.Yields {β : Type} (Q : β → Prop) (o : Outcome β) : Prop := ∃ b, o = .ok b ∧ Q b

namespace Outcome.Yields

variable {β γ : Type} {Q : β → Prop} {R : γ → Prop} {o : Outcome β} {f : β → Outcome γ} {b : β}

theorem ok (holds : Q b) : Yields Q (.ok b) := ⟨b,rfl,holds⟩

theorem bind (first : Yields Q o) (rest : ∀ b, Q b → Yields R (f b)) : Yields R (o >>= f) := by
  obtain ⟨b,rfl,holds⟩ := first
  exact rest b holds

theorem mono {P} (yields : Yields P o) (weaker : ∀ b, P b → Q b) : Yields Q o := by
  obtain ⟨b,same,holds⟩ := yields
  exact ⟨b,same,weaker b holds⟩

theorem both {P : Bool → Prop} {x y : Outcome Bool} (all : ∀ b, P b) (left : Yields (fun _ => True) x)
    (right : Yields (fun _ => True) y) : Yields P (x <&&> y) := by
  obtain ⟨b,rfl,-⟩ := left
  obtain ⟨c,rfl,-⟩ := right
  cases b with
  | false => exact ⟨false,rfl,all false⟩
  | true => exact ⟨c,rfl,all c⟩

theorem either {P : Bool → Prop} {x y : Outcome Bool} (all : ∀ b, P b) (left : Yields (fun _ => True) x)
    (right : Yields (fun _ => True) y) : Yields P (x <||> y) := by
  obtain ⟨b,rfl,-⟩ := left
  obtain ⟨c,rfl,-⟩ := right
  cases b with
  | false => exact ⟨c,rfl,all c⟩
  | true => exact ⟨true,rfl,all true⟩

end Outcome.Yields

structure Regular (op : Operation) : Prop where
  outputs : isStructured op = true →
    (∃ ins, inputs op = .ok ins ∧ ∀ v ∈ ins, v ∈ op.operands) ∧ ∃ outs, outputs op = .ok outs
  binary : op.kind ∈ [addFloatKind, addIntKind, mulFloatKind, mulIntKind, maxKind] →
    2 ≤ op.operands.length ∧ 1 ≤ op.results.length
  copied : op.kind = Memory.copyKind → 2 ≤ op.operands.length
  viewed : op.kind = Memory.subviewKind ∨ op.kind = Memory.castKind ∨ op.kind = Memory.extractSliceKind →
    1 ≤ op.operands.length ∧ 1 ≤ op.results.length

def Value.Within (K : OpId → Prop) : Value → Prop
  | .result k _ => K k
  | .argument .. => True

structure Steady (g : Graph) (K : OpId → Prop) : Prop where
  body : ∀ i ∈ (g.block Graph.body).ops, K i
  regions : ∀ k, K k → ∀ b, (g.op k).region = some b → ∀ i ∈ (g.block b).ops, K i
  regular : ∀ k, K k → Regular (g.op k)
  operands : ∀ k, K k → ∀ v ∈ (g.op k).operands, ∃ w, v = some w ∧ w.Within K
  arguments : ∀ k, K k → ∀ b, (g.op k).region = some b → (g.block b).args.length = (g.op k).operands.length

namespace Steady

open Outcome (Yields)

variable {g : Graph} {K : OpId → Prop} (steady : Steady g K)

include steady

theorem walked {j} (mem : j ∈ g.walkAll) : K j := Graph.walkWithin steady.regions steady.body _ j mem

theorem operandAt {k} (known : K k) {i} (inside : i < (g.op k).operands.length) :
    Yields (fun v => ∃ w, v = some w ∧ w.Within K) (g.operandAt k i) := by
  refine ⟨_,Outcome.ofOptionOk.mpr (getElem?_eq_getElem inside),?_⟩
  exact steady.operands k known _ (getElem_mem inside)

omit steady in
theorem firstResult {k} (some : 1 ≤ (g.op k).results.length) : g.resultAt k 0 = .ok (.result k 0) := if_pos some

omit steady in
theorem definingOp {v} (known : ∃ w, v = some w ∧ w.Within K) :
    Yields (fun o => ∀ k, o = some k → K k) (Graph.definingOp v) := by
  obtain ⟨w,rfl,within⟩ := known
  cases w with
  | result k i => exact .ok fun _ same => Option.some.inj same ▸ within
  | argument b i => exact .ok nofun

theorem readsOnly {k} (known : K k) (v : Operand) : Yields (fun _ => True) (ZeroFill.readsOnly (g.op k) v) := by
  have regular := steady.regular k known
  unfold ZeroFill.readsOnly
  split
  · rename_i structured
    obtain ⟨-,outs,outputs⟩ := regular.outputs structured
    rw [outputs]
    exact .ok trivial
  · split
    · rename_i copied
      rw [getElem?_eq_getElem (regular.copied copied)]
      exact .ok trivial
    · exact .ok trivial

theorem covering {v : Value} (within : v.Within K) (fuel : Nat) :
    Yields (fun _ => True) (ZeroFill.covering g fuel v) := by
  induction fuel generalizing v with
  | zero => exact .ok trivial
  | succ fuel ih =>
    refine .bind (Q := fun source => ∀ w, source = some w → w.Within K) ?_ fun source known => ?_
    · cases v with
      | argument b i => exact .ok nofun
      | result k i =>
        simp only [ZeroFill.viewSource?]
        split
        · rename_i view
          refine (steady.operandAt within ((steady.regular k within).viewed (.inl view)).1).mono fun v known w same => ?_
          obtain ⟨_,here,within⟩ := known
          cases here.symm.trans same
          exact within
        · exact .ok nofun
    · cases source with
      | none => exact .ok trivial
      | some w => exact .bind (ih (known w rfl)) fun _ _ => .ok trivial

theorem seeOperands {k} (known : K k) (cover : List Value) (vs : List Operand) (w : ZeroFill.Writes) :
    Yields (fun w' => w'.writer = w.writer ∨ w'.writer = some k) (ZeroFill.seeOperands (g.op k) k cover w vs) := by
  induction vs generalizing w with
  | nil => exact .ok (.inl rfl)
  | cons v vs ih =>
    refine .bind (steady.readsOnly known v) fun reads _ => ?_
    split
    · exact ih w
    · split
      · exact (ih _).mono fun w' writer => .inr (writer.elim (fun same => same) fun same => same)
      · split
        · exact (ih _).mono fun w' writer => .inr (writer.elim (fun same => same) fun same => same)
        · exact ih w

theorem seeOp {k} (known : K k) (cover : List Value) (w : ZeroFill.Writes) :
    Yields (fun w' => w'.writer = w.writer ∨ w'.writer = some k) (ZeroFill.seeOp g cover w k) := by
  unfold ZeroFill.seeOp
  dsimp only
  split
  · rename_i view
    obtain ⟨operand,result⟩ := (steady.regular k known).viewed (.inl view)
    refine .bind (steady.operandAt known operand) fun source _ => ?_
    rw [firstResult result,Outcome.bindOfOk]
    split
    · exact .ok (.inl rfl)
    · exact .ok (.inl rfl)
  · exact steady.seeOperands known cover _ w

theorem seeAll {ids} (known : ∀ k ∈ ids, K k) (cover : List Value) (w : ZeroFill.Writes)
    (writer : ∀ k, w.writer = some k → K k) :
    Yields (fun w' => ∀ k, w'.writer = some k → K k) (ZeroFill.seeAll g cover w ids) := by
  induction ids generalizing w with
  | nil => exact .ok writer
  | cons id ids ih =>
    obtain ⟨here,later⟩ := forall_mem_cons.mp known
    refine .bind (steady.seeOp here cover w) fun w' wrote => ih later w' fun k same => ?_
    rcases wrote with old | new
    · exact writer k (old ▸ same)
    · exact Option.some.inj (new.symm.trans same) ▸ here

theorem lastWriter {v : Value} (within : v.Within K) (user : Option OpId) :
    Yields (fun found => ∀ k, found.1 = some k → K k) (ZeroFill.lastWriter g v user) := by
  unfold ZeroFill.lastWriter
  split
  · exact .ok nofun
  · split
    · refine .bind (steady.covering within _) fun cover _ => ?_
      refine .bind (steady.seeAll (fun k mem => ?_) cover _ nofun) fun w writer => .ok writer
      exact steady.walked ((takeWhile_sublist _).subset mem)
    · exact .ok nofun

theorem origin {v} (known : ∃ w, v = some w ∧ w.Within K) (user : Option OpId) :
    Yields (fun o => ∀ k, o = some k → K k) (ZeroFill.origin g v user) := by
  obtain ⟨w,rfl,within⟩ := known
  unfold ZeroFill.origin
  dsimp only
  split
  · refine .bind (steady.lastWriter within user) fun found writer => ?_
    obtain ⟨_ | k,_ | _⟩ := found
    · exact definingOp ⟨w,rfl,within⟩
    · exact .ok nofun
    · exact .ok writer
    · exact .ok nofun
  · exact definingOp ⟨w,rfl,within⟩

omit steady in
theorem isZeroConstant {v} (known : ∃ w, v = some w ∧ w.Within K) :
    Yields (fun _ => True) (isZeroConstant g v) := by
  refine .bind (definingOp known) fun found _ => ?_
  split
  · exact .ok trivial
  · split
    · exact .ok trivial
    · exact .ok trivial

theorem trace {k} (known : K k) :
    Yields (fun t => ∀ source, t = .from source → ∀ j, source = some j → K j) (ZeroFill.trace g k) := by
  have regular := steady.regular k known
  unfold ZeroFill.trace
  dsimp only
  split
  · split
    · split
      · exact .ok nofun
      · exact .ok nofun
    · exact .ok nofun
  · split
    · rename_i fill
      obtain ⟨⟨ins,inputs,sub⟩,-⟩ := regular.outputs (by rw [isStructured,fill]; decide)
      rw [inputs,Outcome.bindOfOk]
      split
      · refine .bind (isZeroConstant (steady.operands k known _ (sub _ (mem_singleton_self _)))) fun zero _ => ?_
        cases zero with
        | false => exact .ok nofun
        | true => exact .ok nofun
      · exact .ok nofun
    · split
      · rename_i copy
        obtain ⟨⟨ins,inputs,sub⟩,-⟩ := regular.outputs (by rw [isStructured,copy]; decide)
        rw [inputs,Outcome.bindOfOk]
        split
        · refine .bind (steady.origin (steady.operands k known _ (sub _ (mem_singleton_self _))) _) fun source known => ?_
          refine .ok fun source' same j here => ?_
          cases same
          exact known j here
        · exact .ok nofun
      · split
        · rename_i moved
          have some : 0 < (g.op k).operands.length := by
            rcases moved with copied | viewed
            · exact Nat.zero_lt_two.trans_le (regular.copied copied)
            · exact (regular.viewed viewed).1
          refine .bind (steady.operandAt known some) fun v value => .bind (steady.origin value _) fun source known => ?_
          refine .ok fun source' same j here => ?_
          cases same
          exact known j here
        · exact .ok nofun

theorem follow (fuel : Nat) (visited : List OpId) {start} (known : ∀ k, start = some k → K k) :
    Yields (fun _ => True) (ZeroFill.follow g fuel visited start) := by
  induction fuel generalizing visited start with
  | zero => exact .ok trivial
  | succ fuel ih =>
    cases start with
    | none => exact .ok trivial
    | some id =>
      unfold ZeroFill.follow
      split
      · exact .ok trivial
      · refine .bind (steady.trace (known id rfl)) fun t sources => ?_
        cases t with
        | zero => exact .ok trivial
        | «from» source => exact ih _ (sources source rfl)
        | other => exact .ok trivial

theorem isZeroProducer {v} (known : ∃ w, v = some w ∧ w.Within K) :
    Yields (fun _ => True) (ZeroFill.isZeroProducer g v) :=
  .bind (definingOp known) fun _ start => steady.follow _ _ start

theorem isZeroBefore {v} (known : ∃ w, v = some w ∧ w.Within K) (user : Option OpId) :
    Yields (fun _ => True) (ZeroFill.isZeroBefore g v user) :=
  .bind (steady.origin known user) fun _ start => steady.follow _ _ start

theorem comesFrom {v} (known : ∃ w, v = some w ∧ w.Within K) (source : Value) :
    Yields (fun _ => True) (comesFrom g v source) := by
  have chain (fuel : Nat) : ∀ v, (∃ w, v = some w ∧ w.Within K) →
      Yields (fun _ => True) (isUnaryChainFrom g source fuel v) := by
    induction fuel with
    | zero => exact fun _ _ => .ok trivial
    | succ fuel ih =>
      rintro _ ⟨w,rfl,within⟩
      simp only [isUnaryChainFrom]
      split
      · exact .ok trivial
      · cases w with
        | argument b i => exact .ok trivial
        | result k i =>
          dsimp only
          split
          · rename_i w single
            exact ih w (steady.operands k within w (single ▸ mem_singleton_self w))
          · exact .ok trivial
  exact chain _ v known

theorem singleOp {b} (inside : ∀ i ∈ (g.block b).ops, K i) {kind id} (found : singleOp? g b kind = some id) :
    K id ∧ (g.op id).kind = kind := by
  unfold singleOp? at found
  split at found
  · rename_i single
    cases found
    have mem : id ∈ (g.walkFrom b).filter fun id => (g.op id).kind = kind := single ▸ mem_singleton_self id
    obtain ⟨walked,same⟩ := mem_filter.mp mem
    exact ⟨Graph.walkWithin steady.regions inside _ id walked,of_decide_eq_true same⟩
  · cases found

theorem isAddMulOf {b : BlockId} (inside : ∀ i ∈ (g.block b).ops, K i) {yielded : Operand}
    (known : ∃ w, yielded = some w ∧ w.Within K) {addKind mulKind : String}
    (kinds : (addKind, mulKind) ∈ [(addFloatKind, mulFloatKind), (addIntKind, mulIntKind)]) :
    Yields (fun _ => True) (isAddMulOf g b yielded addKind mulKind) := by
  have binary {id : OpId} {kind : String} (known : K id) (same : (g.op id).kind = kind)
      (either : kind = addKind ∨ kind = mulKind) : 2 ≤ (g.op id).operands.length ∧ 1 ≤ (g.op id).results.length := by
    refine (steady.regular id known).binary (same ▸ ?_)
    simp only [mem_cons,not_mem_nil,or_false,Prod.mk.injEq] at kinds
    rcases kinds with ⟨rfl,rfl⟩ | ⟨rfl,rfl⟩ <;> rcases either with rfl | rfl <;> decide
  unfold Body.isAddMulOf
  split
  · rename_i add mul foundAdd foundMul
    obtain ⟨knownAdd,kindAdd⟩ := steady.singleOp inside foundAdd
    obtain ⟨knownMul,kindMul⟩ := steady.singleOp inside foundMul
    obtain ⟨twoAdd,oneAdd⟩ := binary knownAdd kindAdd (.inl rfl)
    obtain ⟨twoMul,oneMul⟩ := binary knownMul kindMul (.inr rfl)
    dsimp only
    rw [firstResult oneAdd,Outcome.bindOfOk]
    refine .bind (steady.comesFrom known _) fun sum _ => ?_
    cases sum with
    | false => exact .ok trivial
    | true =>
      refine .bind (steady.operandAt knownAdd (Nat.zero_lt_two.trans_le twoAdd)) fun c1 known1 => ?_
      refine .bind (steady.operandAt knownAdd (Nat.one_lt_two.trans_le twoAdd)) fun c2 known2 => ?_
      rw [firstResult oneMul,Outcome.bindOfOk]
      refine .bind (.either (fun _ => trivial) (.both (fun _ => trivial) (steady.comesFrom known1 _) (steady.comesFrom known2 _))
        (.both (fun _ => trivial) (steady.comesFrom known1 _) (steady.comesFrom known2 _))) fun operands _ => ?_
      cases operands with
      | false => exact .ok trivial
      | true =>
        refine .bind (steady.operandAt knownMul (Nat.zero_lt_two.trans_le twoMul)) fun x knownX => ?_
        refine .bind (steady.operandAt knownMul (Nat.one_lt_two.trans_le twoMul)) fun y knownY => ?_
        exact .either (fun _ => trivial) (.both (fun _ => trivial) (steady.comesFrom knownX _) (steady.comesFrom knownY _))
          (.both (fun _ => trivial) (steady.comesFrom knownX _) (steady.comesFrom knownY _))
  · exact .ok trivial

theorem yielded {b} (inside : ∀ i ∈ (g.block b).ops, K i) {v}
    (found : ((g.terminator? b).map fun id => (g.op id).operands) = some [v]) : ∃ w, v = some w ∧ w.Within K := by
  obtain ⟨t,last,operands⟩ := Option.map_eq_some_iff.mp found
  exact steady.operands t (inside t (mem_of_getLast? last)) v (operands ▸ mem_singleton_self v)

theorem hasMatmulBody {k : OpId} (known : K k) : Yields (fun _ => True) (hasMatmulBody g (g.op k)) := by
  unfold Body.hasMatmulBody
  split
  · exact .ok trivial
  · rename_i b region
    have inside := steady.regions k known b region
    unfold isAddMul
    split
    · exact .ok trivial
    · split
      · rename_i v found
        have known := steady.yielded inside found
        exact .either (fun _ => trivial) (steady.isAddMulOf inside known (by decide)) (steady.isAddMulOf inside known (by decide))
      · exact .ok trivial

theorem hasCopySemantics {k} (known : K k) : Yields (fun _ => True) (hasCopySemantics g (g.op k)) := by
  unfold Body.hasCopySemantics
  split
  · exact .ok trivial
  · rename_i b region
    split
    · rename_i copies
      split
      · split
        · rw [if_neg]
          · exact .ok trivial
          · rw [isEmpty_iff_length_eq_zero,steady.arguments k known b region,copies.2.2.1]
            decide
        · exact .ok trivial
      · exact .ok trivial
    · exact .ok trivial

theorem isZeroOperand {k : OpId} (known : K k) (b : BlockId) {v : Operand} (within : ∃ w, v = some w ∧ w.Within K) :
    Yields (fun _ => True) (isZeroOperand g k b v) := by
  refine .bind (.either (fun _ => trivial) (isZeroConstant within) (steady.isZeroProducer within)) fun zero _ => ?_
  cases zero with
  | true => exact .ok trivial
  | false =>
    obtain ⟨w,rfl,-⟩ := within
    simp only [Bool.false_eq_true,if_false]
    split
    · rename_i operand found
      refine steady.isZeroBefore (steady.operands k known operand ?_) k
      unfold operandOfArgument at found
      split at found
      · split at found
        · exact mem_of_getElem? found
        · cases found
      · cases found
    · exact .ok trivial

theorem reluPair {k} (known : K k) (b : BlockId) {x zero} (left : ∃ w, x = some w ∧ w.Within K)
    (right : ∃ w, zero = some w ∧ w.Within K) : Yields (fun _ => True) (reluPair g k b x zero) := by
  obtain ⟨w,rfl,-⟩ := left
  unfold Body.reluPair
  dsimp only
  split
  · exact .ok trivial
  · refine .bind (steady.isZeroOperand known b right) fun zero _ => ?_
    cases zero with
    | false => exact .ok trivial
    | true => exact .ok trivial

theorem reluSource {k} (known : K k) : Yields (fun _ => True) (reluSource? g k) := by
  unfold reluSource?
  dsimp only
  split
  · exact .ok trivial
  · rename_i b region
    split
    · exact .ok trivial
    · split
      · rename_i v found
        refine .bind (definingOp (steady.yielded (steady.regions k known b region) found)) fun found within => ?_
        cases found with
        | none => exact .ok trivial
        | some maxOp =>
          dsimp only
          split
          · exact .ok trivial
          · rename_i checked
            have kind := not_not.mp (not_or.mp checked).1
            have two := ((steady.regular maxOp (within maxOp rfl)).binary (by rw [kind]; decide)).1
            refine .bind (steady.operandAt (within maxOp rfl) (Nat.zero_lt_two.trans_le two)) fun lhs knownL => ?_
            refine .bind (steady.operandAt (within maxOp rfl) (Nat.one_lt_two.trans_le two)) fun rhs knownR => ?_
            refine .bind (steady.reluPair known b knownL knownR) fun first _ => ?_
            cases first with
            | some v => exact .ok trivial
            | none => exact steady.reluPair known b knownR knownL
      · exact .ok trivial

end Steady

end TileLower
