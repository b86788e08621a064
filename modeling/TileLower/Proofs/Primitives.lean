import TileLower.Proofs.Declines
import TileLower.Proofs.Makers

/-!
The check of a tile primitive. It gives an answer whatever the operands are, and tells the ranks of the operands of a
multiplication and that inputs can be broadcast.
-/
namespace TileLower

open Outcome List ValueType

namespace Graph

variable {g : Graph}

theorem operandTypesPresent {vs} (present : ∀ v ∈ vs, ∃ w, v = some w) : ∃ ts, g.operandTypes vs = .ok ts := by
  induction vs with
  | nil => exact ⟨[],rfl⟩
  | cons v vs ih =>
    obtain ⟨⟨w,rfl⟩,rest⟩ := forall_mem_cons.mp present
    obtain ⟨ts,types⟩ := ih rest
    exact ⟨g.typeOf w :: ts,by rw [operandTypes,operandType,bindOfOk,types,bindOfOk]⟩

theorem operandTypePresent {v t} (type : g.operandType v = .ok t) : ∃ w, v = some w := by
  cases v with
  | none => exact absurd type abortOk
  | some w => exact ⟨w,rfl⟩

theorem presentOfTypes {vs ts} (types : g.operandTypes vs = .ok ts) : ∀ v ∈ vs, ∃ w, v = some w := by
  induction vs generalizing ts with
  | nil => exact nofun
  | cons v vs ih =>
    obtain ⟨t,type,types⟩ := bindOk.mp types
    obtain ⟨ts,types,-⟩ := bindOk.mp types
    exact forall_mem_cons.mpr ⟨operandTypePresent type,ih types⟩

end Graph

namespace Primitive

variable {g : Graph} {op : Operation}

theorem verifyRanksAnswers {vs : List Operand} (present : ∀ v ∈ vs, ∃ w, v = some w) {i} {ranks : List Nat}
    (length : vs.length = ranks.length) : verifyRanks g i vs ranks ≠ .abort := by
  induction vs generalizing i ranks with
  | nil => exact nofun
  | cons v vs ih =>
    obtain ⟨⟨w,rfl⟩,rest⟩ := forall_mem_cons.mp present
    cases ranks with
    | nil => cases length
    | cons rank ranks =>
      rw [verifyRanks,Graph.operandType,bindOfOk]
      split
      · exact ih rest (Nat.succ.inj length)
      · exact failAnswers

theorem verifyRanksOk {vs : List Operand} {i} {ranks : List Nat} {ts : List ValueType}
    (length : vs.length = ranks.length) (types : g.operandTypes vs = .ok ts) (ok : verifyRanks g i vs ranks = .ok ()) :
    ts.map rank = ranks := by
  induction vs generalizing i ranks ts with
  | nil =>
    cases types
    exact (length_eq_zero_iff.mp length.symm).symm
  | cons v vs ih =>
    cases ranks with
    | nil => cases length
    | cons rank ranks =>
      obtain ⟨t,type,types⟩ := bindOk.mp types
      obtain ⟨ts,rest,types⟩ := bindOk.mp types
      cases types
      rw [verifyRanks,type,bindOfOk] at ok
      split at ok
      · rename_i fits
        simp only [Bool.and_eq_true,beq_iff_eq] at fits
        rw [map_cons,fits.2,ih (Nat.succ.inj length) rest ok]
      · exact absurd ok failOk

theorem verifyMatmulAnswers {a b c : List Int64} (ranks : a.length = 2 ∧ b.length = 2 ∧ c.length = 2) :
    verifyMatmul a b c ≠ .abort := by
  obtain ⟨_,_,rfl⟩ := length_eq_two.mp ranks.1
  obtain ⟨_,_,rfl⟩ := length_eq_two.mp ranks.2.1
  obtain ⟨_,_,rfl⟩ := length_eq_two.mp ranks.2.2
  rw [verifyMatmul]
  split
  · exact nofun
  · exact failAnswers

theorem rankedAnswers {ranks : List Nat} {f : ValueType → ValueType → ValueType → Outcome Unit}
    (present : ∀ v ∈ op.operands, ∃ w, v = some w) (length : op.operands.length = ranks.length) (three : ranks.length = 3)
    (answers : ∀ a b c, [a, b, c].map ValueType.rank = ranks → f a b c ≠ .abort) :
    (do
      checkRanks g op.operands ranks
      match ← g.operandTypes op.operands with
      | [a, b, c] => f a b c
      | _ => abort) ≠ .abort := by
  obtain ⟨ts,types⟩ := g.operandTypesPresent present
  refine bindAnswers (withinAnswers (verifyRanksAnswers present length)) fun _ ok => ?_
  have fits := verifyRanksOk length types (Graph.withinOk.mp ok)
  have size : ts.length = 3 := by rw [← three,← fits,length_map]
  obtain ⟨a,b,c,rfl⟩ := length_eq_three.mp size
  rw [types,bindOfOk]
  exact answers a b c fits

theorem verifyBroadcastsAnswers {out vs} (target : ∃ w, out = some w) (present : ∀ v ∈ vs, ∃ w, v = some w) :
    verifyBroadcasts g out vs ≠ .abort := by
  obtain ⟨w,rfl⟩ := target
  induction vs with
  | nil => rintro ⟨⟩
  | cons v vs ih =>
    obtain ⟨⟨x,rfl⟩,rest⟩ := forall_mem_cons.mp present
    rw [verifyBroadcasts,Graph.operandType,bindOfOk]
    split
    · rw [Graph.operandType,bindOfOk]
      refine bindAnswers ?_ fun _ _ => ih rest
      unfold verifyBroadcast
      split
      · rintro ⟨⟩
      · split
        · rintro ⟨⟩
        · split
          · rintro ⟨⟩
          · rintro ⟨⟩
    · exact ih rest

theorem verifyElementwiseAnswers (present : ∀ v ∈ op.operands, ∃ w, v = some w) (some : op.operands ≠ []) :
    verifyElementwise g op ≠ .abort := by
  have last : op.operands.getLast? = .some (op.operands.getLast some) := getLast?_eq_some_getLast some
  have target := present _ (getLast_mem some)
  have inputs : inputs op = .ok op.operands.dropLast := by
    rw [Primitive.inputs,if_neg]
    simpa using some
  rw [verifyElementwise,output,last,ofOption,bindOfOk]
  obtain ⟨w,same⟩ := target
  rw [same,Graph.operandType,bindOfOk]
  refine checkAnswers fun _ => ?_
  rw [inputs,bindOfOk]
  exact verifyBroadcastsAnswers ⟨w,rfl⟩ fun v mem => present v (mem_of_mem_dropLast mem)

theorem verifyReluAnswers (present : ∀ v ∈ op.operands, ∃ w, v = some w) (two : op.operands.length = 2) :
    verifyRelu g op ≠ .abort := by
  obtain ⟨x,y,operands⟩ := length_eq_two.mp two
  rw [operands] at present
  obtain ⟨⟨x,rfl⟩,rest⟩ := forall_mem_cons.mp present
  obtain ⟨⟨y,rfl⟩,-⟩ := forall_mem_cons.mp rest
  rw [verifyRelu,operands]
  simp only [Graph.operandType,bindOfOk]
  split
  · split
    · rintro ⟨⟩
    · rintro ⟨⟩
  · rintro ⟨⟩

theorem countCases {kind want} (count : inputCount? kind = some want) :
    (kind = identityKind ∨ kind = reluKind) ∧ want = 1 ∨
      (kind = addKind ∨ kind = matmulKind ∨ kind = brgemmKind ∨ kind = vnniMatmulKind) ∧ want = 2 := by
  unfold inputCount? at count
  split at count
  · cases count
    exact .inl ⟨‹_›,rfl⟩
  · split at count
    · cases count
      exact .inr ⟨‹_›,rfl⟩
    · cases count

theorem verifyAnswers (present : ∀ v ∈ op.operands, ∃ w, v = some w) : verify g op ≠ .abort := by
  unfold verify
  cases count : inputCount? op.kind with
  | none => exact nofun
  | some want =>
    dsimp only
    split
    · exact nofun
    · rename_i length
      rw [not_not] at length
      have some : op.operands ≠ [] := fun none => by rw [none] at length; cases length
      unfold verifyKnown
      rcases countCases count with ⟨identity | relu,rfl⟩ | ⟨add | matmul | brgemm | vnni,rfl⟩
      · simp only [identity,identityKind,matmulKind,brgemmKind,vnniMatmulKind,reluKind,String.reduceEq,if_false]
        exact verifyElementwiseAnswers present some
      · simp only [relu,matmulKind,brgemmKind,vnniMatmulKind,reluKind,String.reduceEq,if_false,if_true]
        exact bindAnswers (verifyReluAnswers present length) fun _ _ => verifyElementwiseAnswers present some
      · simp only [add,addKind,matmulKind,brgemmKind,vnniMatmulKind,reluKind,String.reduceEq,if_false]
        exact verifyElementwiseAnswers present some
      · rw [if_pos matmul]
        refine rankedAnswers present length rfl fun a b c ranks => verifyMatmulAnswers ?_
        simpa [rank] using ranks
      · rw [if_neg (by rw [brgemm]; decide),if_pos brgemm]
        refine rankedAnswers present length rfl fun a b c ranks => ?_
        simp only [map_cons,map_nil,rank,cons.injEq,and_true] at ranks
        obtain ⟨a0,a1,a2,sameA⟩ := length_eq_three.mp ranks.1
        obtain ⟨b0,b1,b2,sameB⟩ := length_eq_three.mp ranks.2.1
        rw [sameA,sameB,verifyBrgemm]
        split
        · exact verifyMatmulAnswers ⟨rfl,rfl,ranks.2.2⟩
        · exact nofun
      · rw [if_neg (by rw [vnni]; decide),if_neg (by rw [vnni]; decide),if_pos vnni]
        refine rankedAnswers present length rfl fun a b c ranks => checkAnswers fun _ => ?_
        simp only [map_cons,map_nil,rank,cons.injEq,and_true] at ranks
        obtain ⟨a0,a1,sameA⟩ := length_eq_two.mp ranks.1
        obtain ⟨b0,b1,b2,sameB⟩ := length_eq_three.mp ranks.2.1
        obtain ⟨c0,c1,sameC⟩ := length_eq_two.mp ranks.2.2
        rw [sameA,sameB,sameC,verifyVnni]
        split
        · exact nofun
        · exact nofun

/- What is known of the operands of a primitive that passes the check. -/

theorem verifyCount (ok : verify g op = .ok ()) : ∃ want, inputCount? op.kind = some want ∧
    op.operands.length = want + 1 ∧ verifyKnown g op = .ok () := by
  unfold verify at ok
  cases count : inputCount? op.kind with
  | none =>
    rw [count] at ok
    exact absurd ok failOk
  | some want =>
    rw [count] at ok
    dsimp only at ok
    split at ok
    · exact absurd ok failOk
    · rename_i length
      exact ⟨want,rfl,not_not.mp length,ok⟩

theorem unaryOperands (ok : verify g op = .ok ()) (kind : op.kind = identityKind ∨ op.kind = reluKind) :
    ∃ x y, op.operands = [x, y] := by
  obtain ⟨want,count,length,-⟩ := verifyCount ok
  rw [inputCount?,if_pos kind] at count
  cases count
  exact length_eq_two.mp length

theorem addOperands (ok : verify g op = .ok ()) (kind : op.kind = addKind) : ∃ x y z, op.operands = [x, y, z] := by
  obtain ⟨want,count,length,-⟩ := verifyCount ok
  rw [inputCount?,if_neg (by rw [kind]; decide),if_pos (.inl kind)] at count
  cases count
  exact length_eq_three.mp length

theorem verifyMatmulOk {as bs cs} (ok : verifyMatmul as bs cs = .ok ()) :
    ∃ m n k, as = [m, k] ∧ bs = [k, n] ∧ cs = [m, n] := by
  unfold verifyMatmul at ok
  split at ok
  · split at ok
    · rename_i same
      obtain ⟨rfl,rfl,rfl⟩ := same
      exact ⟨_,_,_,rfl,rfl,rfl⟩
    · exact absurd ok failOk
  · exact absurd ok abortOk

def Multiplies (kind : String) (as bs cs : List Int64) : Prop :=
  (kind = matmulKind ∧ ∃ m n k, as = [m, k] ∧ bs = [k, n] ∧ cs = [m, n]) ∨
  (kind = brgemmKind ∧ ∃ p m n k, as = [p, m, k] ∧ bs = [p, k, n] ∧ cs = [m, n]) ∨
  (kind = vnniMatmulKind ∧ ∃ m n p v, as = [m, p * v] ∧ bs = [p, n, v] ∧ cs = [m, n])

section Contraction

variable (ok : verify g op = .ok ()) (kind : op.kind = matmulKind ∨ op.kind = brgemmKind ∨ op.kind = vnniMatmulKind)

include ok kind

theorem multiplies {a b c} (operands : op.operands = [some a, some b, some c]) :
    Multiplies op.kind (g.typeOf a).dims (g.typeOf b).dims (g.typeOf c).dims := by
  obtain ⟨-,-,-,known⟩ := verifyCount ok
  unfold verifyKnown at known
  rw [operands] at known
  rcases kind with matmul | brgemm | vnni
  · rw [if_pos matmul] at known
    obtain ⟨_,-,known⟩ := bindOk.mp known
    exact .inl ⟨matmul,verifyMatmulOk known⟩
  · rw [if_neg (by rw [brgemm]; decide),if_pos brgemm] at known
    obtain ⟨_,-,known⟩ := bindOk.mp known
    change verifyBrgemm _ _ _ = _ at known
    unfold verifyBrgemm at known
    split at known
    · rename_i p as q bs firstA firstB
      split at known
      · rename_i same
        obtain ⟨m,n,k,rfl,rfl,dimsC⟩ := verifyMatmulOk known
        exact .inr (.inl ⟨brgemm,p,m,n,k,firstA,same ▸ firstB,dimsC⟩)
      · exact absurd known failOk
    · exact absurd known abortOk
  · rw [if_neg (by rw [vnni]; decide),if_neg (by rw [vnni]; decide),if_pos vnni] at known
    obtain ⟨_,-,known⟩ := bindOk.mp known
    obtain ⟨-,known⟩ := (checkOk fun _ => failOk).mp known
    unfold verifyVnni at known
    split at known
    · rename_i dimsA dimsB dimsC
      split at known
      · rename_i same
        obtain ⟨rfl,rfl,rfl⟩ := same
        exact .inr (.inr ⟨vnni,_,_,_,_,dimsA,dimsB,dimsC⟩)
      · exact absurd known failOk
    · exact absurd known abortOk

theorem contractionOperands : ∃ a b c, op.operands = [some a, some b, some c] := by
  obtain ⟨want,count,length,known⟩ := verifyCount ok
  rw [inputCount?,if_neg (by rcases kind with h | h | h <;> (rw [h]; decide)),if_pos (.inr kind)] at count
  cases count
  have types : ∃ ts, g.operandTypes op.operands = .ok ts := by
    unfold verifyKnown at known
    split at known
    · obtain ⟨_,-,known⟩ := bindOk.mp known
      exact (bindOk.mp known).imp fun _ => And.left
    · split at known
      · obtain ⟨_,-,known⟩ := bindOk.mp known
        exact (bindOk.mp known).imp fun _ => And.left
      · rw [if_pos (by tauto)] at known
        obtain ⟨_,-,known⟩ := bindOk.mp known
        exact (bindOk.mp known).imp fun _ => And.left
  obtain ⟨ts,types⟩ := types
  have present := Graph.presentOfTypes types
  obtain ⟨x,y,z,operands⟩ := length_eq_three.mp length
  rw [operands] at present ⊢
  obtain ⟨⟨a,rfl⟩,second⟩ := forall_mem_cons.mp present
  obtain ⟨⟨b,rfl⟩,third⟩ := forall_mem_cons.mp second
  obtain ⟨⟨c,rfl⟩,-⟩ := forall_mem_cons.mp third
  exact ⟨a,b,c,rfl⟩

theorem contractionRanks :
    ∃ a b c, op.operands = [some a, some b, some c] ∧
      (g.typeOf a).rank = (if op.kind = brgemmKind then 3 else 2) ∧ (g.typeOf c).rank = 2 := by
  obtain ⟨a,b,c,operands⟩ := contractionOperands ok kind
  refine ⟨a,b,c,operands,?_⟩
  rw [rank,rank]
  rcases multiplies ok kind operands with ⟨matmul,_,_,_,dimsA,-,dimsC⟩ | ⟨brgemm,_,_,_,_,dimsA,-,dimsC⟩ |
    ⟨vnni,_,_,_,_,dimsA,-,dimsC⟩
  · rw [dimsA,dimsC,if_neg (by rw [matmul]; decide)]
    exact ⟨rfl,rfl⟩
  · rw [dimsA,dimsC,if_pos brgemm]
    exact ⟨rfl,rfl⟩
  · rw [dimsA,dimsC,if_neg (by rw [vnni]; decide)]
    exact ⟨rfl,rfl⟩

end Contraction

theorem verifyBroadcastsOk {out vs} (ok : verifyBroadcasts g (some out) vs = .ok ()) :
    ∃ ws : List Value, vs = ws.map some ∧ ∀ w ∈ ws, verifyBroadcast (g.typeOf w) (g.typeOf out) = .ok () := by
  induction vs with
  | nil => exact ⟨[],rfl,nofun⟩
  | cons x vs ih =>
    obtain ⟨t,type,ok⟩ := bindOk.mp ok
    have split : verifyBroadcast t (g.typeOf out) = .ok () ∧ verifyBroadcasts g (some out) vs = .ok () := by
      split at ok
      · obtain ⟨_,target,ok⟩ := bindOk.mp ok
        cases target
        obtain ⟨_,here,ok⟩ := bindOk.mp ok
        exact ⟨here,ok⟩
      · rename_i scalar
        exact ⟨by rw [verifyBroadcast,if_pos scalar],ok⟩
    obtain ⟨w,rfl⟩ := Graph.operandTypePresent type
    obtain ⟨ws,rfl,fits⟩ := ih split.2
    cases type
    exact ⟨w :: ws,rfl,forall_mem_cons.mpr ⟨split.1,fits⟩⟩

theorem verifyElementwiseOk (ok : verify g op = .ok ()) (kind : op.kind ∈ [identityKind, reluKind, addKind]) :
    verifyElementwise g op = .ok () := by
  obtain ⟨-,-,-,ok⟩ := verifyCount ok
  simp only [mem_cons,not_mem_nil,or_false] at kind
  unfold verifyKnown at ok
  rcases kind with kind | kind | kind
  · simpa only [kind,identityKind,matmulKind,brgemmKind,vnniMatmulKind,reluKind,String.reduceEq,if_false] using ok
  · simp only [kind,matmulKind,brgemmKind,vnniMatmulKind,reluKind,String.reduceEq,if_false,if_true] at ok
    obtain ⟨_,-,ok⟩ := bindOk.mp ok
    exact ok
  · simpa only [kind,addKind,matmulKind,brgemmKind,vnniMatmulKind,reluKind,String.reduceEq,if_false] using ok

theorem elementwiseOperands (ok : verifyElementwise g op = .ok ()) :
    ∃ (vs : List Value) (out : Value), op.operands = vs.map some ++ [some out] ∧
      ((g.typeOf out).isShaped = true → (g.typeOf out).rank ≤ 2) ∧
      ∀ v ∈ vs, verifyBroadcast (g.typeOf v) (g.typeOf out) = .ok () := by
  obtain ⟨_,output,ok⟩ := bindOk.mp ok
  obtain ⟨_,type,ok⟩ := bindOk.mp ok
  obtain ⟨out,rfl⟩ := Graph.operandTypePresent type
  cases type
  obtain ⟨large,ok⟩ := (checkOk fun _ => failOk).mp ok
  obtain ⟨ins,inputs,ok⟩ := bindOk.mp ok
  obtain ⟨vs,ins,fits⟩ := verifyBroadcastsOk ok
  refine ⟨vs,out,?_,fun shaped => by simpa [shaped] using large,fits⟩
  unfold Primitive.inputs at inputs
  split at inputs
  · exact absurd inputs abortOk
  · cases inputs
    rw [← ins]
    exact (dropLast_append_getLast? _ (ofOptionOk.mp output)).symm

theorem elementwiseFits {out} (ok : verifyElementwise g op = .ok ()) (last : op.operands.getLast? = some (some out)) :
    ((g.typeOf out).isShaped = true → (g.typeOf out).rank ≤ 2) ∧
      ∀ v, some v ∈ op.operands.dropLast → verifyBroadcast (g.typeOf v) (g.typeOf out) = .ok () := by
  obtain ⟨vs,z,operands,rank,fits⟩ := elementwiseOperands ok
  obtain rfl : z = out := by simpa [operands] using last
  exact ⟨rank,fun v mem => fits v (by simpa [operands] using mem)⟩

theorem elementwiseBroadcasts {out} (ok : verify g op = .ok ()) (kind : op.kind = identityKind ∨ op.kind = addKind)
    (last : op.operands.getLast? = some (some out)) :
    ∀ v, some v ∈ op.operands.dropLast → verifyBroadcast (g.typeOf v) (g.typeOf out) = .ok () :=
  (elementwiseFits (verifyElementwiseOk ok (by rcases kind with kind | kind <;> simp [kind])) last).2

end Primitive

end TileLower
