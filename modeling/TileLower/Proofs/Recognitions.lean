import TileLower.Proofs.Bodies
import TileLower.Proofs.Preservation
import TileLower.Proofs.Signatures

/-!
What the analyses of bodies tell is true of what bodies compute. The values of a body solve the equations of its
operations, and a chain of operations with one operand hands a value on.
-/
namespace TileLower

class Scalar.Commutes (α : Type) [Scalar α] : Prop where
  add : ∀ x y : α, Scalar.add x y = Scalar.add y x
  mul : ∀ x y : α, Scalar.mul x y = Scalar.mul y x

instance : Scalar.Commutes Int := ⟨Int.add_comm,Int.mul_comm⟩

def Arith.counts? (kind : String) : Option (Nat × Nat) :=
  if kind = constantKind then some (0, 1)
  else if isAdd kind || isMul kind || kind == subKind || kind == maxKind then some (2, 1)
  else if isCast kind then some (1, 1)
  else none

namespace Graph

variable {g : Graph} {b c : BlockId} {scope : List Value} {id j : OpId}

theorem Inside.trans {r} (outer : Inside g b c) (inner : Inside g c r) : Inside g b r := by
  induction inner with
  | here mem region => exact .deeper outer mem region
  | deeper _ mem region ih => exact .deeper ih mem region

theorem Scope.originArgument {i} (outer : Scope g b scope) (mem : .argument c i ∈ scope) : Inside g c b := by
  induction outer with
  | body => cases mem
  | @region b visible pre post k r outer split region ih =>
    have listed : k ∈ (g.block b).ops := by simp [split]
    rcases List.mem_append.mp mem with mem | results
    · rcases List.mem_append.mp mem with old | args
      · exact .deeper (ih old) listed region
      · obtain ⟨_,-,same⟩ := memArguments args
        cases same
        exact .here listed region
    · obtain ⟨_,-,_,-,same⟩ := memComputed results
      cases same

theorem walkScoped {n} (outer : Scope g b scope) (mem : j ∈ g.walk n b) :
    ∃ c around, Scope g c around ∧ j ∈ (g.block c).ops ∧ (c = b ∨ Inside g b c) := by
  induction n generalizing b scope with
  | zero => cases mem
  | succ n ih =>
    obtain ⟨k,listed,mem⟩ := List.mem_flatMap.mp mem
    obtain ⟨pre,post,split⟩ := List.append_of_mem listed
    rcases List.mem_cons.mp mem with rfl | inner
    · exact ⟨b,scope,outer,listed,.inl rfl⟩
    · cases region : (g.op k).region with
      | none => rw [region] at inner; cases inner
      | some r =>
        rw [region] at inner
        obtain ⟨c,around,there,mem,inside⟩ := ih (.region outer split region) inner
        refine ⟨c,around,there,mem,.inr ?_⟩
        rcases inside with rfl | deeper
        · exact .here listed region
        · exact (Inside.here listed region).trans deeper

structure Encloses (g : Graph) (scope : List Value) (b : BlockId) : Prop where
  formed : g.WellFormed
  around : g.Scope b scope

namespace Encloses

variable (encloses : g.Encloses scope b)

include encloses

theorem irrefl : ¬ Inside g b b := by
  obtain ⟨⟨_,-,formed⟩,-⟩ := encloses.around.formed encloses.formed
  exact Inside.irrefl formed

theorem closed : Closed g scope := (encloses.around.formed encloses.formed).2

theorem walked {n} (mem : j ∈ g.walk n b) (i : Nat) : .result j i ∉ scope := fun visible => by
  obtain ⟨c,_,outer,there,inside⟩ := encloses.around.origin visible
  obtain ⟨c',_,inner,here,place⟩ := walkScoped encloses.around mem
  obtain rfl : c = c' := Option.some.inj ((outer.block encloses.formed there).symm.trans (inner.block encloses.formed here))
  rcases place with rfl | deeper
  · exact encloses.irrefl inside
  · exact encloses.irrefl (deeper.trans inside)

theorem listed (mem : j ∈ (g.block b).ops) (i : Nat) : .result j i ∉ scope :=
  encloses.walked (n := 1) (List.mem_flatMap.mpr ⟨j,mem,.head _⟩) i

theorem argument (i : Nat) : .argument b i ∉ scope := fun visible =>
  encloses.irrefl (encloses.around.originArgument visible)

theorem uses {pre post} (split : (g.block b).ops = pre ++ j :: post) {v} (used : v ∈ (g.op j).operands) :
    ∃ w, v = some w ∧ w ∈ scope ++ g.argumentsOf b ++ g.computed pre := by
  obtain ⟨⟨_,-,formed⟩,-⟩ := At.formed ⟨scope,pre,post,encloses.around,split,rfl⟩ encloses.formed
  exact formed.operands v used

end Encloses

structure Sees (g : Graph) (scope : List Value) (b : BlockId) : Prop where
  uses : ∀ pre j post, (g.block b).ops = pre ++ j :: post → ∀ v ∈ (g.op j).operands,
    ∃ w, v = some w ∧ w ∈ scope ++ g.argumentsOf b ++ g.computed pre
  closed : Closed g scope
  walked : ∀ j ∈ g.walkFrom b, ∀ i, .result j i ∉ scope
  listed : ∀ j ∈ (g.block b).ops, ∀ i, .result j i ∉ scope
  argument : ∀ i, .argument b i ∉ scope

theorem Encloses.sees (encloses : g.Encloses scope b) : g.Sees scope b :=
  ⟨fun _ _ _ split _ used => encloses.uses split used,encloses.closed,fun _ mem => encloses.walked mem,
    fun _ mem => encloses.listed mem,encloses.argument⟩

/-- A body of scalar operations, with the numbers of operands and results of their kinds, and one yield at its end. -/
structure Straight (g : Graph) (b : BlockId) (pre : List OpId) (yield : OpId) : Prop where
  ops : (g.block b).ops = pre ++ [yield]
  yields : (g.op yield).kind = Structured.yieldKind
  scalars : ∀ j ∈ pre, (g.op j).kind ≠ Structured.yieldKind
  counts : ∀ j ∈ pre, ∀ c ∈ Arith.counts? (g.op j).kind, (g.op j).operands.length = c.1 ∧ (g.op j).results.length = c.2

end Graph

namespace Outcome

theorem andOk {x y : Outcome Bool} : (x <&&> y) = .ok true ↔ x = .ok true ∧ y = .ok true := by
  cases x with
  | error => exact ⟨nofun,nofun⟩
  | ok a => cases a <;> simp [andM,toBool]

theorem orOk {x y : Outcome Bool} (ok : (x <||> y) = .ok true) : x = .ok true ∨ y = .ok true := by
  cases x with
  | error => cases ok
  | ok a =>
    cases a with
    | false => exact .inr ok
    | true => exact .inl rfl

end Outcome

namespace Body

variable {g : Graph} {b : BlockId}

theorem singleOpOk {kind id} (found : singleOp? g b kind = some id) : id ∈ g.walkFrom b ∧ (g.op id).kind = kind := by
  unfold singleOp? at found
  split at found
  · rename_i only
    cases found
    have mem : id ∈ (g.walkFrom b).filter fun id => (g.op id).kind = kind := by rw [only]; exact List.mem_singleton_self id
    simpa using List.mem_filter.mp mem
  · cases found

theorem isAddMulOfOk {v : Operand} {addKind mulKind : String} (ok : isAddMulOf g b v addKind mulKind = .ok true) :
    ∃ add mul, (add ∈ g.walkFrom b ∧ (g.op add).kind = addKind) ∧ (mul ∈ g.walkFrom b ∧ (g.op mul).kind = mulKind) ∧
      comesFrom g v (.result add 0) = .ok true ∧
      ∃ c₁ c₂, (g.op add).operands[0]? = some c₁ ∧ (g.op add).operands[1]? = some c₂ ∧
        (comesFrom g c₁ (.argument b 2) = .ok true ∧ comesFrom g c₂ (.result mul 0) = .ok true ∨
          comesFrom g c₁ (.result mul 0) = .ok true ∧ comesFrom g c₂ (.argument b 2) = .ok true) ∧
        ∃ x₁ x₂, (g.op mul).operands[0]? = some x₁ ∧ (g.op mul).operands[1]? = some x₂ ∧
          (comesFrom g x₁ (.argument b 0) = .ok true ∧ comesFrom g x₂ (.argument b 1) = .ok true ∨
            comesFrom g x₁ (.argument b 1) = .ok true ∧ comesFrom g x₂ (.argument b 0) = .ok true) := by
  unfold isAddMulOf at ok
  split at ok
  · rename_i add mul foundAdd foundMul
    dsimp only at ok
    obtain ⟨_,result,ok⟩ := Outcome.bindOk.mp ok
    obtain ⟨-,rfl⟩ := Graph.resultAtOk.mp result
    obtain ⟨fromSum,sum,ok⟩ := Outcome.bindOk.mp ok
    cases fromSum with
    | false => cases ok
    | true =>
      rw [if_pos rfl] at ok
      obtain ⟨c₁,firstAdd,ok⟩ := Outcome.bindOk.mp ok
      obtain ⟨c₂,secondAdd,ok⟩ := Outcome.bindOk.mp ok
      obtain ⟨_,result,ok⟩ := Outcome.bindOk.mp ok
      obtain ⟨-,rfl⟩ := Graph.resultAtOk.mp result
      obtain ⟨adds,terms,ok⟩ := Outcome.bindOk.mp ok
      cases adds with
      | false => cases ok
      | true =>
        rw [if_pos rfl] at ok
        obtain ⟨x₁,firstMul,ok⟩ := Outcome.bindOk.mp ok
        obtain ⟨x₂,secondMul,factors⟩ := Outcome.bindOk.mp ok
        exact ⟨add,mul,singleOpOk foundAdd,singleOpOk foundMul,sum,c₁,c₂,Graph.operandAtOk.mp firstAdd,
          Graph.operandAtOk.mp secondAdd,(Outcome.orOk terms).imp Outcome.andOk.mp Outcome.andOk.mp,x₁,x₂,
          Graph.operandAtOk.mp firstMul,Graph.operandAtOk.mp secondMul,
          (Outcome.orOk factors).imp Outcome.andOk.mp Outcome.andOk.mp⟩
  · cases ok

end Body

namespace Eval

variable {α : Type} [Scalar α] {g : Graph} {b : BlockId} {pre : List OpId} {yield : OpId} {scope : List Value}

omit [Scalar α] in
theorem bindArgsOk {args : List α} {n i : Nat} {env env' : Locals α} (ok : bindArgs b args n i env = .ok env') :
    ∀ k, i ≤ k → k < i + n → args[k]? = some (env' (.argument b k)) := by
  induction n generalizing i env with
  | zero => intro k le lt; omega
  | succ n ih =>
    rw [bindArgs] at ok
    split at ok
    · exact absurd ok Outcome.abortOk
    · rename_i x found
      intro k le lt
      rcases Nat.eq_or_lt_of_le le with rfl | later
      · have before (k : Nat) (le : i + 1 ≤ k) : Value.argument b i ≠ .argument b k := by simp; omega
        rw [bindArgsOther ok before,Locals.set,if_pos rfl,found]
      · exact ih ok k later (by omega)

theorem evalScalarCongr {env env' : Locals α} {id} (same : ∀ v ∈ (g.op id).operands, env'.read v = env.read v) :
    evalScalar g env' id = evalScalar g env id := by
  have operand (i : Nat) : operandValue g env' id i = operandValue g env id i := by
    rw [operandValue,operandValue,Graph.operandAt]
    cases at_ : (g.op id).operands[i]? with
    | none => rfl
    | some v => exact congrArg Except.ok (same v (List.mem_of_getElem? at_))
  unfold evalScalar
  simp only [operand]

structure Solves (g : Graph) (b : BlockId) (pre : List OpId) (args : List α) (env : Locals α) : Prop where
  args : ∀ i, i < (g.block b).args.length → args[i]? = some (env (.argument b i))
  scalars : ∀ j ∈ pre, evalScalar g env j = .ok (env (.result j 0))
  outside : ∀ v, (∀ i, v ≠ .argument b i) → (∀ j ∈ pre, v ≠ .result j 0) → env v = Scalar.zero

/- What is computed solves the equations of the operations that are done. An operation that is listed again has its value
already, since what it uses came before it the first time. -/
theorem evalOpsSolve (yields : (g.op yield).kind = Structured.yieldKind) (done : List OpId)
    (scalars : ∀ j ∈ pre, (g.op j).kind ≠ Structured.yieldKind)
    (sorted : ∀ before j after, done ++ pre = before ++ j :: after → ∀ k ∈ done ++ pre,
      some (.result k 0) ∈ (g.op j).operands → k ∈ before) {env}
    (solved : ∀ j ∈ done, evalScalar g env j = .ok (env (.result j 0))) {ys}
    (ok : evalOps g env (pre ++ [yield]) = .ok ys) :
    ∃ env' : Locals α, (∀ v, (∀ j ∈ pre, v ≠ .result j 0) → env' v = env v) ∧ (∀ j ∈ done ++ pre,
      evalScalar g env' j = .ok (env' (.result j 0))) ∧ ys = (g.op yield).operands.map env'.read := by
  induction pre generalizing done env with
  | nil =>
    rw [List.nil_append,evalOps,if_pos yields] at ok
    exact ⟨env,fun _ _ => rfl,by simpa using solved,(Except.ok.inj ok).symm⟩
  | cons j pre ih =>
    rw [List.cons_append,evalOps,if_neg (scalars j (.head _))] at ok
    obtain ⟨x,value,ok⟩ := Outcome.bindOk.mp ok
    obtain ⟨v,result,ok⟩ := Outcome.bindOk.mp ok
    obtain ⟨-,rfl⟩ := Graph.resultAtOk.mp result
    have again : done ++ j :: pre = (done ++ [j]) ++ pre := by simp
    have apart (old : j ∉ done) (before after : List OpId) {i : OpId} (split : done ++ j :: pre = before ++ i :: after)
        (early : before <+: done) : evalScalar g (env.set (.result j 0) x) i = evalScalar g env i := by
      refine evalScalarCongr fun v used => ?_
      cases v with
      | none => rfl
      | some v =>
        refine if_neg fun same => old (early.subset ?_)
        exact sorted before i after split j (by simp) (same ▸ used)
    have solved : ∀ i ∈ done ++ [j], evalScalar g (env.set (.result j 0) x) i = .ok (env.set (.result j 0) x (.result i 0)) := by
      intro i mem
      by_cases old : j ∈ done
      · have same : env.set (.result j 0) x = env := by
          funext v
          rw [Locals.set]
          split
          · rename_i here
            rw [here]
            exact Except.ok.inj (value.symm.trans (solved j old))
          · rfl
        rw [same]
        exact solved i ((List.mem_append.mp mem).elim id fun here => List.mem_singleton.mp here ▸ old)
      · rcases List.mem_append.mp mem with mem | here
        · obtain ⟨before,after,split⟩ := List.append_of_mem mem
          rw [apart old before (after ++ j :: pre) (by rw [split]; simp) (split ▸ List.prefix_append ..),solved i mem,
            Locals.set,if_neg fun same => old (by cases same; exact mem)]
        · obtain rfl := List.mem_singleton.mp here
          rw [apart old done pre rfl (List.prefix_refl _),value,Locals.set,if_pos rfl]
    obtain ⟨env',kept,solved,yielded⟩ := ih (done ++ [j]) (fun i mem => scalars i (.tail _ mem)) (again ▸ sorted) solved ok
    refine ⟨env',fun v other => ?_,again ▸ solved,yielded⟩
    rw [kept v fun i mem => other i (.tail _ mem),Locals.set,if_neg (other j (.head _))]

section Body

variable (sees : g.Sees scope b) (straight : g.Straight b pre yield)

include sees straight

theorem evalBodySolves {args ys : List α} (ok : evalBody g b args = .ok ys) :
    ∃ env, Solves g b pre args env ∧ ys = (g.op yield).operands.map env.read := by
  obtain ⟨env₀,bound,ok⟩ := Outcome.bindOk.mp ok
  rw [straight.ops] at ok
  obtain ⟨env,kept,solved,yielded⟩ := evalOpsSolve straight.yields [] straight.scalars
    (fun before j after split k mem used => by
      have whole : (g.block b).ops = before ++ j :: (after ++ [yield]) := by
        rw [straight.ops,← List.nil_append pre,split]
        simp
      obtain ⟨w,same,visible⟩ := sees.uses _ _ _ whole _ used
      cases same
      exact ((Graph.seenResult visible).resolve_left
        (sees.listed k (straight.ops ▸ List.mem_append_left _ mem) 0)).1) nofun ok
  refine ⟨env,⟨fun i within => ?_,solved,fun v args results => ?_⟩,yielded⟩
  · rw [kept (.argument b i) fun _ _ => nofun]
    exact bindArgsOk bound i (Nat.zero_le i) (by rw [Nat.zero_add]; exact within)
  · rw [kept v results,bindArgsOther bound fun k _ => args k]

theorem usesKnown {j} (mem : j ∈ pre ++ [yield]) {v} (used : v ∈ (g.op j).operands) :
    ∃ w, v = some w ∧ w ∈ scope ++ g.argumentsOf b ++ g.computed pre := by
  obtain ⟨before,after,split⟩ := List.append_of_mem mem
  obtain ⟨w,rfl,visible⟩ := sees.uses _ _ _ (straight.ops.trans split) _ used
  have early : before <+: pre := by
    have whole : before <+: pre ++ [yield] := split ▸ List.prefix_append ..
    refine List.prefix_of_prefix_length_le whole (List.prefix_append ..) ?_
    have length := congrArg List.length split
    simp only [List.length_append,List.length_cons,List.length_nil] at length
    omega
  obtain ⟨rest,rfl⟩ := early
  refine ⟨w,rfl,?_⟩
  rw [Graph.computedAppend,← List.append_assoc]
  exact List.mem_append_left _ visible

theorem yieldKnown {v} (yielded : (g.op yield).operands = [some v]) :
    v ∈ scope ++ g.argumentsOf b ++ g.computed pre := by
  obtain ⟨_,same,known⟩ := usesKnown sees straight (List.mem_append_right _ (.head _))
    (yielded ▸ List.mem_singleton_self (some v))
  cases same
  exact known

omit sees in
theorem castValue {env : Locals α} {j v} (mem : j ∈ pre) (unary : (g.op j).operands = [v]) {x}
    (ok : evalScalar g env j = .ok x) : (g.op j).results.length = 1 ∧ x = env.read v := by
  have second : operandValue g env j 1 = Outcome.abort := by
    rw [operandValue,Graph.operandAt,unary]
    rfl
  have binary (f : α → α → α) : (do .ok (f (← operandValue g env j 0) (← operandValue g env j 1))) ≠ .ok x := by
    intro ok
    obtain ⟨_,-,ok⟩ := Outcome.bindOk.mp ok
    rw [second] at ok
    cases ok
  unfold evalScalar at ok
  dsimp only at ok
  split at ok
  · rename_i kind
    have counts := straight.counts j mem (0, 1) (by rw [kind]; rfl)
    rw [unary] at counts
    cases counts.1
  · iterate 4
      split at ok
      · exact absurd ok (binary _)
    split at ok
    · rename_i kind
      rw [operandValueOk (v := v) (by rw [unary]; rfl)] at ok
      have kinds : (g.op j).kind = Arith.truncKind ∨ (g.op j).kind = Arith.extendKind ∨
          (g.op j).kind = Arith.intToFloatKind := by simpa [Arith.isCast,or_assoc] using kind
      have counts := straight.counts j mem (1, 1) (by rcases kinds with kind | kind | kind <;> rw [kind] <;> rfl)
      exact ⟨counts.2,(Except.ok.inj ok).symm⟩
    · exact absurd ok Outcome.failOk

omit straight in
theorem chainOutside {source fuel v} (outer : v ∈ scope)
    (chain : Body.isUnaryChainFrom g source fuel (some v) = .ok true) : source ∈ scope := by
  induction fuel generalizing v with
  | zero => cases chain
  | succ fuel ih =>
    unfold Body.isUnaryChainFrom at chain
    split at chain
    · rename_i same
      exact same ▸ outer
    · cases v with
      | argument => cases chain
      | result k i =>
        dsimp only at chain
        split at chain
        · rename_i w unary
          obtain ⟨u,rfl,visible⟩ := sees.closed k i outer w (by rw [unary]; exact List.mem_singleton_self w)
          exact ih visible chain
        · cases chain

/- A chain of operations with one operand stays among the values of the body, and hands its first value on. -/
theorem chainHands {args : List α} {env : Locals α} (solves : Solves g b pre args env) {source : Value} {fuel : Nat}
    {v : Value} (known : v ∈ scope ++ g.argumentsOf b ++ g.computed pre)
    (chain : Body.isUnaryChainFrom g source fuel (some v) = .ok true) (inner : source ∉ scope) :
    source ∈ g.argumentsOf b ++ g.computed pre ∧ env v = env source := by
  induction fuel generalizing v with
  | zero => cases chain
  | succ fuel ih =>
    unfold Body.isUnaryChainFrom at chain
    split at chain
    · rename_i same
      subst same
      rw [List.append_assoc] at known
      exact ⟨(List.mem_append.mp known).resolve_left inner,rfl⟩
    · cases v with
      | argument => cases chain
      | result k i =>
        dsimp only at chain
        split at chain
        · rename_i w unary
          have used : w ∈ (g.op k).operands := by rw [unary]; exact List.mem_singleton_self w
          rcases Graph.seenResult known with outer | ⟨mem,within⟩
          · obtain ⟨u,rfl,visible⟩ := sees.closed k i outer w used
            exact absurd (chainOutside sees visible chain) inner
          · obtain ⟨u,rfl,visible⟩ := usesKnown sees straight (List.mem_append_left _ mem) used
            obtain ⟨found,hands⟩ := ih visible chain
            obtain ⟨one,value⟩ := castValue straight mem unary (solves.scalars k mem)
            obtain rfl : i = 0 := by omega
            exact ⟨found,value.trans hands⟩
        · cases chain

theorem comesFromHands {args : List α} {env : Locals α} (solves : Solves g b pre args env) {source : Value} {j : OpId}
    (mem : j ∈ pre ++ [yield]) {v : Operand} (used : v ∈ (g.op j).operands)
    (chain : Body.comesFrom g v source = .ok true) (inner : source ∉ scope) :
    source ∈ g.argumentsOf b ++ g.computed pre ∧ env.read v = env source := by
  obtain ⟨w,rfl,known⟩ := usesKnown sees straight mem used
  exact chainHands sees straight solves known chain inner

end Body

section Accumulation

variable [Scalar.Commutes α] (sees : g.Sees scope b) (straight : g.Straight b pre yield)

include sees straight

theorem addMulHolds {v} (yielded : (g.op yield).operands = [v]) {addKind mulKind} (isAdd : Arith.isAdd addKind = true)
    (isMul : Arith.isMul mulKind = true) (ok : Body.isAddMulOf g b v addKind mulKind = .ok true) {x y z} {env : Locals α}
    (solves : Solves g b pre [x, y, z] env) (three : (g.block b).args.length = 3) :
    env.read v = Scalar.add z (Scalar.mul x y) := by
  obtain ⟨add,mul,walkedAdd,walkedMul,sum,c₁,c₂,firstAdd,secondAdd,terms,x₁,x₂,firstMul,secondMul,factors⟩ :=
    Body.isAddMulOfOk ok
  have argument {j : OpId} {u : Operand} {i : Nat} (mem : j ∈ pre) (used : u ∈ (g.op j).operands)
      (chain : Body.comesFrom g u (.argument b i) = .ok true) : env.read u = env (.argument b i) :=
    (comesFromHands sees straight solves (List.mem_append_left _ mem) used chain (sees.argument i)).2
  have computed {j k : OpId} {u : Operand} (mem : j ∈ pre ++ [yield]) (used : u ∈ (g.op j).operands)
      (chain : Body.comesFrom g u (.result k 0) = .ok true) (walked : k ∈ g.walkFrom b) :
      k ∈ pre ∧ env.read u = env (.result k 0) := by
    obtain ⟨known,same⟩ := comesFromHands sees straight solves mem used chain (sees.walked _ walked 0)
    refine ⟨?_,same⟩
    rcases List.mem_append.mp known with args | results
    · obtain ⟨_,-,same⟩ := Graph.memArguments args
      cases same
    · obtain ⟨k,mem,_,-,same⟩ := Graph.memComputed results
      cases same
      exact mem
  have arguments : env (.argument b 0) = x ∧ env (.argument b 1) = y ∧ env (.argument b 2) = z := by
    have at_ (i : Nat) (within : i < 3) := solves.args i (three.symm ▸ within)
    exact ⟨(Option.some.inj (at_ 0 (by decide))).symm,(Option.some.inj (at_ 1 (by decide))).symm,
      (Option.some.inj (at_ 2 (by decide))).symm⟩
  obtain ⟨memAdd,valueSum⟩ := computed (List.mem_append_right _ (List.mem_singleton_self _))
    (by rw [yielded]; exact List.mem_singleton_self v) sum walkedAdd.1
  have used₁ := List.mem_of_getElem? firstAdd
  have used₂ := List.mem_of_getElem? secondAdd
  have product (memMul : mul ∈ pre) : env (.result mul 0) = Scalar.mul x y := by
    have kind : Arith.isMul (g.op mul).kind = true := walkedMul.2.symm ▸ isMul
    have value := Except.ok.inj ((solves.scalars mul memMul).symm.trans (evalScalarMul firstMul secondMul kind).2)
    rcases factors with ⟨left,right⟩ | ⟨left,right⟩
    · rw [value,argument memMul (List.mem_of_getElem? firstMul) left,argument memMul (List.mem_of_getElem? secondMul) right,
        arguments.1,arguments.2.1]
    · rw [value,argument memMul (List.mem_of_getElem? firstMul) left,argument memMul (List.mem_of_getElem? secondMul) right,
        arguments.1,arguments.2.1,Scalar.Commutes.mul]
  have kind : Arith.isAdd (g.op add).kind = true := walkedAdd.2.symm ▸ isAdd
  have value := Except.ok.inj ((solves.scalars add memAdd).symm.trans (evalScalarAdd firstAdd secondAdd kind).2)
  rcases terms with ⟨left,right⟩ | ⟨left,right⟩
  · obtain ⟨memMul,same⟩ := computed (List.mem_append_left _ memAdd) used₂ right walkedMul.1
    rw [valueSum,value,argument memAdd used₁ left,arguments.2.2,same,product memMul]
  · obtain ⟨memMul,same⟩ := computed (List.mem_append_left _ memAdd) used₁ left walkedMul.1
    rw [valueSum,value,argument memAdd used₂ right,arguments.2.2,same,product memMul,Scalar.Commutes.add]

theorem isAddMulAccumulates (ok : Body.isAddMul g b = .ok true) {x y z : α} {ys : List α}
    (ran : evalBody g b [x, y, z] = .ok ys) : ys = [Scalar.add z (Scalar.mul x y)] := by
  obtain ⟨env,solves,rfl⟩ := evalBodySolves sees straight ran
  unfold Body.isAddMul at ok
  split at ok
  · cases ok
  · rename_i three
    have last : g.terminator? b = some yield := by rw [Graph.terminator?,straight.ops,List.getLast?_concat]
    rw [last] at ok
    dsimp only [Option.map_some] at ok
    split at ok
    · rename_i v yielded
      have yielded := Option.some.inj yielded
      rw [yielded]
      have three := not_not.mp three
      rcases Outcome.orOk ok with float | int
      · exact congrArg (· :: []) (addMulHolds sees straight yielded rfl rfl float solves three)
      · exact congrArg (· :: []) (addMulHolds sees straight yielded rfl rfl int solves three)
    · cases ok

end Accumulation

/-- Recognition of a multiplication that accumulates is sound. A cast must have one result: the others of it are never
computed, and a chain goes through them all the same. -/
theorem addMulRecognized [Scalar.Commutes α] (straight : g.Straight b pre yield)
    (own : ∀ before j after, (g.block b).ops = before ++ j :: after → ∀ v ∈ (g.op j).operands,
      ∃ w, v = some w ∧ w ∈ g.argumentsOf b ++ g.computed before)
    (found : Body.isAddMul g b = .ok true) {x y z : α} {ys : List α} (ran : evalBody g b [x, y, z] = .ok ys) :
    ys = [Scalar.add z (Scalar.mul x y)] := by
  have sees : g.Sees [] b := ⟨own,nofun,nofun,nofun,nofun⟩
  exact isAddMulAccumulates sees straight found ran

def casting (results yielded : Nat) : Graph :=
  let scalar (kind : String) (operands : List Operand) (results : Nat) : Operation :=
    ⟨kind,operands,List.replicate results (.ofType (.scalar .f32)),OrderedMap.empty,none,some 0⟩
  ⟨"f",#[scalar Arith.mulFloatKind [some (.argument 0 1), some (.argument 0 0)] 1,
    scalar Arith.addFloatKind [some (.result 0 0), some (.argument 0 2)] 1,
    scalar Arith.extendKind [some (.result 1 0)] results, scalar Structured.yieldKind [some (.result 2 yielded)] 0],
    #[⟨List.replicate 3 (.ofType (.scalar .f32)),[0, 1, 2, 3],none⟩]⟩

theorem addMulRecognizedCasting : Body.isAddMul (casting 1 0) 0 = .ok true ∧
    ∃ ys, evalBody (casting 1 0) 0 [(2 : Int), 3, 4] = .ok ys ∧ ys = [Scalar.add 4 (Scalar.mul 2 3)] := by
  have straight : (casting 1 0).Straight 0 [0, 1, 2] 3 := ⟨rfl,rfl,by decide,by decide⟩
  have found : Body.isAddMul (casting 1 0) 0 = .ok true := by decide +kernel
  have ran : evalBody (casting 1 0) 0 [(2 : Int), 3, 4] = .ok [10] := by decide +kernel
  refine ⟨found,_,ran,addMulRecognized straight (fun before j after split => ?_) found ran⟩
  rcases before with _ | ⟨_,_ | ⟨_,_ | ⟨_,_ | ⟨_,before⟩⟩⟩⟩
  iterate 4
    · cases split
      decide
  · cases before <;> cases split

/- The second result of a cast is never computed, and reads as zero. -/
theorem addMulUncast : Body.isAddMul (casting 2 1) 0 = .ok true ∧ evalBody (casting 2 1) 0 [(2 : Int), 3, 4] = .ok [0] := by
  decide +kernel

end Eval

end TileLower
