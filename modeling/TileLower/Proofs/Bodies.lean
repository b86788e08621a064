import TileLower.Proofs.Makers
import TileLower.Proofs.Reorderings

/-!
Bodies that multiply and accumulate.
-/
namespace TileLower

open Eval Structured Arith

class Scalar.Summable (α : Type) [Scalar α] : Prop where
  swap : ∀ x y z : α, Scalar.add (Scalar.add x y) z = Scalar.add (Scalar.add x z) y

theorem Scalar.summableOfRing {α} [Scalar α] [CommRing α] (add : ∀ x y : α, Scalar.add x y = x + y) :
    Scalar.Summable α where
  swap x y z := by simp only [add,add_right_comm]

instance : Scalar.Summable Int := Scalar.summableOfRing fun _ _ => rfl

structure Graph.MulAdds (g : Graph) (b : BlockId) (mul add yield : OpId) : Prop where
  args : (g.block b).args.length = 3
  ops : (g.block b).ops = [mul, add, yield]
  mulKind : isMul (g.op mul).kind = true
  mulOperands : (g.op mul).operands = [some (.argument b 0), some (.argument b 1)]
  mulResults : (g.op mul).results.length = 1
  addKind : isAdd (g.op add).kind = true
  addOperands : (g.op add).operands = [some (.argument b 2), some (.result mul 0)]
  addResults : (g.op add).results.length = 1
  yieldKind : (g.op yield).kind = yieldKind
  yieldOperands : (g.op yield).operands = [some (.result add 0)]

namespace Eval

variable {α : Type} [Scalar α] {g : Graph} {b : BlockId} {mul add yield : OpId}

theorem operandValueOk {env : Locals α} {id i v} (at_ : (g.op id).operands[i]? = some v) :
    operandValue g env id i = .ok (env.read v) := by
  rw [operandValue,Graph.operandAt,at_]
  rfl

section Binary

variable {env : Locals α} {id : OpId} {x y : Operand} (first : (g.op id).operands[0]? = some x)
  (second : (g.op id).operands[1]? = some y)

include first second

theorem evalScalarMul (isMul : isMul (g.op id).kind = true) :
    (g.op id).kind ≠ yieldKind ∧ evalScalar g env id = .ok (Scalar.mul (env.read x) (env.read y)) := by
  have kind : (g.op id).kind = Arith.mulFloatKind ∨ (g.op id).kind = Arith.mulIntKind := by simpa [Arith.isMul] using isMul
  unfold evalScalar
  dsimp only
  rw [operandValueOk first,operandValueOk second]
  rcases kind with kind | kind <;> rw [kind] <;> exact ⟨by decide,rfl⟩

theorem evalScalarAdd (isAdd : isAdd (g.op id).kind = true) :
    (g.op id).kind ≠ yieldKind ∧ evalScalar g env id = .ok (Scalar.add (env.read x) (env.read y)) := by
  have kind : (g.op id).kind = Arith.addFloatKind ∨ (g.op id).kind = Arith.addIntKind := by simpa [Arith.isAdd] using isAdd
  unfold evalScalar
  dsimp only
  rw [operandValueOk first,operandValueOk second]
  rcases kind with kind | kind <;> rw [kind] <;> exact ⟨by decide,rfl⟩

theorem evalScalarMax (kind : (g.op id).kind = maxKind) :
    evalScalar g env id = .ok (Scalar.max (env.read x) (env.read y)) := by
  simp only [evalScalar,kind,operandValueOk first,operandValueOk second]
  rfl

end Binary

theorem evalOpsStep {env : Locals α} {id ids x}
    (scalar : (g.op id).kind ≠ yieldKind ∧ evalScalar g env id = .ok x) (one : 0 < (g.op id).results.length) :
    evalOps g env (id :: ids) = evalOps g (env.set (.result id 0) x) ids := by
  rw [evalOps,if_neg scalar.1,scalar.2,Outcome.bindOfOk,Graph.resultAtOk.mpr ⟨one,rfl⟩,Outcome.bindOfOk]

theorem mulAddsBody (adds : g.MulAdds b mul add yield) (x y z : α) (rest : List α) :
    evalBody g b (x :: y :: z :: rest) = .ok [Scalar.add z (Scalar.mul x y)] := by
  have bound : bindArgs b (x :: y :: z :: rest) 3 0 (fun _ => Scalar.zero) =
    .ok (((Locals.set (fun _ => Scalar.zero) (.argument b 0) x).set (.argument b 1) y).set (.argument b 2) z) := rfl
  rw [evalBody,adds.args,bound,Outcome.bindOfOk,adds.ops,
    evalOpsStep (evalScalarMul (by rw [adds.mulOperands]; rfl) (by rw [adds.mulOperands]; rfl) adds.mulKind)
      (by rw [adds.mulResults]; decide),
    evalOpsStep (evalScalarAdd (by rw [adds.addOperands]; rfl) (by rw [adds.addOperands]; rfl) adds.addKind)
      (by rw [adds.addResults]; decide),evalOps,if_pos adds.yieldKind,adds.yieldOperands]
  simp [Locals.read,Locals.set]

theorem mulAddsSwap [Scalar.Summable α] (adds : g.MulAdds b mul add yield) {ks : List Nat}
    {reads : List Nat → Outcome (List α)} (two : ∀ i xs, reads i = .ok xs → xs.length = 2) {key : List Nat → List Nat}
    {i j : List Nat} {u v w : List α} (first : nestStep g b 1 ks (reads i) (key i) u = .ok v)
    (second : nestStep g b 1 ks (reads j) (key j) v = .ok w) :
    ∃ x, nestStep g b 1 ks (reads j) (key j) u = .ok x ∧ nestStep g b 1 ks (reads i) (key i) x = .ok w := by
  obtain ⟨⟨xs,readI,ranI⟩,insideI,-⟩ := nestStepOk.mp first
  obtain ⟨⟨ys,readJ,ranJ⟩,insideJ,-⟩ := nestStepOk.mp second
  obtain ⟨a,a',rfl⟩ := List.length_eq_two.mp (two i xs readI)
  obtain ⟨c,c',rfl⟩ := List.length_eq_two.mp (two j ys readJ)
  cases u with
  | nil =>
    rw [evalBody,adds.args] at ranI
    cases ranI
  | cons e u =>
    change evalBody g b (a :: a' :: e :: u) = .ok v at ranI
    rw [mulAddsBody adds] at ranI
    cases ranI
    change evalBody g b [c, c', _] = .ok w at ranJ
    rw [mulAddsBody adds,Scalar.Summable.swap] at ranJ
    refine ⟨[Scalar.add e (Scalar.mul c c')],nestStepOk.mpr ⟨⟨_,readJ,mulAddsBody adds ..⟩,insideJ,rfl⟩,
      nestStepOk.mpr ⟨⟨_,readI,?_⟩,insideI,?_⟩⟩
    · rw [← ranJ]
      exact mulAddsBody adds ..
    · cases ranJ
      rfl

end Eval

end TileLower
