import TileLower.Proofs.Boxes
import TileLower.Proofs.Outcomes
import TileLower.Eval.Run

/-!
What evaluation reports. That a value has not been computed is reported where a value is not bound and nowhere else.
-/
namespace TileLower

open List

def Diagnostic.notComputed (x : String) : Diagnostic := .text ("value " ++ x ++ " has not been computed")

def Fault.Other (f : Fault) : Prop := ∀ x, f ≠ .error (.notComputed x)

theorem Fault.otherText {message : String} (head : message.toList.head? ≠ some 'v') : Other (.error (.text message)) := by
  intro x same
  cases same
  simp at head

def Outcome.Quiet {β : Type} (o : Outcome β) : Prop := ∀ f, o = .error f → f.Other

namespace Outcome.Quiet

variable {β γ : Type} {o : Outcome β} {f : β → Outcome γ} {c : Prop} [Decidable c]

theorem ok (b : β) : Quiet (.ok b) := nofun

theorem abort : Quiet (abort : Outcome β) := fun _ same _ => by cases same; nofun

theorem fail {message : String} (head : message.toList.head? ≠ some 'v') : Quiet (fail message : Outcome β) :=
  fun _ same => by
    cases same
    exact Fault.otherText head

theorem bind (first : Quiet o) (rest : ∀ b, Quiet (f b)) : Quiet (o >>= f) := by
  cases o with
  | ok b => exact rest b
  | error e => exact fun _ same => first _ (by cases same; rfl)

theorem ite {x y : Outcome β} (left : Quiet x) (right : Quiet y) : Quiet (if c then x else y) := by
  split
  · exact left
  · exact right

theorem ofOption (x : Option β) : Quiet (ofOption x) := by
  cases x with
  | none => exact abort
  | some b => exact ok b

theorem within {message} (o : Outcome β) : Quiet (within message o) := by
  rcases o with (_ | d) | b
  · exact abort
  · exact fun _ same _ => by cases same; nofun
  · exact ok b

end Outcome.Quiet

section Outcomes

open Outcome (Quiet)

theorem listLengthQuiet (n : Int64) : Quiet (listLength n) := .ite (.ok _) .abort

theorem entryAtQuiet {β} (xs : List β) (i : Int64) : Quiet (entryAt xs i) := .ofOption _

namespace NdArray

variable {α : Type} (a : NdArray α) (idx : List Int64)

theorem filledQuiet (t : ValueType) (x : α) : Quiet (filled t x) := .bind (listLengthQuiet _) fun _ => .ok _

theorem offsetQuiet : Quiet (a.offset idx) := by
  unfold offset
  refine .ite (.fail (by simp)) ?_
  split
  · exact .ok _
  · exact .fail (by simp)

theorem getQuiet : Quiet (a.get idx) := .bind (a.offsetQuiet idx) fun _ => .ite .abort (.ofOption _)

end NdArray

namespace Graph

variable (g : Graph)

theorem operandAtQuiet (id : OpId) (i : Nat) : Quiet (g.operandAt id i) := .ofOption _

theorem resultAtQuiet (id : OpId) (i : Nat) : Quiet (g.resultAt id i) := .ite (.ok _) .abort

theorem operandTypeQuiet (v : Operand) : Quiet (g.operandType v) := by
  cases v with
  | none => exact .abort
  | some v => exact .ok _

theorem operandTypesQuiet (vs : List Operand) : Quiet (g.operandTypes vs) := by
  induction vs with
  | nil => exact .ok _
  | cons v vs ih => exact .bind (g.operandTypeQuiet v) fun _ => .bind ih fun _ => .ok _

end Graph

theorem AffineMap.evalQuiet (m : AffineMap) (idx : List Int64) : Quiet (m.eval idx) := by
  have one (e : Affine.Expr) : Quiet (e.eval idx) := by
    induction e with
    | dim pos => exact entryAtQuiet _ _
    | const x => exact .ok x
    | sum x y left right => exact .bind left fun _ => .bind right fun _ => .ok _
    | scaled x c ih => exact .bind ih fun _ => .ok _
  have all (es : List Affine.Expr) : Quiet (evalAll idx es) := by
    induction es with
    | nil => exact .ok _
    | cons e es ih => exact .bind (one e) fun _ => .bind ih fun _ => .ok _
  exact all m.results

theorem Layout.indexMapQuiet (d : Layout) (rank : Int64) : Quiet (d.indexMap rank) := by
  have refuse {β : Type} (reason : String) : Quiet (d.refuse reason : Outcome β) := .fail (by simp)
  have inner (seen rest : List Int64) : Quiet (d.validateInner rank seen rest) := by
    induction rest generalizing seen with
    | nil => exact .ok _
    | cons pos rest ih => exact .ite (refuse _) (.ite (refuse _) (ih _))
  have inverse (inv : List Int64) (i : Nat) (perm : List Int64) : Quiet (Permutation.inverseStep inv i perm) := by
    induction perm generalizing inv i with
    | nil => exact .ok _
    | cons p perm ih => exact .bind (entryAtQuiet _ _) fun _ => ih _ _
  have validate : Quiet (d.validate rank) := by
    unfold Layout.validate
    refine .ite (.bind (refuse _) fun _ => ?_) ?_ <;>
    exact .bind (inner _ _) fun _ => .ite (.bind (refuse _) fun _ => .ite (.ok _) (.ite (refuse _) (.ok _)))
      (.ite (.ok _) (.ite (refuse _) (.ok _)))
  refine .bind validate fun _ => .bind (listLengthQuiet _) fun _ => ?_
  exact .ite (.ok _) (.bind (inverse _ _ _) fun _ => .ok _)

namespace Structured

variable (op : Operation)

theorem countWithinQuiet (room : Nat) : Quiet (countWithin op room) := .ite (.ok _) .abort

theorem inputsQuiet : Quiet (inputs op) := .bind (countWithinQuiet op _) fun _ => .ok _

theorem outputsQuiet : Quiet (outputs op) := .bind (countWithinQuiet op _) fun _ => .ok _

end Structured

namespace Primitive

variable (g : Graph) (op : Operation)

theorem inputsQuiet : Quiet (inputs op) := .ite .abort (.ok _)

theorem outputQuiet : Quiet (output op) := .ofOption _

theorem verifyMatmulQuiet (a b c : List Int64) : Quiet (verifyMatmul a b c) := by
  unfold verifyMatmul
  split
  · exact .ite (.ok _) (.fail (by simp))
  · exact .abort

theorem verifyBroadcastQuiet (input out : ValueType) : Quiet (verifyBroadcast input out) :=
  .ite (.ok _) (.ite (.fail (by simp)) (.ite (.ok _) (.fail (by simp))))

theorem verifyBroadcastsQuiet (out : Operand) (vs : List Operand) : Quiet (verifyBroadcasts g out vs) := by
  induction vs with
  | nil => exact .ok _
  | cons v vs ih =>
    refine .bind (g.operandTypeQuiet v) fun t => ?_
    exact .ite (.bind (g.operandTypeQuiet out) fun _ => .bind (verifyBroadcastQuiet _ _) fun _ => ih) ih

theorem verifyElementwiseQuiet : Quiet (verifyElementwise g op) := by
  refine .bind (outputQuiet op) fun out => .bind (g.operandTypeQuiet out) fun t => ?_
  have rest : Quiet (do verifyBroadcasts g out (← inputs op)) :=
    .bind (inputsQuiet op) fun _ => verifyBroadcastsQuiet g out _
  exact .ite (.bind (.fail (by simp)) fun _ => rest) rest

theorem verifyReluQuiet : Quiet (verifyRelu g op) := by
  unfold verifyRelu
  split
  · rename_i x out operands
    refine .bind (g.operandTypeQuiet x) fun t => ?_
    have rest (ok : Bool) : Quiet (if ok = true then .ok () else do
        Outcome.fail ("relu does not broadcast: cannot apply to " ++ t.render ++ " into " ++
          (← g.operandType out).render) : Outcome Unit) :=
      .ite (.ok _) (.bind (g.operandTypeQuiet out) fun _ => .fail (by simp))
    exact .ite (.bind (g.operandTypeQuiet out) fun _ => rest _) (rest false)
  · exact .abort

theorem rankedQuiet {ranks : List Nat} {f : ValueType → ValueType → ValueType → Outcome Unit} (each : ∀ a b c, Quiet (f a b c)) :
    Quiet (do
      checkRanks g op.operands ranks
      match ← g.operandTypes op.operands with
      | [a, b, c] => f a b c
      | _ => Outcome.abort) := by
  refine .bind (.within _) fun _ => .bind (g.operandTypesQuiet _) fun ts => ?_
  split
  · exact each _ _ _
  · exact .abort

theorem verifyKnownQuiet : Quiet (verifyKnown g op) := by
  unfold verifyKnown
  refine .ite (rankedQuiet g op fun a b c => verifyMatmulQuiet _ _ _) (.ite (rankedQuiet g op fun a b c => ?_)
    (.ite (rankedQuiet g op fun a b c => ?_) (.ite (.bind (verifyReluQuiet g op) fun _ => verifyElementwiseQuiet g op)
      (verifyElementwiseQuiet g op))))
  · unfold verifyBrgemm
    split
    · exact .ite (verifyMatmulQuiet _ _ _) (.fail (by simp))
    · exact .abort
  · have rest : Quiet (verifyVnni a.dims b.dims c.dims) := by
      unfold verifyVnni
      split
      · exact .ite (.ok _) (.fail (by simp))
      · exact .abort
    exact .ite (.bind (.fail (by simp)) fun _ => rest) rest

theorem verifyQuiet {op : Operation} (primitive : isPrimitive op = true) : Quiet (verify g op) := by
  unfold verify
  split
  · refine .fail ?_
    have lead : op.kind.toList.takeWhile (· ≠ '.') = ['t', 'p', 'p'] := by
      have same : String.ofList (op.kind.toList.takeWhile (· ≠ '.')) = "tpp" := beq_iff_eq.mp primitive
      simpa using congrArg String.toList same
    cases chars : op.kind.toList with
    | nil => simp [chars] at lead
    | cons c cs =>
      rw [chars,takeWhile_cons] at lead
      split at lead
      · simp [chars,(cons.inj lead).1]
      · cases lead
  · exact .ite (.fail (by simp)) (verifyKnownQuiet g op)

end Primitive

namespace Eval

variable {α : Type} [Scalar α] (g : Graph)

theorem indexingMapsQuiet (op : Operation) : Quiet (indexingMaps op) := by
  have window : Quiet (windowOf op) := by
    unfold windowOf
    split
    · exact .ok _
    · exact .abort
  exact .ite (.ok _) (.ite (.ok _) (.ite (.ok _) (.ite (.bind window fun _ => .ok _) (.ite (.bind window fun _ => .ok _)
    (.fail (by simp))))))

theorem inferExtentsQuiet (extents : List Int64) (es : List Affine.Expr) (ds : List Int64) :
    Quiet (inferExtents extents es ds) := by
  fun_induction inferExtents extents es ds with
  | case1 extents pos es d ds ih => exact .bind (entryAtQuiet _ _) fun _ => ih _
  | case2 extents e es d ds other ih => exact ih
  | case3 => exact .ok _

theorem inferAllQuiet (extents : List Int64) (i : Nat) (ms : List AffineMap) (vs : List Operand) :
    Quiet (inferAll g extents i ms vs) := by
  fun_induction inferAll g extents i ms vs with
  | case1 extents i m ms v vs ih =>
    refine .bind (g.operandTypeQuiet v) fun t => ?_
    have rest : Quiet (do inferAll g (← inferExtents extents m.results t.dims) (i + 1) ms vs) :=
      .bind (inferExtentsQuiet _ _ _) fun _ => ih _
    exact .ite (.bind (.fail (by simp)) fun _ => rest) rest
  | case2 => exact .ok _

theorem numberHead (n : Nat) (rest : String) : (toString n ++ rest).toList.head? ≠ some 'v' := by
  intro head
  rw [String.toList_append,Nat.toString_eq_repr,Nat.toList_repr,head?_append] at head
  cases digits : Nat.toDigits 10 n with
  | nil => exact absurd digits Nat.toDigits_ne_nil
  | cons c cs =>
    rw [digits,head?_cons,Option.some_or] at head
    have digit := Nat.isDigit_of_mem_toDigits (n := n) (by decide) (by decide) (digits ▸ mem_cons_self ..)
    rw [Option.some.inj head] at digit
    exact absurd digit (by decide)

theorem loopExtentsQuiet (maps : List AffineMap) (operands : List Operand) : Quiet (loopExtents g maps operands) := by
  unfold loopExtents
  refine .ite (.bind (.fail ?_) fun _ => ?_) ?_
  · rw [String.append_assoc,String.append_assoc]
    exact numberHead _ _
  all_goals
    split
    · exact .ok _
    · refine .bind (listLengthQuiet _) fun _ => .bind (inferAllQuiet g _ _ _ _) fun _ => ?_
      split
      · exact .fail (by simp)
      · exact .ok _

theorem evalBodyQuiet (b : BlockId) (args : List α) : Quiet (evalBody g b args) := by
  have arguments (n i : Nat) (env : Locals α) : Quiet (bindArgs b args n i env) := by
    induction n generalizing i env with
    | zero => exact .ok _
    | succ n ih =>
      unfold bindArgs
      split
      · exact .abort
      · exact ih _ _
  have operand (env : Locals α) (id : OpId) (i : Nat) : Quiet (operandValue g env id i) :=
    .bind (g.operandAtQuiet id i) fun _ => .ok _
  have scalar (env : Locals α) (id : OpId) : Quiet (evalScalar g env id) := by
    have pair (f : α → α → α) : Quiet (do .ok (f (← operandValue g env id 0) (← operandValue g env id 1))) :=
      .bind (operand env id 0) fun _ => .bind (operand env id 1) fun _ => .ok _
    exact .ite (.ok _) (.ite (pair _) (.ite (pair _) (.ite (pair _) (.ite (pair _) (.ite (operand env id 0)
      (.fail (by simp)))))))
  have ops (env : Locals α) (ids : List OpId) : Quiet (evalOps g env ids) := by
    induction ids generalizing env with
    | nil => exact .fail (by simp)
    | cons id ids ih =>
      exact .ite (.ok _) (.bind (scalar env id) fun _ => .bind (g.resultAtQuiet id 0) fun _ => ih _)
  exact .bind (arguments _ _ _) fun _ => ops _ _

theorem broadcastIndexQuiet (t : ValueType) (idx : List Int64) : Quiet (broadcastIndex t idx) := .ite (.fail (by simp)) (.ok _)

theorem contractionOfQuiet (kind : String) (a b : ValueType) : Quiet (contractionOf kind a b) := by
  have dim (t : ValueType) (i : Nat) : Quiet (Outcome.ofOption t.dims[i]?) := .ofOption _
  refine .ite (.bind (dim a 1) fun _ => .ok _) (.ite (.bind (dim a 0) fun _ => .bind (dim a 2) fun _ => .ok _)
    (.ite (.bind (dim b 2) fun _ => .bind (dim a 1) fun _ => .ok _) (.fail (by simp))))

theorem sliceIndexQuiet (offsets strides idx : List Int64) : Quiet (sliceIndex offsets strides idx) :=
  .ite (.bind .abort fun _ => .ok _) (.ok _)

theorem padIndexQuiet (low idx : List Int64) : Quiet (padIndex low idx) := .ite (.bind .abort fun _ => .ok _) (.ok _)

end Eval

end Outcomes

namespace Eval

open Outcome (Quiet)

def Inert {α β : Type} (m : Exec α β) : Prop := ∀ s, match m s with
  | .ok _ t => t.env = s.env
  | .error f _ => f.Other

namespace Inert

variable {α β γ : Type} {m : Exec α β} {f : β → Exec α γ} {c : Prop} [Decidable c]

theorem pure (b : β) : Inert (Pure.pure b : Exec α β) := fun _ => rfl

theorem bind (first : Inert m) (rest : ∀ b, Inert (f b)) : Inert (m >>= f) := by
  intro s
  have here := first s
  simp only [Bind.bind,EStateM.bind]
  cases ran : m s with
  | error e t =>
    rw [ran] at here
    exact here
  | ok b t =>
    rw [ran] at here
    have next := rest b t
    dsimp only
    cases ran' : f b t with
    | error e u =>
      rw [ran'] at next
      exact next
    | ok c u =>
      rw [ran'] at next
      exact next.trans here

theorem ite {x y : Exec α β} (left : Inert x) (right : Inert y) : Inert (if c then x else y) := by
  split
  · exact left
  · exact right

theorem lift {o} (quiet : Quiet o) : Inert (lift o : Exec α β) := by
  intro s
  cases o with
  | ok b => rfl
  | error e => exact quiet e rfl

theorem fail {message : String} (head : message.toList.head? ≠ some 'v') : Inert (fail message : Exec α β) :=
  fun _ => Fault.otherText head

theorem abort : Inert (abort : Exec α β) := fun _ => nofun

theorem fold {step : β → Int64 → Exec α β} (each : ∀ b i, Inert (step b i)) (extent : Int64) (b : β) :
    Inert (Box.fold extent step b) := by
  have from_ (n : Nat) : ∀ i b, Inert (Box.foldFrom step n i b) := by
    induction n with
    | zero => exact fun _ b => pure b
    | succ n ih => exact fun i b => bind (each b i) fun b => ih (i + 1) b
  exact from_ _ _ b

theorem each {dims : List Int64} {step : List Int64 → Exec α Unit} (one : ∀ idx, Inert (step idx)) :
    Inert (Box.each dims step) := by
  rw [Box.eachIndices]
  induction Box.indices dims with
  | nil => exact pure ()
  | cons idx later ih => exact bind (one idx) fun _ => ih

end Inert

section Steps

variable {α : Type}

theorem arrayInert (r : Ref) : Inert (array r : Exec α _) := fun _ => rfl

theorem allocateInert (a : NdArray α) : Inert (allocate a) := fun _ => rfl

theorem overwriteInert (r : Ref) (data : Array α) : Inert (overwrite r data) := fun _ => rfl

theorem storeInert (r : Ref) (idx : List Int64) (x : α) : Inert (store r idx x) := by
  refine .bind (arrayInert r) fun a => .bind (.lift (.bind (a.offsetQuiet idx) fun _ => .ite (.ok _) .abort)) fun i => ?_
  exact fun _ => rfl

theorem loadInert (r : Ref) (idx : List Int64) : Inert (load r idx : Exec α α) :=
  .bind (arrayInert r) fun a => .lift (a.getQuiet idx)

theorem firstOfInert (r : Ref) : Inert (firstOf r : Exec α α) := .bind (arrayInert r) fun _ => .lift (.ofOption _)

theorem copyDataInert (r q : Ref) : Inert (copyData r q : Exec α Unit) := by
  refine .bind (arrayInert r) fun a => .bind (arrayInert q) fun b => ?_
  exact .ite (.bind (.fail (by simp)) fun _ => overwriteInert q _) (overwriteInert q _)

theorem elementsInert {f : List α → Outcome α} (quiet : ∀ xs, Quiet (f xs)) (ins : List Ref) (out : Ref) (idx : List Int64) :
    Inert (do
      let args ← broadcastAll idx ins
      store out idx (← lift (f args)) : Exec α Unit) := by
  have all (ins : List Ref) : Inert (broadcastAll idx ins : Exec α (List α)) := by
    induction ins with
    | nil => exact .pure _
    | cons r ins ih =>
      refine .bind (.bind (arrayInert r) fun a => ?_) fun _ => .bind ih fun _ => .pure _
      exact .bind (.lift (broadcastIndexQuiet _ _)) fun _ => loadInert r _
  exact .bind (all ins) fun _ => .bind (.lift (quiet _)) fun _ => storeInert out idx _

variable [Scalar α] (g : Graph)

theorem pointInert (b : BlockId) (count : Int64) (operands : List (AffineMap × Ref)) (idx : List Int64) :
    Inert (point g b count operands idx : Exec α Unit) := by
  have loads (operands : List (AffineMap × Ref)) : Inert (loadAll idx operands : Exec α (List α)) := by
    induction operands with
    | nil => exact .pure _
    | cons p operands ih => exact .bind (.lift (p.1.evalQuiet idx)) fun _ => .bind (loadInert p.2 _) fun _ => .bind ih fun _ => .pure _
  have stores (outs : List ((AffineMap × Ref) × α)) : Inert (storeAll idx outs) := by
    induction outs with
    | nil => exact .pure _
    | cons p outs ih => exact .bind (.lift (p.1.1.evalQuiet idx)) fun _ => .bind (storeInert p.1.2 _ p.2) fun _ => ih
  refine .bind (loads operands) fun args => .bind (.lift (evalBodyQuiet g b args)) fun yielded => ?_
  exact .ite (.bind .abort fun _ => .ite (.bind (.fail (by simp)) fun _ => stores _) (stores _))
    (.ite (.bind (.fail (by simp)) fun _ => stores _) (stores _))

theorem contractInert {c : Contraction} (quiet : ∀ t k j, Quiet (c.right t k j)) (a b out : Ref) :
    Inert (contract c a b out : Exec α Unit) := by
  have sums (i j : Int64) (x : α) : Inert (accumulate c a b i j x) := by
    refine .fold (fun acc t => .fold (fun acc k => ?_) c.depth acc) c.batch x
    exact .bind (loadInert a _) fun _ => .bind (.lift (quiet _ _ _)) fun _ => .bind (loadInert b _) fun _ => .pure _
  refine .bind (arrayInert out) fun _ => .each fun idx => .bind (loadInert out idx) fun acc => ?_
  split
  · exact .bind (sums _ _ acc) fun _ => storeInert out _ _
  · refine .ite (storeInert out _ _) ?_
    split
    · exact .bind (loadInert a _) fun _ => .abort
    · exact .abort

theorem contractionInert (kind : String) (t u : ValueType) (a b out : Ref) :
    Inert (do contract (← lift (contractionOf kind t u)) a b out : Exec α Unit) := by
  have right {c : Contraction} (ok : contractionOf kind t u = .ok c) : ∀ t k j, Quiet (c.right t k j) := by
    unfold contractionOf at ok
    dsimp only at ok
    split at ok
    · obtain ⟨_,-,ok⟩ := Outcome.bindOk.mp ok
      cases ok
      exact fun _ _ _ => .ok _
    · split at ok
      · obtain ⟨_,-,ok⟩ := Outcome.bindOk.mp ok
        obtain ⟨_,-,ok⟩ := Outcome.bindOk.mp ok
        cases ok
        exact fun _ _ _ => .ok _
      · split at ok
        · obtain ⟨_,-,ok⟩ := Outcome.bindOk.mp ok
          obtain ⟨_,-,ok⟩ := Outcome.bindOk.mp ok
          cases ok
          exact fun _ _ _ => .ite .abort (.ok _)
        · cases ok
  have quiet := contractionOfQuiet kind t u
  cases found : contractionOf kind t u with
  | ok c => exact contractInert (right found) a b out
  | error f => exact fun _ => quiet f found

end Steps

end Eval

end TileLower
