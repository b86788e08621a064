import TileLower.Proofs.Reports
import TileLower.Proofs.Runs
import TileLower.Proofs.Scopes
import TileLower.Proofs.Signatures

/-!
In a function that passes the check every value that is asked for has been computed, if operations write their tensors
before their buffers.
-/
namespace TileLower

open Structured

namespace Graph

def holdsTensor (g : Graph) : Operand → Bool
  | some v => (g.typeOf v).isTensor
  | none => false

def written (g : Graph) (id : OpId) : List Operand :=
  (g.op id).operands.drop (numInputs (g.op id)).toNatClampNeg

def TensorsFirst (g : Graph) (id : OpId) : Prop :=
  (g.written id).Pairwise fun x y => g.holdsTensor y = true → g.holdsTensor x = true

instance (g : Graph) (id : OpId) : Decidable (g.TensorsFirst id) :=
  inferInstanceAs (Decidable (List.Pairwise ..))

variable {g : Graph}

theorem tensorTypesLength (vs : List Operand) : (g.tensorTypes vs).length = (vs.filter g.holdsTensor).length := by
  induction vs with
  | nil => rfl
  | cons v vs ih =>
    rw [tensorTypes] at ih ⊢
    cases v with
    | none => simpa [holdsTensor] using ih
    | some v =>
      rw [List.filterMap_cons_some (by rfl),List.filter_cons,List.filter_cons,holdsTensor]
      split
      · rw [List.length_cons,List.length_cons,ih]
      · exact ih

theorem tensorsAt {vs : List Operand} (first : vs.Pairwise fun x y => g.holdsTensor y = true → g.holdsTensor x = true)
    {r} (lt : r < (vs.filter g.holdsTensor).length) :
    ∃ v, vs[r]? = some v ∧ g.holdsTensor v = true ∧ (vs.take r).countP g.holdsTensor = r := by
  induction vs generalizing r with
  | nil => cases lt
  | cons v vs ih =>
    obtain ⟨here,later⟩ := List.pairwise_cons.mp first
    rw [List.filter_cons] at lt
    split at lt
    · rename_i tensor
      cases r with
      | zero => exact ⟨v,rfl,tensor,rfl⟩
      | succ r =>
        obtain ⟨w,at_,holds,count⟩ := ih later (Nat.lt_of_succ_lt_succ lt)
        refine ⟨w,at_,holds,?_⟩
        rw [List.take_succ_cons,List.countP_cons_of_pos tensor,count]
    · rename_i other
      have none : vs.filter g.holdsTensor = [] :=
        List.filter_eq_nil_iff.mpr fun w mem tensor => other (here w mem tensor)
      rw [none] at lt
      cases lt

end Graph

namespace Eval

variable {α β γ : Type}

def Calm (B : Prop) (m : Exec α β) (s : Machine α) (Q : β → Machine α → Prop) : Prop := match m s with
  | .ok b t => Q b t
  | .error f _ => B → f.Other

namespace Calm

variable {B : Prop} {m : Exec α β} {f : β → Exec α γ} {s t : Machine α} {b : β} {Q : β → Machine α → Prop}
  {R : γ → Machine α → Prop}

theorem bind (first : Calm B m s Q) (rest : ∀ b t, Q b t → Calm B (f b) t R) : Calm B (m >>= f) s R := by
  unfold Calm at first
  simp only [Calm,Bind.bind,EStateM.bind]
  cases ran : m s with
  | ok b t =>
    rw [ran] at first
    exact rest b t first
  | error e t =>
    rw [ran] at first
    exact first

theorem done (ok : m s = .ok b t) (holds : Q b t) : Calm B m s Q := by
  unfold Calm
  rw [ok]
  exact holds

theorem next (ok : m s = .ok b t) (rest : Calm B (f b) t R) : Calm B (m >>= f) s R :=
  .bind (Q := fun c u => c = b ∧ u = t) (.done ok ⟨rfl,rfl⟩) fun _ _ same => by rw [same.1,same.2]; exact rest

theorem mono {P} (calm : Calm B m s P) (weaker : ∀ b t, P b t → Q b t) : Calm B m s Q := by
  unfold Calm at calm ⊢
  cases ran : m s with
  | ok b t =>
    rw [ran] at calm
    exact weaker b t calm
  | error e t =>
    rw [ran] at calm
    exact calm

theorem inert (inert : Inert m) (holds : ∀ b t, t.env = s.env → m s = .ok b t → Q b t) : Calm B m s Q := by
  have here := inert s
  unfold Calm
  cases ran : m s with
  | ok b t =>
    rw [ran] at here
    exact holds b t here ran
  | error e t =>
    rw [ran] at here
    exact fun _ => here

theorem ite {c} [Decidable c] {x y} (left : c → Calm B x s Q) (right : ¬ c → Calm B y s Q) :
    Calm B (if c then x else y) s Q := by
  by_cases holds : c
  · rw [if_pos holds]
    exact left holds
  · rw [if_neg holds]
    exact right holds

theorem traced (calm : Calm B m s Q) : Calm B m s fun b t => m s = .ok b t ∧ Q b t := by
  unfold Calm at calm ⊢
  cases ran : m s with
  | ok b t =>
    rw [ran] at calm
    exact ⟨rfl,calm⟩
  | error e t =>
    rw [ran] at calm
    exact calm

theorem lift {o : Outcome β} (quiet : o.Quiet) (rest : ∀ b, o = .ok b → Calm B (f b) s R) :
    Calm B (Eval.lift o >>= f) s R := by
  cases o with
  | ok b => exact rest b rfl
  | error e => exact fun _ => quiet e rfl

theorem ended (calm : Calm B m s Q) (ok : m s = .ok b t) : Q b t := by
  unfold Calm at calm
  rw [ok] at calm
  exact calm

theorem failed (calm : Calm B m s Q) (bound : B) {e : Fault} (error : m s = .error e t) : e.Other := by
  unfold Calm at calm
  rw [error] at calm
  exact calm bound

end Calm

def Bound (s : Machine α) (v : Operand) : Prop := ∃ w, v = some w ∧ (s.env w).isSome = true

def Keeps (s t : Machine α) : Prop := ∀ v, (s.env v).isSome = true → (t.env v).isSome = true

theorem Keeps.bound {s t : Machine α} (keeps : Keeps s t) {v : Operand} (bound : Bound s v) : Bound t v := by
  obtain ⟨w,same,here⟩ := bound
  exact ⟨w,same,keeps w here⟩

theorem Keeps.ofEnv {s t : Machine α} (same : t.env = s.env) : Keeps s t := fun _ here => same ▸ here

theorem Keeps.trans {s t u : Machine α} (first : Keeps s t) (second : Keeps t u) : Keeps s u :=
  fun v here => second v (first v here)

def outputEnv (g : Graph) (id : OpId) (v : Operand) (p : Nat) (r : Ref) (env : Value → Option Ref) : Value → Option Ref :=
  if g.holdsTensor v = true ∧ p < (g.op id).results.length then fun w => if w = .result id p then some r else env w else env

section Values

variable {B : Prop} {g : Graph} {id : OpId} {s : Machine α} {v : Operand}

theorem valueCalm (bound : B → Bound s v) : Calm B (value g v) s fun _ t => s = t := by
  unfold Calm
  cases found : v.bind s.env with
  | some r =>
    have run : value g v s = .ok r s := by
      simp only [value,Bind.bind,EStateM.bind,get,getThe,MonadStateOf.get,EStateM.get,found]
      rfl
    rw [run]
  | none =>
    have run : value g v s = .error (.error (.text ("value " ++ describe g v ++ " has not been computed"))) s := by
      simp only [value,Bind.bind,EStateM.bind,get,getThe,MonadStateOf.get,EStateM.get,found]
      rfl
    rw [run]
    intro all
    obtain ⟨w,rfl,here⟩ := bound all
    rw [Option.bind_some] at found
    rw [found] at here
    cases here

theorem valuesCalm {vs} (bound : B → ∀ v ∈ vs, Bound s v) : Calm B (values g vs) s fun _ t => s = t := by
  induction vs with
  | nil => exact .done rfl rfl
  | cons v vs ih =>
    refine .bind (valueCalm fun all => bound all v (.head _)) ?_
    rintro r _ rfl
    refine .bind (ih fun all w mem => bound all w (.tail _ mem)) ?_
    rintro rs _ rfl
    exact .done rfl rfl

theorem outputCalm (bound : B → Bound s v) {p} (small : p < wordBound) (few : (g.op id).results.length < wordBound) :
    Calm B (output g id v (Int64.ofNat p)) s fun r t => t.env = outputEnv g id v p r s.env := by
  refine .bind (valueCalm bound) ?_
  rintro r _ rfl
  cases v with
  | none => exact .inert .abort fun _ _ _ ran => by cases ran
  | some v =>
    dsimp only
    split
    · rename_i tensor
      refine .next (arrayRun r s) (.next (allocateRun _ s) ?_)
      simp only [Word.ofNatLtIff small few,if_neg (Word.notNegative small),Word.toNatOfNat small]
      split
      · rename_i within
        refine .done rfl ?_
        rw [outputEnv,if_pos ⟨tensor,within⟩]
      · rename_i beyond
        refine .done rfl ?_
        rw [outputEnv,if_neg fun here => beyond here.2]
    · rename_i other
      refine .done rfl ?_
      rw [outputEnv,if_neg fun here => other here.1]

theorem outputKeeps {t : Machine α} {p r} (env : t.env = outputEnv g id v p r s.env) : Keeps s t := by
  intro w here
  rw [env,outputEnv]
  split
  · dsimp only
    split
    · rfl
    · exact here
  · exact here

end Values

structure Defines (g : Graph) (id : OpId) (s t : Machine α) : Prop where
  keeps : Keeps s t
  results : ∀ i < (g.op id).results.length, (t.env (.result id i)).isSome = true

section Operations

variable {B : Prop} {g : Graph} {id : OpId} {s : Machine α}

theorem bindDefines {u : Machine α} (single : (g.op id).results.length = 1) (keeps : Keeps s u) {t : Machine α} {r}
    (env : t.env = fun w => if w = .result id 0 then some r else u.env w) : Defines g id s t where
  keeps v here := by
    rw [env]
    dsimp only
    split
    · rfl
    · exact keeps v here
  results i lt := by
    rw [single,Nat.lt_one_iff] at lt
    rw [env,lt]
    exact congrArg Option.isSome (if_pos rfl)

theorem bindCalm {u} (single : (g.op id).results.length = 1) (keeps : Keeps s u) (r : Ref) :
    Calm B (do bind (← result g id 0) r) u fun _ t => Defines g id s t := by
  refine .next (b := .result id 0) (t := u) ?_ (.done (bindRun _ r u) (bindDefines single keeps rfl))
  rw [result,Graph.resultAt,if_pos (by omega)]
  rfl

theorem outputDefines {v} (results : (g.op id).results.map Slot.type = g.tensorTypes [v]) {t : Machine α} {r}
    (env : t.env = outputEnv g id v 0 r s.env) : Defines g id s t where
  keeps := outputKeeps env
  results i lt := by
    have count := congrArg List.length results
    rw [List.length_map,Graph.tensorTypesLength,List.filter_cons] at count
    split at count
    · rename_i tensor
      have single : (g.op id).results.length = 1 := count
      rw [single,Nat.lt_one_iff] at lt
      rw [env,outputEnv,if_pos ⟨tensor,by omega⟩,lt,if_pos rfl]
      rfl
    · rw [count] at lt
      cases lt

theorem resultRun (single : (g.op id).results.length = 1) (s : Machine α) : result g id 0 s = .ok (.result id 0) s := by
  rw [result,Graph.resultAt,if_pos (by omega)]
  rfl

theorem newResultInert [Scalar α] : Inert (newResult g id : Exec α (NdArray α)) :=
  .bind (.lift (g.resultAtQuiet id 0)) fun _ => .lift (NdArray.filledQuiet _ _)

theorem newCalm [Scalar α] (single : (g.op id).results.length = 1) :
    Calm B (evalNew g id) s fun _ t => Defines g id s t := by
  refine .next (resultRun single s) (.bind (.inert newResultInert fun _ t env _ => env) fun a t env => ?_)
  exact .done (bindNewRun _ a t) (bindDefines single (.ofEnv env) rfl)

theorem constantCalm [Scalar α] (single : (g.op id).results.length = 1) :
    Calm B (evalConstant g id) s fun _ t => Defines g id s t := by
  unfold evalConstant
  split
  · exact .inert (.fail (by simp)) fun _ _ _ ran => by cases ran
  · refine .next (resultRun single s) (.lift (NdArray.filledQuiet _ _) fun a _ => ?_)
    exact .done (bindNewRun _ a s) (bindDefines single (.ofEnv rfl) rfl)

variable (bound : B → ∀ v ∈ (g.op id).operands, Bound s v)

include bound

theorem askCalm {i : Nat} {f : Ref → Exec α β} {Q : β → Machine α → Prop} (rest : ∀ r, Calm B (f r) s Q) :
    Calm B (do f (← value g (← operand g id i))) s Q := by
  refine .lift (g.operandAtQuiet id i) fun v found => ?_
  have used : v ∈ (g.op id).operands := List.mem_of_getElem? (Outcome.ofOptionOk.mp found)
  refine .bind (valueCalm fun all => bound all v used) ?_
  rintro r _ rfl
  exact rest r

theorem castCalm (single : (g.op id).results.length = 1) : Calm B (evalCast g id) s fun _ t => Defines g id s t := by
  refine askCalm bound fun r => .next (resultRun single s) (.next (arrayRun r s) ?_)
  exact .done (bindNewRun _ _ s) (bindDefines single (.ofEnv rfl) rfl)

theorem padCalm (single : (g.op id).results.length = 1) : Calm B (evalPad g id) s fun _ t => Defines g id s t := by
  refine askCalm bound fun source => askCalm bound fun padding => .next (resultRun single s) ?_
  refine .bind (.inert (firstOfInert padding) fun _ t env _ => env) fun x t env => ?_
  refine .lift (NdArray.filledQuiet _ _) fun out _ => ?_
  refine .bind (.inert (allocateInert out) fun _ u same _ => same.trans env) fun r u env => .next (arrayRun source u) ?_
  refine .bind (.inert (.each fun idx => ?_) fun _ v same _ => same.trans env) fun _ v env => bindCalm single (.ofEnv env) r
  exact .bind (.lift (padIndexQuiet _ _)) fun _ => .bind (loadInert source _) fun _ => storeInert r _ _

theorem bufferCopyCalm (none : (g.op id).results.length = 0) :
    Calm B (evalBufferCopy g id) s fun _ t => Defines g id s t := by
  refine askCalm bound fun source => askCalm bound fun dest => .inert (copyDataInert source dest) fun _ t env _ => ?_
  exact ⟨.ofEnv env,fun i lt => by rw [none] at lt; cases lt⟩

section Converts

variable (two : (g.op id).operands.length = 2)
  (results : (g.op id).results.map Slot.type = g.tensorTypes ((g.op id).operands.drop 1))

include two results

theorem convertCalm {f : Ref → Ref → Exec α Unit} (inert : ∀ source dest, Inert (f source dest)) : Calm B (do
      let source ← value g (← operand g id 0)
      let dest ← output g id (← operand g id 1) 0
      f source dest) s fun _ t => Defines g id s t := by
  have few : (g.op id).results.length < wordBound := by
    have count := congrArg List.length results
    rw [List.length_map,Graph.tensorTypesLength] at count
    have most := List.length_filter_le g.holdsTensor ((g.op id).operands.drop 1)
    rw [List.length_drop,two] at most
    exact (count ▸ most).trans_lt (by decide)
  obtain ⟨x,y,operands⟩ := List.length_eq_two.mp two
  refine askCalm bound fun source => .next (operandRun (v := y) (by rw [operands]; rfl) s) ?_
  refine .bind (outputCalm (p := 0) (fun all => bound all y (by simp [operands])) (by decide) few) fun dest t env => ?_
  exact .inert (inert source dest) fun _ u same _ =>
    outputDefines (v := y) (by rw [results,operands]; rfl) (same.trans env)

theorem unpackCalm : Calm B (evalUnpack g id) s fun _ t => Defines g id s t := by
  refine convertCalm bound two results fun source dest => .bind (arrayInert dest) fun _ =>
    .bind (.lift (Layout.indexMapQuiet _ _)) fun m => .bind (arrayInert source) fun _ => .each fun idx => ?_
  refine .bind (.lift (m.evalQuiet idx)) fun flat => .bind (arrayInert dest) fun a => ?_
  exact .ite (.bind (loadInert source idx) fun _ => storeInert dest _ _) (.pure _)

theorem packCalm [Scalar α] : Calm B (evalPack g id) s fun _ t => Defines g id s t := by
  refine convertCalm bound two results fun source dest => .bind (arrayInert source) fun _ =>
    .bind (.lift (Layout.indexMapQuiet _ _)) fun m => .bind (arrayInert dest) fun _ => .each fun idx => ?_
  refine .bind (.lift (m.evalQuiet idx)) fun flat => .bind (arrayInert source) fun a => ?_
  exact .ite (.bind (.lift (a.getQuiet flat)) fun _ => storeInert dest _ _) (.bind (.pure _) fun _ => storeInert dest _ _)

end Converts

theorem sliceCalm [Scalar α] (single : (g.op id).results.length = 1) :
    Calm B (evalSlice g id) s fun _ t => Defines g id s t := by
  refine askCalm bound fun source => .bind (.inert newResultInert fun _ t env _ => env) fun out t env => ?_
  refine .bind (.inert (allocateInert out) fun _ u same _ => same.trans env) fun r u env => ?_
  refine .bind (.inert (.each fun idx => ?_) fun _ v same _ => same.trans env) fun _ v env => bindCalm single (.ofEnv env) r
  exact .bind (.lift (sliceIndexQuiet _ _ _)) fun _ => .bind (loadInert source _) fun _ => storeInert r _ _

end Operations

/-- How a structured operation is evaluated, and the arrays that it writes, one for each output. -/
inductive Wrote [Scalar α] (g : Graph) (id : OpId) (s t : Machine α) : List Ref → Prop where
  | nest {maps : List AffineMap} {b : BlockId} {extents : List Int64} {refs : List Ref} {u : Machine α}
      (indexing : indexingMaps (g.op id) = .ok maps) (region : (g.op id).region = some b)
      (loops : loopExtents g maps (g.op id).operands = .ok extents)
      (arrays : operandArrays g id (numInputs (g.op id)) 0 (g.op id).operands s = .ok refs u)
      (ran : Box.each extents (point g b (numInputs (g.op id)) (maps.zip refs)) u = .ok () t) :
      Wrote g id s t (refs.drop (numInputs (g.op id)).toNatClampNeg)
  | fill {source dest : Ref} {u : Machine α} {x : α} (arrays : inputAndOutput g id s = .ok (source, dest) u)
      (first : firstOf source u = .ok x u) (ran : overwrite dest ((u.arrayAt dest).fill x).data u = .ok () t) :
      Wrote g id s t [dest]
  | copy {source dest : Ref} {u : Machine α} (arrays : inputAndOutput g id s = .ok (source, dest) u)
      (ran : copyData source dest u = .ok () t) : Wrote g id s t [dest]

/-- The result of a number is held by the array that was written for the tensor that has as many tensors before it. -/
def Delivers [Scalar α] (g : Graph) (id : OpId) (s t : Machine α) : Prop :=
  ∃ outs, Wrote g id s t outs ∧ ∀ r < (g.op id).results.length, ∃ p v, (g.written id)[p]? = some v ∧
    g.holdsTensor v = true ∧ ((g.written id).take p).countP g.holdsTensor = r ∧ t.env (.result id r) = outs[p]?

section Structured

variable {B : Prop} {g : Graph} {id : OpId} {s : Machine α}

theorem operandArraysCalm {n k : Nat} {vs : List Operand} (bound : B → ∀ v ∈ vs, Bound s v)
    (smallN : n < wordBound) (smallK : k + vs.length < wordBound) (few : (g.op id).results.length < wordBound) :
    Calm B (operandArrays g id (Int64.ofNat n) (Int64.ofNat k) vs) s fun refs t =>
      Keeps s t ∧ (∀ p, p + n < k → t.env (.result id p) = s.env (.result id p)) ∧
      ∀ j p v, vs[j]? = some v → p + n = k + j → g.holdsTensor v = true → p < (g.op id).results.length →
        t.env (.result id p) = refs[j]? ∧ j < refs.length := by
  induction vs generalizing k s with
  | nil => exact .done rfl ⟨.ofEnv rfl,fun _ _ => rfl,fun _ _ _ at_ => by cases at_⟩
  | cons v vs ih =>
    have length : k + 1 + vs.length < wordBound := by simp only [List.length_cons] at smallK; omega
    have here : B → Bound s v := fun all => bound all v (.head _)
    have later {t : Machine α} (keeps : Keeps s t) : B → ∀ w ∈ vs, Bound t w :=
      fun all w mem => keeps.bound (bound all w (.tail _ mem))
    have next : Int64.ofNat k + 1 = Int64.ofNat (k + 1) := Word.addWords k 1
    unfold operandArrays
    rw [next]
    by_cases input : k < n
    · rw [if_pos ((Word.ofNatLtIff (by omega) smallN).mpr input)]
      refine .bind (valueCalm here) ?_
      rintro r _ rfl
      refine .bind (ih (later (.ofEnv rfl)) length) ?_
      rintro rs t ⟨keeps,old,new⟩
      refine .done rfl ⟨keeps,fun p lt => old p (by omega),fun j p w at_ position tensor within => ?_⟩
      cases j with
      | zero => omega
      | succ j =>
        obtain ⟨same,lt⟩ := new j p w at_ (by omega) tensor within
        exact ⟨same,Nat.succ_lt_succ lt⟩
    · have past := Nat.le_of_not_lt input
      rw [if_neg fun lt => input ((Word.ofNatLtIff (by omega) smallN).mp lt),Word.subWords past]
      refine .bind (outputCalm here (by omega) few) fun r t env => ?_
      refine .bind (ih (later (outputKeeps env)) length) ?_
      rintro rs u ⟨keeps,old,new⟩
      refine .done rfl ⟨(outputKeeps env).trans keeps,fun p lt => ?_,fun j p w at_ position tensor within => ?_⟩
      · rw [old p (by omega),env,outputEnv]
        split
        · refine if_neg fun same => ?_
          cases same
          omega
        · rfl
      · cases j with
        | zero =>
          cases at_
          have number : k - n = p := by omega
          rw [number] at env
          rw [old p (by omega),env,outputEnv,if_pos ⟨tensor,within⟩]
          exact ⟨if_pos rfl,Nat.zero_lt_succ _⟩
        | succ j =>
          obtain ⟨same,lt⟩ := new j p w at_ (by omega) tensor within
          exact ⟨same,Nat.succ_lt_succ lt⟩

variable (built : g.Built id) (isStructured : Structured.isStructured (g.op id) = true)

include built isStructured

theorem fewResults : (g.op id).results.length < wordBound := by
  obtain ⟨n,le,-,-,-,results⟩ := built.parts isStructured
  have count := congrArg List.length results
  rw [List.length_map,Graph.tensorTypesLength] at count
  have bound := List.length_filter_le g.holdsTensor ((g.op id).operands.drop n)
  have short := built.short
  rw [List.length_drop] at bound
  omega

theorem writtenResults : (g.op id).results.map Slot.type = g.tensorTypes (g.written id) := (built.split isStructured).2.2

theorem singleDelivers [Scalar α] {t u : Machine α} {v dest} (single : g.written id = [v])
    (env : u.env = outputEnv g id v 0 dest s.env) (same : t.env = u.env) (wrote : Wrote g id s t [dest]) :
    Defines g id s t ∧ Delivers g id s t := by
  have results := writtenResults built isStructured
  rw [single] at results
  refine ⟨outputDefines results (same.trans env),_,wrote,fun r lt => ?_⟩
  have count := congrArg List.length results
  rw [List.length_map,Graph.tensorTypesLength,List.filter_cons] at count
  split at count
  · rename_i tensor
    have one : (g.op id).results.length = 1 := count
    obtain rfl : r = 0 := by omega
    refine ⟨0,v,by rw [single]; rfl,tensor,rfl,?_⟩
    rw [same,env,outputEnv,if_pos ⟨tensor,lt⟩]
    exact if_pos rfl
  · rw [count] at lt
    cases lt

variable (bound : B → ∀ v ∈ (g.op id).operands, Bound s v)

include bound

theorem inputAndOutputCalm (named : namedInputs? (g.op id).kind = some 1) :
    Calm B (inputAndOutput g id) s fun rs t => ∃ v, g.written id = [v] ∧ t.env = outputEnv g id v 0 rs.2 s.env := by
  obtain ⟨two,count⟩ := built.named 1 named
  obtain ⟨x,y,operands⟩ := List.length_eq_two.mp two
  obtain ⟨n,le,count',inputs,outputs,-⟩ := built.parts isStructured
  have one : n = 1 := Word.ofNatInj (by have := built.short; omega) (by decide) (count'.symm.trans count)
  subst one
  rw [operands] at inputs outputs
  refine .lift (inputsQuiet _) fun ins found => ?_
  cases inputs.symm.trans found
  refine .next (b := x) (t := s) rfl (.bind (valueCalm fun all => bound all x (by simp [operands])) ?_)
  rintro source _ rfl
  refine .lift (outputsQuiet _) fun outs found => ?_
  cases outputs.symm.trans found
  refine .next (b := y) (t := s) rfl ?_
  refine .bind (outputCalm (p := 0) (fun all => bound all y (by simp [operands])) (by decide)
    (fewResults built isStructured)) fun dest t env => .done rfl ⟨y,?_,env⟩
  rw [Graph.written,count,operands]
  rfl

variable [Scalar α]

theorem structuredCalm (first : g.TensorsFirst id) :
    Calm B (structured g id) s fun _ t => Defines g id s t ∧ Delivers g id s t := by
  obtain ⟨n,le,count,-⟩ := built.parts isStructured
  have short := built.short
  have number : (numInputs (g.op id)).toNatClampNeg = n := by rw [count,Word.toNatOfNat (by omega)]
  have few := fewResults built isStructured
  refine .lift (indexingMapsQuiet _) fun maps indexing => ?_
  cases region : (g.op id).region with
  | none => exact .inert (.fail (by simp)) fun _ _ _ ran => by cases ran
  | some b =>
    refine .lift (loopExtentsQuiet g _ _) fun extents loops => ?_
    have arrays := operandArraysCalm (g := g) (n := n) (k := 0) bound (by omega) (by omega) few
    rw [← count] at arrays
    refine .bind arrays.traced ?_
    rintro refs u ⟨ran,keeps,-,new⟩
    refine .inert (.each fun idx => pointInert g b _ _ idx) fun _ t env looped => ?_
    -- The tensor of each number stands at that number among the outputs.
    have held (r : Nat) (lt : r < (g.op id).results.length) : ∃ v, (g.written id)[r]? = some v ∧
        g.holdsTensor v = true ∧ ((g.written id).take r).countP g.holdsTensor = r ∧
        t.env (.result id r) = refs[n + r]? ∧ n + r < refs.length := by
      have counted := congrArg List.length (writtenResults built isStructured)
      rw [List.length_map,Graph.tensorTypesLength] at counted
      obtain ⟨v,at_,tensor,before⟩ := Graph.tensorsAt first (counted ▸ lt)
      refine ⟨v,at_,tensor,before,?_⟩
      rw [Graph.written,number,List.getElem?_drop] at at_
      rw [env]
      exact new (n + r) r v at_ (by omega) tensor lt
    refine ⟨⟨keeps.trans (.ofEnv env),fun r lt => ?_⟩,_,.nest indexing region loops ran looped,fun r lt => ?_⟩
    · obtain ⟨v,-,-,-,same,within⟩ := held r lt
      rw [same,List.getElem?_eq_getElem within]
      rfl
    · obtain ⟨v,at_,tensor,before,same,-⟩ := held r lt
      exact ⟨r,v,at_,tensor,before,by rw [same,number,List.getElem?_drop]⟩

theorem fillCalm (named : namedInputs? (g.op id).kind = some 1) :
    Calm B (evalFill g id) s fun _ t => Defines g id s t ∧ Delivers g id s t := by
  refine .bind (inputAndOutputCalm built isStructured bound named).traced ?_
  rintro ⟨source,dest⟩ u ⟨arrays,v,single,env⟩
  refine .bind (Q := fun x t => u = t ∧ firstOf source u = .ok x u) (.inert (firstOfInert source) fun x t _ ran => ?_) ?_
  · obtain ⟨_,_,read,found⟩ := Step.bindOk.mp ran
    cases read
    obtain ⟨-,rfl⟩ := liftOk.mp found
    exact ⟨rfl,ran⟩
  · rintro x _ ⟨rfl,first⟩
    refine .next (arrayRun dest u) (.inert (overwriteInert _ _) fun _ t same ran => ?_)
    exact singleDelivers built isStructured single env same (.fill arrays first ran)

theorem copyCalm (named : namedInputs? (g.op id).kind = some 1) :
    Calm B (evalCopy g id) s fun _ t => Defines g id s t ∧ Delivers g id s t := by
  refine .bind (inputAndOutputCalm built isStructured bound named).traced ?_
  rintro ⟨source,dest⟩ u ⟨arrays,v,single,env⟩
  refine .inert (copyDataInert source dest) fun _ t same ran => ?_
  exact singleDelivers built isStructured single env same (.copy arrays ran)

end Structured

section Primitives

variable {B : Prop} {g : Graph} {id : OpId} {s : Machine α} (built : g.Built id)
  (isPrimitive : Primitive.isPrimitive (g.op id) = true) (bound : B → ∀ v ∈ (g.op id).operands, Bound s v)

include built isPrimitive bound

theorem primitiveArraysCalm : Calm B (primitiveArrays g id) s fun rs t => ∃ v,
    (g.op id).results.map Slot.type = g.tensorTypes [v] ∧ t.env = outputEnv g id v 0 rs.2 s.env := by
  obtain ⟨some,results⟩ := built.primitive isPrimitive
  have last := List.getLast?_eq_some_getLast some
  rw [List.drop_length_sub_one some] at results
  have few : (g.op id).results.length < wordBound := by
    have count := congrArg List.length results
    rw [List.length_map,Graph.tensorTypesLength] at count
    have := List.length_filter_le g.holdsTensor [(g.op id).operands.getLast some]
    have small : 1 < wordBound := by decide
    simp only [List.length_singleton] at this
    omega
  refine .lift (Primitive.inputsQuiet _) fun ins found => ?_
  have used : ∀ v ∈ ins, v ∈ (g.op id).operands := by
    rw [Primitive.inputs,if_neg (by simpa using some)] at found
    cases found
    exact fun v mem => List.mem_of_mem_dropLast mem
  refine .bind (valuesCalm fun all v mem => bound all v (used v mem)) ?_
  rintro rs _ rfl
  refine .lift (Primitive.outputQuiet _) fun out found => ?_
  cases (Outcome.ofOptionOk.mp found).symm.trans last
  refine .bind (outputCalm (p := 0) (fun all => bound all _ (List.getLast_mem some)) (by decide) few) fun dest t env => ?_
  exact .done rfl ⟨_,results,env⟩

theorem elementwiseCalm {f} (quiet : ∀ xs, (f xs).Quiet) :
    Calm B (elementwise g id f) s fun _ t => Defines g id s t := by
  refine .bind (primitiveArraysCalm built isPrimitive bound) ?_
  rintro ⟨ins,out⟩ u ⟨v,results,env⟩
  refine .next (arrayRun out u) (.inert (.each fun idx => elementsInert quiet ins out idx) fun _ t same _ => ?_)
  exact outputDefines results (same.trans env)

theorem primitiveCalm [Scalar α] : Calm B (primitive g id) s fun _ t => Defines g id s t := by
  refine .lift (Primitive.verifyQuiet g isPrimitive) fun _ _ => ?_
  split
  · refine elementwiseCalm built isPrimitive bound fun xs => ?_
    cases xs with
    | nil => exact .abort
    | cons x xs => exact .ok _
  · split
    · refine elementwiseCalm built isPrimitive bound fun xs => ?_
      cases xs with
      | nil => exact .abort
      | cons x xs => exact .ok _
    · split
      · refine elementwiseCalm built isPrimitive bound fun xs => ?_
        match xs with
        | [] | [_] => exact .abort
        | _ :: _ :: _ => exact .ok _
      · refine .bind (primitiveArraysCalm built isPrimitive bound) ?_
        rintro ⟨ins,out⟩ u ⟨v,results,env⟩
        dsimp only
        split
        · rename_i a b
          refine .next (arrayRun a u) (.next (arrayRun b u) (.inert (contractionInert _ _ _ a b out) fun _ t same _ => ?_))
          exact outputDefines results (same.trans env)
        · exact .inert .abort fun _ _ _ ran => by cases ran

end Primitives

section Evaluation

variable [Scalar α] {g : Graph} {id : OpId} {s : Machine α}

theorem evalOpCalm (built : g.Built id) (first : Structured.isStructured (g.op id) = true → g.TensorsFirst id) :
    Calm (∀ v ∈ (g.op id).operands, Bound s v) (evalOp g id) s fun _ t =>
      Defines g id s t ∧ (Structured.isStructured (g.op id) = true → Delivers g id s t) := by
  have bound : (∀ v ∈ (g.op id).operands, Bound s v) → ∀ v ∈ (g.op id).operands, Bound s v := fun all => all
  have plain {m : Exec α Unit} (among : kinds.contains (g.op id).kind = false)
      (calm : Calm (∀ v ∈ (g.op id).operands, Bound s v) m s fun _ t => Defines g id s t) :
      Calm (∀ v ∈ (g.op id).operands, Bound s v) m s fun _ t =>
        Defines g id s t ∧ (Structured.isStructured (g.op id) = true → Delivers g id s t) := by
    refine calm.mono fun _ t defines => ⟨defines,fun is => ?_⟩
    rw [Structured.isStructured,among] at is
    cases is
  have counted {x : String} {n : Nat} (kind : (g.op id).kind = x) (signed : (signature? x).map Prod.snd = some n) :
      (g.op id).results.length = n := by
    obtain ⟨c,found,same⟩ := Option.map_eq_some_iff.mp signed
    rw [(built.counts c (kind ▸ found)).2,same]
  have either {x y : String} (kind : (g.op id).kind = x ∨ (g.op id).kind = y)
      (signed : (signature? x).map Prod.snd = some 1 ∧ (signature? y).map Prod.snd = some 1) :
      (g.op id).results.length = 1 := kind.elim (counted · signed.1) (counted · signed.2)
  refine .ite (fun kind => ?_) fun _ => .ite (fun kind => ?_) fun _ => .ite (fun kind => ?_) fun _ =>
    .ite (fun kind => ?_) fun _ => .ite (fun kind => ?_) fun _ => .ite (fun kind => ?_) fun _ =>
    .ite (fun kind => ?_) fun _ => .ite (fun kind => ?_) fun _ => .ite (fun kind => ?_) fun _ =>
    .ite (fun kind => ?_) fun _ => .ite (fun isStructured => ?_) fun other => .ite (fun isPrimitive => ?_) fun _ => ?_
  · exact plain (by rw [kind]; decide) (constantCalm (counted kind (by decide)))
  · refine plain (by rcases kind with kind | kind <;> rw [kind] <;> decide) ?_
    exact newCalm (either kind (by decide))
  · exact plain (by rw [kind]; decide) (castCalm bound (counted kind (by decide)))
  · refine plain (by rcases kind with kind | kind <;> rw [kind] <;> decide) ?_
    exact sliceCalm bound (either kind (by decide))
  · exact plain (by rw [kind]; decide) (padCalm bound (counted kind (by decide)))
  · exact plain (by rw [kind]; decide) (bufferCopyCalm bound (counted kind (by decide)))
  · obtain ⟨two,results⟩ := built.converted (.inl kind)
    exact plain (by rw [kind]; decide) (packCalm bound two results)
  · obtain ⟨two,results⟩ := built.converted (.inr kind)
    exact plain (by rw [kind]; decide) (unpackCalm bound two results)
  · have is : Structured.isStructured (g.op id) = true := by rw [Structured.isStructured,kind]; decide
    exact (fillCalm built is bound (kind ▸ by decide)).mono fun _ _ both => ⟨both.1,fun _ => both.2⟩
  · have is : Structured.isStructured (g.op id) = true := by rw [Structured.isStructured,kind]; decide
    exact (copyCalm built is bound (kind ▸ by decide)).mono fun _ _ both => ⟨both.1,fun _ => both.2⟩
  · exact (structuredCalm built isStructured bound (first isStructured)).mono fun _ _ both => ⟨both.1,fun _ => both.2⟩
  · exact plain (by simpa [Structured.isStructured] using other) (primitiveCalm built isPrimitive bound)
  · exact .inert (.fail (by simp)) fun _ _ _ ran => by cases ran

def Undefined (f : Fault) : Prop :=
  ∃ x, f = .error (.notComputed x) ∨ ∃ place, f = .error (.located place (.notComputed x))

omit [Scalar α] in
theorem valuesBound {vs} (bound : ∀ v ∈ vs, Bound s v) : ∃ rs, values g vs s = .ok rs s := by
  induction vs with
  | nil => exact ⟨[],rfl⟩
  | cons v vs ih =>
    obtain ⟨⟨w,rfl,here⟩,later⟩ := List.forall_mem_cons.mp bound
    obtain ⟨r,env⟩ := Option.isSome_iff_exists.mp here
    obtain ⟨rs,rest⟩ := ih later
    exact ⟨r :: rs,by rw [values,Step.bindOfOk (valueRun env),Step.bindOfOk rest]; rfl⟩

theorem evalAllDefined {check b scope ids} (formed : Graph.OpsFormed g check b scope ids)
    (built : ∀ id ∈ ids, g.Built id)
    (first : ∀ id ∈ ids, Structured.isStructured (g.op id) = true → g.TensorsFirst id)
    (known : ∀ v ∈ scope, (s.env v).isSome = true) {f t} (failed : evalAll g ids s = .error f t) : ¬ Undefined f := by
  induction ids generalizing s scope with
  | nil => cases failed
  | cons id ids ih =>
    obtain ⟨here,later⟩ := formed
    have bound : ∀ v ∈ (g.op id).operands, Bound s v := fun v used => by
      obtain ⟨w,same,visible⟩ := here.operands v used
      exact ⟨w,same,known w visible⟩
    obtain ⟨builtHere,builtLater⟩ := List.forall_mem_cons.mp built
    obtain ⟨firstHere,firstLater⟩ := List.forall_mem_cons.mp first
    have calm := evalOpCalm (s := s) builtHere firstHere
    rw [evalAll] at failed
    split at failed
    · obtain ⟨rs,ran⟩ := valuesBound (g := g) bound
      cases ran.symm.trans failed
    · simp only [Bind.bind,EStateM.bind,located] at failed
      cases ran : evalOp g id s with
      | ok _ u =>
        simp only [ran] at failed
        obtain ⟨defines,-⟩ := calm.ended ran
        refine ih later builtLater firstLater (fun v visible => ?_) failed
        rcases List.mem_append.mp visible with old | new
        · exact defines.keeps v (known v old)
        · obtain ⟨i,lt,rfl⟩ := List.mem_map.mp new
          exact defines.results i (List.mem_range.mp lt)
      | error e u =>
        have other := calm.failed bound ran
        simp only [ran] at failed
        cases e with
        | abort =>
          cases failed
          rintro ⟨x,same | ⟨place,same⟩⟩ <;> cases same
        | error d =>
          cases failed
          rintro ⟨x,same | ⟨place,same⟩⟩
          · cases same
          · cases same
            exact other x rfl

omit [Scalar α] in
theorem textDefined {message : String} (head : message.toList.head? ≠ some 'v') : ¬ Undefined (.error (.text message)) := by
  rintro ⟨x,same | ⟨place,same⟩⟩
  · exact Fault.otherText head x same
  · cases same

omit [Scalar α] in
theorem bindArgumentsDefined {i : Nat} {ss : List Slot} {rs : List Ref} (length : rs.length = ss.length) :
    (∀ f t, bindArguments g i ss rs s = .error f t → ¬ Undefined f) ∧ ∀ t, bindArguments g i ss rs s = .ok () t →
        Keeps s t ∧ ∀ k < ss.length, (t.env (.argument Graph.body (i + k))).isSome = true := by
  induction ss generalizing i rs s with
  | nil =>
    obtain rfl := List.length_eq_zero_iff.mp length
    exact ⟨(fun _ _ failed => by cases failed),fun t ok => by cases ok; exact ⟨.ofEnv rfl,by simp⟩⟩
  | cons slot ss ih =>
    obtain ⟨r,rs,rfl⟩ := List.exists_cons_of_length_eq_add_one length
    by_cases type : (s.arrayAt r).type = slot.type
    · rw [bindArgumentsCons type]
      generalize next : (if slot.type.isTensor = true then s.bindFresh (.argument Graph.body i) (s.arrayAt r)
        else s.bound (.argument Graph.body i) r) = u
      have env : ∃ q, u.env = fun w => if w = .argument Graph.body i then some q else s.env w := by
        subst next
        split
        · exact ⟨_,rfl⟩
        · exact ⟨_,rfl⟩
      obtain ⟨q,env⟩ := env
      have keeps : Keeps s u := fun v here => by
        rw [env]
        dsimp only
        split
        · rfl
        · exact here
      obtain ⟨faults,binds⟩ := ih (i := i + 1) (s := u) (Nat.succ.inj length)
      refine ⟨faults,fun t ok => ?_⟩
      obtain ⟨later,rest⟩ := binds t ok
      refine ⟨keeps.trans later,fun k lt => ?_⟩
      cases k with
      | zero =>
        refine later _ ?_
        rw [env]
        exact congrArg Option.isSome (if_pos rfl)
      | succ k =>
        rw [show i + (k + 1) = i + 1 + k by omega]
        exact rest k (Nat.lt_of_succ_lt_succ lt)
    · have run : bindArguments g i (slot :: ss) (r :: rs) s = .error (.error (.text ("function " ++ g.name ++ ": argument " ++
          toString i ++ " of type " ++ (s.arrayAt r).type.render ++ " cannot be assigned to " ++ slot.type.render))) s := by
        rw [bindArguments,Step.bindOfOk (arrayRun r s),if_pos type]
        rfl
      rw [run]
      refine ⟨fun f t failed => ?_,fun _ ok => by cases ok⟩
      cases failed
      exact textDefined (by simp)

theorem evalFunctionDefined (ok : g.verify = .ok ()) (built : ∀ id ∈ (g.block Graph.body).ops, g.Built id)
    (first : ∀ id ∈ (g.block Graph.body).ops, Structured.isStructured (g.op id) = true → g.TensorsFirst id) {args f t}
    (failed : evalFunction g args s = .error f t) : ¬ Undefined f := by
  unfold evalFunction at failed
  dsimp only at failed
  split at failed
  · cases failed
    exact textDefined (by simp)
  · rename_i length
    obtain ⟨faults,binds⟩ := bindArgumentsDefined (g := g) (i := 0) (s := s) (not_not.mp length)
    simp only [Bind.bind,EStateM.bind] at failed
    cases ran : bindArguments g 0 (g.block Graph.body).args args s with
    | error e u =>
      simp only [ran] at failed
      cases failed
      exact faults _ _ ran
    | ok _ u =>
      simp only [ran] at failed
      refine evalAllDefined (Graph.verifyBlockOk.mp ok) built first (fun v visible => ?_) failed
      rw [List.nil_append] at visible
      obtain ⟨k,lt,rfl⟩ := Graph.memArguments visible
      exact Nat.zero_add k ▸ (binds u ran).2 k lt

end Evaluation

/-- In a function that passes the check, of operations that write their tensors first, no run reports that a value has
not been computed. An operation that is evaluated binds its results, and those of a structured operation to the arrays
that were written for its tensors. -/
theorem runDefined {α : Type} [Scalar α] {g : Graph} (ok : g.verify = .ok ())
    (built : ∀ id ∈ (g.block Graph.body).ops, g.Built id)
    (first : ∀ id ∈ (g.block Graph.body).ops, Structured.isStructured (g.op id) = true → g.TensorsFirst id) :
    (∀ (memory : Array (NdArray α)) args f, (run g memory args).results = .error f → ¬ Undefined f) ∧
      ∀ id ∈ (g.block Graph.body).ops, ∀ s t : Machine α, evalOp g id s = .ok () t → Defines g id s t ∧
        (Structured.isStructured (g.op id) = true → Delivers g id s t) := by
  refine ⟨fun memory args f failed => ?_,fun id mem s t ran => (evalOpCalm (built id mem) (first id mem)).ended ran⟩
  unfold run at failed
  split at failed
  · cases failed
  · rename_i e s ran
    cases failed
    exact evalFunctionDefined ok built first ran

def copiesTwice (outs : List Operand) : Graph where
  name := "main"
  ops := #[⟨genericKind,some (.argument 0 0) :: outs,[.ofType (.tensor .f32 [2])],
      (genericAttrs (List.replicate 3 (.identityOf 1)) [.parallel] "").store numInputsAttr (.int 1),
      some 1,some 0⟩,
    ⟨yieldKind,[some (.argument 1 0), some (.argument 1 0)],[],OrderedMap.empty,none,some 1⟩,
    ⟨Memory.returnKind,[some (.result 0 0)],[],OrderedMap.empty,none,some 0⟩]
  blocks := #[⟨[.ofType (.tensor .f32 [2]), .ofType (.buffer .f32 [2]), .ofType (.tensor .f32 [2])],[0, 2],none⟩,
    ⟨List.replicate 3 (.ofType (.scalar .f32)),[1],some 0⟩]

theorem runDefinedTensorFirst : (copiesTwice [some (.argument 0 2), some (.argument 0 1)]).verify = .ok () ∧
    ∀ (memory : Array (NdArray Int)) args f,
      (run (copiesTwice [some (.argument 0 2), some (.argument 0 1)]) memory args).results = .error f → ¬ Undefined f := by
  have ok : (copiesTwice [some (.argument 0 2), some (.argument 0 1)]).verify = .ok () := by decide +kernel
  exact ⟨ok,(runDefined ok (by decide +kernel) (by decide +kernel)).1⟩

theorem undefinedTensorLast : (copiesTwice [some (.argument 0 1), some (.argument 0 2)]).verify = .ok () ∧
    (∀ id ∈ (copiesTwice [some (.argument 0 1), some (.argument 0 2)]).walkAll,
      (copiesTwice [some (.argument 0 1), some (.argument 0 2)]).Built id) ∧
    ∃ f, (run (copiesTwice [some (.argument 0 1), some (.argument 0 2)])
      #[⟨.tensor .f32 [2], #[(1 : Int), 2]⟩, ⟨.buffer .f32 [2], #[0, 0]⟩, ⟨.tensor .f32 [2], #[0, 0]⟩] [0, 1, 2]).results =
        .error f ∧ Undefined f := by
  exact ⟨by decide +kernel,by decide +kernel,_,by with_unfolding_all rfl,_,.inl rfl⟩

end Eval

end TileLower
