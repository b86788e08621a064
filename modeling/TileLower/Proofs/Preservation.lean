import TileLower.Proofs.Commits
import TileLower.Proofs.Runs

/-!
A function in which one operation was replaced by others refines the function that it was, if the new operations
together do what the old one did. Main statement: `Swap.refines`.
-/
namespace TileLower

open List

namespace Graph

def Has (g : Graph) : Value → Prop
  | .result id i => i < (g.op id).results.length
  | .argument b i => i < (g.block b).args.length

theorem hasNext {g : Graph} {visible} (outer : ∀ v ∈ visible, g.Has v) (b : BlockId) (pre : List OpId) :
    ∀ v ∈ visible ++ g.argumentsOf b ++ g.computed pre, g.Has v := by
  intro v mem
  rcases mem_append.mp mem with mem | results
  · rcases mem_append.mp mem with old | args
    · exact outer v old
    · obtain ⟨i,lt,rfl⟩ := memArguments args
      exact lt
  · obtain ⟨j,-,i,lt,rfl⟩ := memComputed results
    exact lt

theorem Scope.has {g : Graph} {b visible} (scope : g.Scope b visible) : ∀ v ∈ visible, g.Has v := by
  induction scope with
  | body => exact fun _ none => nomatch none
  | region outer split region ih => exact hasNext ih _ _

theorem At.has {g : Graph} {b scope id} (place : g.At b scope id) : ∀ v ∈ scope, g.Has v := by
  obtain ⟨outer,pre,post,scope,split,rfl⟩ := place
  exact hasNext scope.has b pre

theorem Has.below {g : Graph} {v : Value} (has : g.Has v) : v.Below g.ops.size := by
  cases v with
  | argument b i => trivial
  | result id i =>
    by_contra outside
    rw [Has,opOutside outside] at has
    exact Nat.not_lt_zero i has

theorem At.uses {g : Graph} {b scope id} (place : g.At b scope id) (formed : g.WellFormed) {v}
    (used : some v ∈ (g.op id).operands) : g.Has v := place.has v (place.sees formed used)

end Graph

namespace Eval

open TileLower.Graph Outcome Memory

variable {α : Type} [Scalar α]

/- A body reads values from outside as zero, so it does not matter how they are renamed. -/
section Bodies

variable {g g' : Graph} {id : OpId} {vals : List Value}

structure Blank (id : OpId) (vals : List Value) (env : Locals α) : Prop where
  replaced : ∀ i, env (.result id i) = Scalar.zero
  vals : ∀ v ∈ vals, env v = Scalar.zero

theorem readRenamed {env : Locals α} (blank : Blank id vals env) (v : Operand) :
    env.read (v.map (renameFrom id 0 vals)) = env.read v := by
  cases v with
  | none => rfl
  | some w =>
    by_cases here : ∃ i, w = .result id i
    · obtain ⟨i,rfl⟩ := here
      change env (renameFrom id 0 vals (.result id i)) = env (.result id i)
      rw [blank.replaced i,renameFrom,if_pos ⟨rfl,Nat.zero_le i⟩,getD_eq_getElem?_getD]
      cases at_ : vals[i - 0]? with
      | none => exact blank.replaced i
      | some v => exact blank.vals v (mem_of_getElem? at_)
    · exact congrArg env.read (congrArg some (renameFromOther (fun i same => here ⟨i,same⟩) 0 vals))

variable {j : OpId}
  (renamed : g'.op j = { g.op j with operands := (g.op j).operands.map (Option.map (renameFrom id 0 vals)) })

include renamed

theorem yieldRenamed {env : Locals α} (blank : Blank id vals env) :
    (g'.op j).operands.map env.read = (g.op j).operands.map env.read := by
  rw [renamed,map_map]
  exact map_congr_left fun v _ => readRenamed blank v

theorem evalScalarRenamed {env : Locals α} (blank : Blank id vals env) : evalScalar g' env j = evalScalar g env j := by
  have operand (i : Nat) : operandValue g' env j i = operandValue g env j i := by
    simp only [operandValue,operandAt,renamed,getElem?_map]
    cases (g.op j).operands[i]? with
    | none => rfl
    | some v => exact congrArg Except.ok (readRenamed blank v)
  simp only [evalScalar,operand,renamed,Arith.constantValue?]

omit renamed

def scalarKind (kind : String) : Bool :=
  kind = Arith.constantKind || Arith.isAdd kind || Arith.isMul kind || kind = Arith.subKind || kind = Arith.maxKind ||
    Arith.isCast kind

theorem evalScalarStuck {g : Graph} {id} (other : scalarKind (g.op id).kind = false) (env : Locals α) (x : α) :
    evalScalar g env id ≠ .ok x := by
  simp only [scalarKind,Bool.or_eq_false_iff,decide_eq_false_iff_not] at other
  obtain ⟨⟨⟨⟨⟨constant,add⟩,mul⟩,sub⟩,max⟩,cast⟩ := other
  unfold evalScalar
  simp only [constant,add,mul,sub,max,cast,if_false,Bool.false_eq_true]
  exact Outcome.failOk

/- The operations of a body up to one that has no value. They are the same in both functions on all values for which
`Inv` holds, and `Inv` is kept. -/
theorem evalOpsFollow {pre tail} (tail' : List OpId) (Inv : Locals α → Prop) {ys}
    (same : ∀ j ∈ pre, (g'.op j).kind = (g.op j).kind ∧ (g'.op j).results = (g.op j).results)
    (reads : ∀ j ∈ pre, ∀ env, Inv env → (g'.op j).operands.map env.read = (g.op j).operands.map env.read ∧
      evalScalar g' env j = evalScalar g env j) (keeps : ∀ j ∈ pre, ∀ env x, Inv env → Inv (env.set (.result j 0) x))
    (stuck : ∀ (env : Locals α) ys, evalOps g env tail ≠ .ok ys) {env : Locals α} (inv : Inv env)
    (ok : evalOps g env (pre ++ tail) = .ok ys) : evalOps g' env (pre ++ tail') = .ok ys := by
  induction pre generalizing env with
  | nil => exact absurd ok (stuck env ys)
  | cons j pre ih =>
    obtain ⟨⟨kind,results⟩,same⟩ := forall_mem_cons.mp same
    obtain ⟨here,reads⟩ := forall_mem_cons.mp reads
    obtain ⟨keepsHere,keeps⟩ := forall_mem_cons.mp keeps
    obtain ⟨yields,scalar⟩ := here env inv
    rw [cons_append,evalOps] at ok ⊢
    rw [kind,yields,scalar]
    split at ok
    · rw [if_pos ‹_›,ok]
    · rw [if_neg ‹_›]
      obtain ⟨x,value,ok⟩ := bindOk.mp ok
      obtain ⟨v,result,ok⟩ := bindOk.mp ok
      obtain ⟨-,rfl⟩ := resultAtOk.mp result
      have result' : g'.resultAt j 0 = .ok (.result j 0) := by
        rw [resultAt,results]
        exact result
      rw [value,bindOfOk,result',bindOfOk]
      exact ih same reads keeps (keepsHere env x inv) ok

omit [Scalar α] in
theorem bindArgsOther {b : BlockId} {args : List α} {n i : Nat} {env env' : Locals α}
    (ok : bindArgs b args n i env = .ok env') {v : Value} (other : ∀ k, i ≤ k → v ≠ .argument b k) : env' v = env v := by
  induction n generalizing i env with
  | zero => cases ok; rfl
  | succ n ih =>
    rw [bindArgs] at ok
    split at ok
    · exact absurd ok Outcome.abortOk
    · rw [ih ok fun k le => other k (Nat.le_of_succ_le le),Locals.set,if_neg (other i le_rfl)]

end Bodies

abbrev RefinesBy (g : Graph) (d : Draft) (id : OpId) (memory : Array (NdArray α)) (args : List Ref) : Prop :=
  (d.commit id).fault = none ∧ Refines g (d.commit id).graph memory args

structure Suits (α : Type) (W : Value → Prop) (F : Value → ValueType → Nat → Prop) (g : Graph) (id : OpId) : Prop where
  writable : ∀ j v, (g.op id).operands[j]? = some (some v) →
    (∃ i, Copied (g.op id) j i) ∧ (g.typeOf v).isTensor = false ∨ (g.op id).kind = copyKind ∧ j = 1 → W v
  few : (g.op id).operands.length < wordBound ∨ ∀ v, some v ∈ (g.op id).operands → W v
  filled : ∀ i (x : α) a, NdArray.filled (g.typeOf (.result id i)) x = .ok a → F (.result id i) a.type a.data.size
  copied : ∀ j i v t n, (g.op id).operands[j]? = some (some v) → (g.typeOf v).isTensor = true →
    Copied (g.op id) j i → F v t n → F (.result id i) t n
  cast : (g.op id).kind = castKind → ∀ v t n, (g.op id).operands[0]? = some (some v) → F v t n →
    F (.result id 0) (g.typeOf (.result id 0)) n

def View.before (id : OpId) (vals : List Value) (n : Nat) (W : Value → Prop) (F : Value → ValueType → Nat → Prop) :
    View where
  rename := renameFrom id 0 vals
  live v := v.Below n ∧ ∀ i, v ≠ .result id i
  writable := W
  bindable v := v.Below n ∧ ∀ i, v ≠ .result id i
  fits := F
  kept _ bindable := renameFromOther bindable.2 0 vals
  only _ _ _ live same := (renameFromOther live.2 0 vals).symm.trans same

def View.after (id : OpId) (vals : List Value) (n : Nat) (W : Value → Prop) (F : Value → ValueType → Nat → Prop) :
    View where
  rename := renameFrom id 0 vals
  live v := v.Below n
  writable := W
  bindable v := v.Below n ∧ (∀ i, v ≠ .result id i) ∧ v ∉ vals
  fits := F
  kept _ bindable := renameFromOther bindable.2.1 0 vals
  only v bindable w _ same := by
    by_cases here : ∃ i, w = .result id i
    · obtain ⟨i,rfl⟩ := here
      rw [renameFrom,if_pos ⟨rfl,Nat.zero_le i⟩,getD_eq_getElem?_getD] at same
      cases at_ : vals[i - 0]? with
      | none => rw [at_] at same; exact same
      | some u =>
        rw [at_] at same
        exact absurd (same ▸ mem_of_getElem? at_) bindable.2.2
    · exact (renameFromOther (fun i same => here ⟨i,same⟩) 0 vals).symm.trans same

/-- One operation replaced by others, in a well-formed function. The operation has no meaning inside a body, and
what takes the place of its results is visible where it stands or new. -/
structure Swap (α : Type) [Scalar α] (g g' : Graph) (id : OpId) (b : BlockId) (created : List OpId)
    (vals : List Value) : Prop where
  replaced : Replaced g g' id b created vals
  formed : g.WellFormed
  place : ∃ scope, g.At b scope id
  known : ∀ v ∈ vals, g.Seen id (some v) ∨ ∃ j i, v = .result j i ∧ g.ops.size ≤ j
  stuck : ∀ (env : Locals α) x, evalScalar g env id ≠ .ok x
  notYield : (g.op id).kind ≠ Structured.yieldKind
  notReturn : (g.op id).kind ≠ returnKind
  going : ∀ j ∈ created, (g'.op j).kind ≠ returnKind

def OuterKind (kind : String) : Prop :=
  scalarKind kind = false ∧ kind ≠ Structured.yieldKind ∧ kind ≠ returnKind

instance (kind : String) : Decidable (OuterKind kind) := inferInstanceAs (Decidable (_ ∧ _ ∧ _))

theorem OuterKind.ofStructured {op : Operation} (isStructured : Structured.isStructured op = true) : OuterKind op.kind :=
  (by decide : ∀ k ∈ Structured.kinds, OuterKind k) _ (contains_iff_mem.mp isStructured)

section Ready

variable {g : Graph} {id : OpId} {d : Draft} {target : Option OpId} {vals : List Value}
  (ready : Ready g id (g.Seen id) target vals d) (formed : g.WellFormed) (mem : id ∈ g.walkAll)
  (goes : target = none ∨ (g.op id).region.isSome) (outer : OuterKind (g.op id).kind)

include ready formed mem goes outer

theorem Swap.ofReady (name : d.graph.name = g.name)
    (going : ∀ k ∈ d.created, (d.graph.op k).kind ≠ returnKind) : (d.commit id).fault = none ∧
      ∃ b, Swap α g (d.commit id).graph id b d.created vals ∧ ∀ k ∈ d.created, (d.commit id).graph.op k =
        { d.graph.op k with
          block := some b
          region := if target = some k then (g.op id).region else (d.graph.op k).region } := by
  obtain ⟨b,scope,place⟩ := atOfWalk .body mem
  have block := place.block formed
  have whole := ready.commitGoes block goes
  have made (k : OpId) (listed : k ∈ d.created) : (d.commit id).graph.op k = { d.graph.op k with
      block := some b
      region := if target = some k then (g.op id).region else (d.graph.op k).region } := by
    rw [ready.madeNew block whole (ready.new k listed).1 (ready.createdUnused formed.sound place listed),if_pos listed]
  refine ⟨whole,b,⟨ready.replaced formed.sound mem block name place whole,formed,⟨scope,place⟩,fun v val => ?_,
    evalScalarStuck outer.1,outer.2.1,outer.2.2,fun k listed => ?_⟩,made⟩
  · refine (ready.known v val).imp_right fun new => ?_
    obtain ⟨j,inside,i,-,rfl⟩ := memComputed new
    exact ⟨j,i,rfl,(ready.new j inside).1⟩
  · rw [made k listed]
    exact going k listed

theorem Swap.ofPushed {ops : List Operation} (graph : d.graph = g.pushAll ops)
    (created : d.created = range' g.ops.size ops.length) (going : ∀ o ∈ ops, o.kind ≠ returnKind) :
    (d.commit id).fault = none ∧ ∃ b, Swap α g (d.commit id).graph id b (range' g.ops.size ops.length) vals ∧
      ∀ m o, ops[m]? = some o → (d.commit id).graph.op (g.ops.size + m) = { o with
        block := some b
        region := if target = some (g.ops.size + m) then (g.op id).region else o.region } := by
  have pushed {m : Nat} {o : Operation} (at_ : ops[m]? = some o) : d.graph.op (g.ops.size + m) = o := by
    rw [graph,g.pushAllNew ops at_]
  have going' (k : OpId) (listed : k ∈ d.created) : (d.graph.op k).kind ≠ returnKind := by
    rw [created,mem_range'_1] at listed
    obtain ⟨m,rfl⟩ := Nat.exists_eq_add_of_le listed.1
    have at_ := getElem?_eq_getElem (Nat.lt_of_add_lt_add_left listed.2)
    rw [pushed at_]
    exact going _ (mem_of_getElem? at_)
  obtain ⟨fault,b,swap,made⟩ := Swap.ofReady (α := α) ready formed mem goes outer (by rw [graph]; rfl) going'
  refine ⟨fault,b,created ▸ swap,fun m o at_ => ?_⟩
  have listed : g.ops.size + m ∈ d.created := by
    rw [created,mem_range'_1]
    exact ⟨Nat.le_add_right ..,Nat.add_lt_add_left (List.getElem?_eq_some_iff.mp at_).1 _⟩
  rw [made _ listed,pushed at_]

end Ready

namespace Swap

variable {g g' : Graph} {id : OpId} {b : BlockId} {created : List OpId} {vals : List Value}
  (swap : Swap α g g' id b created vals)

include swap

theorem block : (g.op id).block = some b := by
  obtain ⟨_,place⟩ := swap.place
  exact place.block swap.formed

theorem split : ∃ pre post, (g.block b).ops = pre ++ id :: post ∧ id ∉ pre ∧ id ∉ post := by
  obtain ⟨_,visible,pre,post,outer,split,-⟩ := swap.place
  have once := outer.once swap.formed
  rw [split] at once
  have apart := (nodup_cons.mp (nodup_middle.mp once)).1
  exact ⟨pre,post,split,fun mem => apart (mem_append_left _ mem),fun mem => apart (mem_append_right _ mem)⟩

theorem bodyInside : body < g.blocks.size := by
  obtain ⟨_,place⟩ := swap.place
  exact (Nat.zero_le _).trans_lt (listedInside place.listed)

theorem listed {j} (mem : j ∈ (g.block body).ops) : (g.op j).block = some body ∧ j < g.ops.size := by
  have block := Graph.Scope.body.block swap.formed mem
  exact ⟨block,blockInside block⟩

/- What is visible to an operation of a region of the body: nothing that a later or an inner operation computes. -/
theorem unused (nested : b ≠ body) {i} (mem : i ∈ (g.block body).ops) {r} (region : (g.op i).region = some r)
    {pre post} (split : (g.block r).ops = pre ++ post) (apart : id ∉ pre) {j} (inside : j ∈ pre) (k : Nat) :
    some (.result id k) ∉ (g.op j).operands := by
  obtain ⟨left,right,here⟩ := append_of_mem mem
  obtain ⟨before,after,whole⟩ := append_of_mem inside
  have order : (g.block r).ops = before ++ j :: (after ++ post) := by rw [split,whole]; simp
  intro used
  have visible := At.sees ⟨_,_,_,.region .body here region,order,rfl⟩ swap.formed used
  have outer : id ∉ left := fun mem => by
    have home := (swap.listed (here ▸ mem_append_left _ mem)).1
    exact nested (Option.some.inj (swap.block.symm.trans home))
  rcases seenResult visible with around | ⟨listed,-⟩
  · exact outer ((seenResult around).resolve_left nofun).1
  · exact apart (whole ▸ mem_append_left _ listed)

/- Values of the body are no values of a region. -/
theorem outside (home : b = body) {v} (val : v ∈ vals) {i} (mem : i ∈ (g.block body).ops) {r}
    (region : (g.op i).region = some r) :
    (∀ k, v ≠ .argument r k) ∧ ∀ j ∈ (g.block r).ops, ∀ k, v ≠ .result j k := by
  subst home
  have apart : r ≠ body := fun same => Inside.irrefl swap.formed (.here mem (same ▸ region))
  have home {j : OpId} (listed : j ∈ (g.block r).ops) : (g.op j).block = some r := by
    obtain ⟨left,right,here⟩ := append_of_mem mem
    exact (Graph.Scope.region .body here region).block swap.formed listed
  rcases swap.known v val with seen | ⟨l,k,rfl,new⟩
  · obtain ⟨_,place⟩ := swap.place
    obtain ⟨pre,post,split⟩ := append_of_mem place.listed
    obtain ⟨w,same,visible⟩ := seen body _ ⟨[],pre,post,.body,split,rfl⟩
    cases same
    simp only [nil_append,mem_append] at visible
    rcases visible with args | results
    · obtain ⟨k,-,rfl⟩ := memArguments args
      exact ⟨fun _ same => apart (by cases same; rfl),fun _ _ _ => nofun⟩
    · obtain ⟨l,listed,k,-,rfl⟩ := memComputed results
      refine ⟨fun _ => nofun,fun j inside m same => ?_⟩
      cases same
      have other := (swap.listed (split ▸ mem_append_left _ listed)).1
      exact apart (Option.some.inj ((home inside).symm.trans other))
  · refine ⟨fun _ => nofun,fun j inside m same => ?_⟩
    cases same
    exact Nat.not_lt_of_le new (blockInside (home inside))

theorem evalBody {i : OpId} (mem : i ∈ (g.block body).ops) {r : BlockId} (region : (g.op i).region = some r)
    {args ys : List α} (ok : Eval.evalBody g r args = .ok ys) : Eval.evalBody g' r args = .ok ys := by
  obtain ⟨env,bound,ok⟩ := bindOk.mp ok
  have reach : ∃ visible, g.Scope r visible := by
    obtain ⟨left,right,here⟩ := append_of_mem mem
    exact ⟨_,.region .body here region⟩
  obtain ⟨_,reach⟩ := reach
  have inside := reach.inside swap.formed swap.bodyInside
  have bound' : bindArgs r args (g'.block r).args.length 0 (fun _ => Scalar.zero) = .ok env := by
    rw [swap.replaced.args r inside]
    exact bound
  have renamed (j : OpId) (inside : j ∈ (g.block r).ops) (other : j ≠ id) : g'.op j =
      { g.op j with operands := (g.op j).operands.map (Option.map (renameFrom id 0 vals)) } := by
    obtain ⟨_,place⟩ := reach.place inside
    exact swap.replaced.old _ _ j place other
  /- Operations before the anchor do what they did: if the anchor is in the body, values from outside read as zero, and
  if it is in a region, they do not use its results. -/
  have follow (pre tail tail' : List OpId) (split : (g.block r).ops = pre ++ tail) (apart : id ∉ pre)
      (stuck : ∀ (env : Locals α) ys, evalOps g env tail ≠ .ok ys) (ok : evalOps g env (pre ++ tail) = .ok ys) :
      evalOps g' env (pre ++ tail') = .ok ys := by
    have member {j : OpId} (inside : j ∈ pre) : j ∈ (g.block r).ops := split ▸ mem_append_left _ inside
    have other {j : OpId} (inside : j ∈ pre) : j ≠ id := fun same => apart (same ▸ inside)
    have same (j : OpId) (inside : j ∈ pre) :
        (g'.op j).kind = (g.op j).kind ∧ (g'.op j).results = (g.op j).results := by
      rw [renamed j (member inside) (other inside)]
      exact ⟨rfl,rfl⟩
    by_cases home : b = body
    · have apart' (v : Value) (val : v ∈ vals) := swap.outside home val mem region
      have blank : Blank id vals env :=
        ⟨fun k => bindArgsOther bound fun _ _ => nofun,fun v val => bindArgsOther bound fun k _ => (apart' v val).1 k⟩
      refine evalOpsFollow tail' (Blank id vals) same (fun j inside env blank => ?_) (fun j inside env x blank => ?_) stuck blank ok
      · have here := renamed j (member inside) (other inside)
        exact ⟨yieldRenamed here blank,evalScalarRenamed here blank⟩
      · refine ⟨fun i => ?_,fun w val => ?_⟩
        · have apart : (.result id i : Value) ≠ .result j 0 := fun same => other inside (by cases same; rfl)
          rw [Locals.set,if_neg apart,blank.replaced i]
        · rw [Locals.set,if_neg ((apart' w val).2 j (member inside) 0),blank.vals w val]
    · have intact (j : OpId) (inside : j ∈ pre) : g'.op j = g.op j := by
        have kept : (g.op j).operands.map (Option.map (renameFrom id 0 vals)) = (g.op j).operands := by
          conv_rhs => rw [← map_id (g.op j).operands]
          refine map_congr_left fun v used => ?_
          cases v with
          | none => rfl
          | some w =>
            have away (k : Nat) : w ≠ .result id k := fun same =>
              swap.unused home mem region split apart inside k (same ▸ used)
            exact congrArg some (renameFromOther away 0 vals)
        rw [renamed j (member inside) (other inside),kept]
      refine evalOpsFollow tail' (fun _ => True) same (fun j inside env _ => ?_) (fun _ _ _ _ _ => trivial) stuck trivial ok
      simp only [evalScalar,operandValue,operandAt,intact j inside,and_self]
  rw [Eval.evalBody,bound',bindOfOk]
  by_cases here : r = b
  · subst here
    obtain ⟨pre,post,split,first,-⟩ := swap.split
    rw [swap.replaced.here pre post split first]
    rw [split] at ok
    refine follow pre _ _ split first (fun env ys ok => ?_) ok
    rw [evalOps,if_neg swap.notYield] at ok
    obtain ⟨x,value,-⟩ := bindOk.mp ok
    exact swap.stuck env x value
  · rw [swap.replaced.other r inside here]
    have none := reach.notListed swap.formed swap.block here
    rw [← append_nil (g.block r).ops] at ok ⊢
    exact follow _ [] [] (append_nil _).symm none (fun env ys => Outcome.failOk) ok

theorem operands {pre post j} (split : (g.block body).ops = pre ++ j :: post) {v : Value}
    (mem : some v ∈ (g.op j).operands) : v.Below g.ops.size ∧ ∀ i k, v = .result i k → i ∈ pre := by
  have place : g.At body _ j := ⟨[],pre,post,.body,split,rfl⟩
  have scope := place.sees swap.formed mem
  refine ⟨(place.has v scope).below,?_⟩
  rintro i k rfl
  exact ((seenResult scope).resolve_left nofun).1

theorem types {v : Value} (below : v.Below g.ops.size) (inside : ∀ c k, v = .argument c k → c < g.blocks.size) :
    g'.typeOf (renameFrom id 0 vals v) = g.typeOf v := by
  have same : g'.typeOf v = g.typeOf v := by
    cases v with
    | argument c k => simp only [typeOf,slot,swap.replaced.args c (inside c k rfl)]
    | result j k => simp only [typeOf,slot,swap.replaced.results j below]
  by_cases here : ∃ i, v = .result id i
  · obtain ⟨i,rfl⟩ := here
    rw [renameFrom,if_pos ⟨rfl,Nat.zero_le i⟩,getD_eq_getElem?_getD,Nat.sub_zero]
    cases at_ : vals[i]? with
    | none => exact same
    | some u => exact swap.replaced.types i u at_
  · rw [renameFromOther (fun i same => here ⟨i,same⟩),same]

theorem operandType {pre post j} (split : (g.block body).ops = pre ++ j :: post) {v}
    (mem : some v ∈ (g.op j).operands) : g'.typeOf (renameFrom id 0 vals v) = g.typeOf v := by
  refine swap.types (swap.operands split mem).1 ?_
  rintro c k rfl
  have has : k < (g.block c).args.length := At.uses ⟨[],pre,post,.body,split,rfl⟩ swap.formed mem
  by_contra outside
  rw [blockOutside outside] at has
  exact Nat.not_lt_zero k has

variable {W : Value → Prop} {F : Value → ValueType → Nat → Prop}

theorem kept {V : View} (rename : V.rename = renameFrom id 0 vals) (writable : V.writable = W) (fits : V.fits = F)
    {j : OpId} (mem : j ∈ (g.block body).ops) (other : j ≠ id) (suits : Suits α W F g j)
    (live : ∀ v, some v ∈ (g.op j).operands → V.live v) (bindable : ∀ i, V.bindable (.result j i)) :
    Kept α V g g' j := by
  obtain ⟨_,place⟩ := Graph.Scope.body.place mem
  have old := swap.replaced.old _ _ j place other
  obtain ⟨pre,post,split⟩ := append_of_mem mem
  subst writable fits
  exact {
    kind := by rw [old]
    attrs := by rw [old]
    results := by rw [old]
    operands := by rw [old,rename]
    live := live
    types := fun v here => by rw [rename,swap.operandType split here]
    writable := suits.writable
    few := suits.few
    region := by rw [old]
    bodies := fun r region _ _ ok => swap.evalBody mem region ok
    bindable := bindable
    filled := suits.filled
    copied := suits.copied
    cast := suits.cast }

theorem keptBefore {pre post j} (split : (g.block body).ops = pre ++ j :: post) (apart : id ∉ pre) (other : j ≠ id)
    (suits : Suits α W F g j) :
    Kept α (View.before id vals g.ops.size W F) g g' j := by
  have mem : j ∈ (g.block body).ops := by
    rw [split]
    exact mem_append_right _ (.head _)
  refine swap.kept rfl rfl rfl mem other suits (fun v here => ?_) fun i => ⟨(swap.listed mem).2,fun k same => ?_⟩
  · obtain ⟨below,origin⟩ := swap.operands split here
    exact ⟨below,fun i same => apart (origin id i same)⟩
  · cases same
    exact other rfl

theorem keptAfter {j} (mem : j ∈ (g.block body).ops) (other : j ≠ id) (fresh : ∀ v ∈ vals, ∀ k, v ≠ .result j k)
    (suits : Suits α W F g j) :
    Kept α (View.after id vals g.ops.size W F) g g' j := by
  obtain ⟨pre,post,split⟩ := append_of_mem mem
  refine swap.kept rfl rfl rfl mem other suits (fun v here => (swap.operands split here).1)
    fun i => ⟨(swap.listed mem).2,fun k same => ?_,fun mem => fresh _ mem i rfl⟩
  cases same
  exact other rfl

/- What takes the place of the results is not computed again. -/
theorem fresh {pre post} (split : (g.block body).ops = pre ++ id :: post) {v} (val : v ∈ vals) {j} (mem : j ∈ post)
    (k : Nat) : v ≠ .result j k := by
  have once := Graph.Scope.body.once swap.formed
  have inside : j ∈ (g.block body).ops := split ▸ mem_append_right _ (.tail _ mem)
  rintro rfl
  rcases swap.known _ val with seen | ⟨l,i,same,new⟩
  · obtain ⟨w,same,visible⟩ := seen body _ ⟨[],pre,post,.body,split,rfl⟩
    cases same
    obtain ⟨early,-⟩ := (seenResult visible).resolve_left nofun
    rw [split] at once
    exact (nodup_append.mp once).2.2 _ early _ (.tail _ mem) rfl
  · cases same
    exact Nat.not_lt.mpr new (swap.listed inside).2

omit swap

def Anchored (g g' : Graph) (id : OpId) (created : List OpId) (vals : List Value) (W : Value → Prop)
    (F : Value → ValueType → Nat → Prop) (memory : Array (NdArray α)) (args : List Ref) : Prop :=
  ∀ pre post, (g.block body).ops = pre ++ id :: post → ∀ first s, Started g memory args first →
    evalEach g pre first = .ok () s → ∀ p s' t, Agree (View.before id vals g.ops.size W F) p s s' →
    Settled (View.before id vals g.ops.size W F) p s → evalOp g id s = .ok () t →
    ∃ q t', evalEach g' created s' = .ok () t' ∧
      Agree (View.after id vals g.ops.size W F) q t t' ∧ Settled (View.after id vals g.ops.size W F) q t ∧
      ∀ r r', p.same r r' → q.same r r'

include swap

variable {memory : Array (NdArray α)} {args : List Ref}

theorem started {s} (started : Started g memory args s) : Started g' memory args s :=
  started.carry swap.replaced.name (swap.replaced.args _ swap.bodyInside)

theorem refines (valid : ∀ r ∈ args, r < memory.size)
    (suits : ∀ j ∈ (g.block body).ops, j ≠ id → Suits α W F g j)
    (tensors : ∀ k, ¬ W (.argument body k) → (g.typeOf (.argument body k)).isTensor = true)
    (fits : ∀ s, Started g memory args s → ∀ v r, s.env v = some r → F v (s.arrayAt r).type (s.arrayAt r).data.size)
    (anchor : Anchored g g' id created vals W F memory args) : Refines g g' memory args := by
  refine refinesOfPaired valid fun s rs t started ran => ?_
  have agree := started.agree (V := View.before id vals g.ops.size W F) (fun _ _ => rfl)
    fun v r _ found => fits s started v r found
  have settled := started.settled (V := View.before id vals g.ops.size W F) tensors
  have initial (r : Ref) (within : r < s.memory.size) :
      (Started.pairing (View.before id vals g.ops.size W F) s).same r r := ⟨rfl,within⟩
  by_cases home : b = body
  · subst home
    obtain ⟨pre,post,split,first,last⟩ := swap.split
    have before (j : OpId) (mem : j ∈ pre) : Kept α (View.before id vals g.ops.size W F) g g' j := by
      obtain ⟨left,right,here⟩ := append_of_mem mem
      have other : j ≠ id := fun same => first (same ▸ mem)
      have whole : (g.block body).ops = left ++ j :: (right ++ id :: post) := by simp [split,here]
      have listed : j ∈ (g.block body).ops := split ▸ mem_append_left _ mem
      exact swap.keptBefore whole (fun mem => first (here ▸ mem_append_left _ mem)) other (suits j listed other)
    have after (j : OpId) (mem : j ∈ post) : Kept α (View.after id vals g.ops.size W F) g g' j := by
      have other : j ≠ id := fun same => last (same ▸ mem)
      have listed : j ∈ (g.block body).ops := split ▸ mem_append_right _ (.tail _ mem)
      exact swap.keptAfter listed other (fun v here => swap.fresh split here mem) (suits j listed other)
    have body' := swap.replaced.here pre post split first
    rw [split] at ran
    rw [body']
    rcases evalAllKept before agree settled _ ran with
      ⟨q,rs',t',ran',all,agree,same⟩ | ⟨q,u,u',reached,ran,goes,agree,settled,flows⟩
    · exact ⟨_,q,rs',t',swap.started started,ran' _,all,agree,fun r within => same r r (initial r within)⟩
    · obtain ⟨w,here,ran⟩ := (evalAllCons swap.notReturn).mp ran
      obtain ⟨q1,w',here',agree,settled,same1⟩ :=
        anchor pre post split s u started reached q u' w agree settled here
      have goes' (tail : List OpId) {rs' : List Ref} {t' : Machine α} (ran : evalAll g' tail w' = .ok rs' t') :
          evalAll g' (pre ++ (created ++ tail)) s = .ok rs' t' := by
        rw [goes]
        exact evalAllEach swap.going here' ran
      rw [← append_nil post] at ran ⊢
      rcases evalAllKept after agree settled _ ran with
        ⟨q2,rs',t',ran',all,agree,same2⟩ | ⟨q2,x,x',-,ended,ended',agree,-,flows2⟩
      · exact ⟨_,q2,rs',t',swap.started started,goes' _ (ran' []),all,agree,
          fun r within => same2 r r (same1 r r (flows.same r r (initial r within)))⟩
      · cases ended
        exact ⟨_,q2,[],x',swap.started started,goes' _ (ended' []),.nil,agree,
          fun r within => flows2.same r r (same1 r r (flows.same r r (initial r within)))⟩
  · have none : id ∉ (g.block body).ops := fun mem =>
      home (Option.some.inj (swap.block.symm.trans (swap.listed mem).1))
    have all (j : OpId) (mem : j ∈ (g.block body).ops) : Kept α (View.before id vals g.ops.size W F) g g' j := by
      obtain ⟨left,right,here⟩ := append_of_mem mem
      have other : j ≠ id := fun same => none (same ▸ mem)
      exact swap.keptBefore here (fun inside => none (here ▸ mem_append_left _ inside)) other (suits j mem other)
    rw [swap.replaced.other body swap.bodyInside fun same => home same.symm]
    rw [← append_nil (g.block body).ops] at ran ⊢
    rcases evalAllKept all agree settled _ ran with
      ⟨q,rs',t',ran',all,agree,same⟩ | ⟨q,u,u',-,ended,ended',agree,-,flows⟩
    · exact ⟨_,q,rs',t',swap.started started,ran' [],all,agree,fun r within => same r r (initial r within)⟩
    · cases ended
      exact ⟨_,q,[],u',swap.started started,ended' [],.nil,agree,fun r within => flows.same r r (initial r within)⟩

end Swap

end Eval

end TileLower
