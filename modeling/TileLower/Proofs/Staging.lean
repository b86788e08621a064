import TileLower.Proofs.Checks
import TileLower.Proofs.Replacements

/-!
Drafts of the rules: new operations on values that the anchor sees or on results of new operations before them.
-/
namespace TileLower

open List

structure Sight (g : Graph) (id : OpId) (V : Operand → Prop) : Prop where
  within : id < g.ops.size
  operands : ∀ v ∈ (g.op id).operands, V v
  closed : ∀ j i, V (some (.result j i)) → ∀ v ∈ (g.op j).operands, V v

def Offers (g : Graph) (V : Operand → Prop) (ops : List Operation) (v : Operand) : Prop :=
  V v ∨ ∃ m o i, ops[m]? = some o ∧ i < o.results.length ∧ v = some (.result (g.ops.size + m) i)

structure Staged (g : Graph) (id : OpId) (V : Operand → Prop) (target : Option OpId) (ops : List Operation)
    (d : Draft) : Prop where
  graph : d.graph = g.pushAll ops
  created : d.created = range' g.ops.size ops.length
  plain : ∀ o ∈ ops, o.region = none ∧ o.block = none
  operands : ∀ pre o post, ops = pre ++ o :: post → ∀ v ∈ o.operands, Offers g V pre v
  aim : ∀ t, target = some t → ∃ m, m < ops.length ∧ t = g.ops.size + m
  moves : d.moves = target.toList.map fun t => (some id, some t)
  replacements : d.replacements = []
  erased : d.erased = []

structure NewBody (g : Graph) (id : OpId) (h : Graph) (k : OpId) (r : BlockId) : Prop where
  deep : (g.op id).region.isSome
  new : g.blocks.size ≤ r
  owner : (h.block r).owner = some k
  once : (h.block r).ops.Nodup
  plain : ∀ j ∈ (h.block r).ops, g.ops.size ≤ j ∧ (h.op j).region = none
  formed : ∀ region, Graph.OpsFormed h region r (h.argumentsOf r) (h.block r).ops

structure Ready (g : Graph) (id : OpId) (V : Operand → Prop) (target : Option OpId) (vals : List Value)
    (d : Draft) : Prop where
  within : id < g.ops.size
  size : g.ops.size ≤ d.graph.ops.size
  old : ∀ j, j < g.ops.size → d.graph.op j = g.op j
  blocks : g.blocks.size ≤ d.graph.blocks.size
  oldBlock : ∀ c, c < g.blocks.size → d.graph.block c = g.block c
  new : ∀ k ∈ d.created, g.ops.size ≤ k ∧ k < d.graph.ops.size
  once : d.created.Nodup
  plain : ∀ k ∈ d.created, (d.graph.op k).block = none
  operands : ∀ pre k post, d.created = pre ++ k :: post → ∀ v ∈ (d.graph.op k).operands,
    V v ∨ ∃ w, v = some w ∧ w ∈ d.graph.computed pre
  regions : ∀ k ∈ d.created, ∀ r, (d.graph.op k).region = some r → NewBody g id d.graph k r
  aim : ∀ t, target = some t → t ∈ d.created ∧ (d.graph.op t).region = none
  moves : d.moves = target.toList.map fun t => (some id, some t)
  replacements : d.replacements = [(id, vals.map some)]
  erased : d.erased = []
  known : ∀ v ∈ vals, V (some v) ∨ v ∈ d.graph.computed d.created
  length : vals.length = (g.op id).results.length
  types : ∀ i v, vals[i]? = some v → d.graph.typeOf v = g.typeOf (.result id i)

abbrev Prepared (g : Graph) (id : OpId) (V : Operand → Prop) (d : Draft) : Prop :=
  ∃ target vals, Ready g id V target vals d

theorem Ready.values {g id V target} {vals ws : List Value} {d : Draft} (ready : Ready g id V target vals d)
    (made : d.replacements = [(id, ws.map some)]) : vals = ws := by
  have same := ready.replacements.symm.trans made
  exact map_injective_iff.mpr (Option.some_injective _) (congrArg Prod.snd (head_eq_of_cons_eq same))

theorem Ready.unmoved {g id V target vals} {d : Draft} (ready : Ready g id V target vals d) (still : d.moves = []) :
    target = none := by
  cases target with
  | none => rfl
  | some => cases ready.moves.symm.trans still

section Offers

variable {g : Graph} {V : Operand → Prop} {ops : List Operation} {v : Operand}

theorem Offers.mono (offers : Offers g V ops v) (more : List Operation) : Offers g V (ops ++ more) v := by
  rcases offers with seen | ⟨m,o,i,at_,lt,rfl⟩
  · exact .inl seen
  · refine .inr ⟨m,o,i,?_,lt,rfl⟩
    rw [getElem?_append_left (List.getElem?_eq_some_iff.mp at_).1,at_]

theorem offersLast (o : Operation) {i} (lt : i < o.results.length) :
    Offers g V (ops ++ [o]) (some (.result (g.ops.size + ops.length) i)) :=
  .inr ⟨ops.length,o,i,by simp,lt,rfl⟩

theorem computedPushed {pre post : List Operation} {w} :
    w ∈ (g.pushAll (pre ++ post)).computed (range' g.ops.size pre.length) ↔
      ∃ m o i, pre[m]? = some o ∧ i < o.results.length ∧ w = .result (g.ops.size + m) i := by
  have at' {m : Nat} {o : Operation} (at_ : pre[m]? = some o) : (g.pushAll (pre ++ post)).op (g.ops.size + m) = o := by
    refine g.pushAllNew _ ?_
    rw [getElem?_append_left (List.getElem?_eq_some_iff.mp at_).1,at_]
  constructor
  · intro mem
    obtain ⟨k,listed,i,lt,rfl⟩ := Graph.memComputed mem
    rw [mem_range'_1] at listed
    obtain ⟨m,rfl⟩ := Nat.exists_eq_add_of_le listed.1
    have at_ := getElem?_eq_getElem (Nat.lt_of_add_lt_add_left listed.2)
    rw [at' at_] at lt
    exact ⟨m,_,i,at_,lt,rfl⟩
  · rintro ⟨m,o,i,at_,lt,rfl⟩
    have inside := (List.getElem?_eq_some_iff.mp at_).1
    refine mem_flatMap.mpr ⟨g.ops.size + m,?_,mem_map.mpr ⟨i,?_,rfl⟩⟩
    · rw [mem_range'_1]
      exact ⟨Nat.le_add_right ..,Nat.add_lt_add_left inside _⟩
    · rwa [at' at_,mem_range]

end Offers

theorem rangeSplit {a n k} {pre post : List Nat} (split : range' a n = pre ++ k :: post) :
    pre = range' a pre.length ∧ k = a + pre.length ∧ pre.length < n := by
  induction pre generalizing a n with
  | nil =>
    cases n with
    | zero => cases split
    | succ n =>
      cases split
      exact ⟨rfl,rfl,Nat.succ_pos n⟩
  | cons j pre ih =>
    cases n with
    | zero => cases split
    | succ n =>
      rw [range'_succ,cons_append,List.cons.injEq] at split
      obtain ⟨rfl,split⟩ := split
      obtain ⟨before,here,lt⟩ := ih split
      refine ⟨?_,by rw [here,length_cons]; omega,by simpa using lt⟩
      rw [length_cons,range'_succ,← before]

namespace Draft

variable {g : Graph} {id : OpId}

theorem checkReplacementOk {i} {ss : List Slot} {vs : List Operand} (length : vs.length = ss.length)
    (ok : checkReplacement g id i ss vs = .ok ()) :
    ∃ ws : List Value, vs = ws.map some ∧ ws.map g.typeOf = ss.map Slot.type := by
  induction ss generalizing i vs with
  | nil =>
    cases vs with
    | nil => exact ⟨[],rfl,rfl⟩
    | cons => cases length
  | cons s ss ih =>
    cases vs with
    | nil => cases length
    | cons v vs =>
      cases v with
      | none => cases ok
      | some v =>
        by_cases same : g.typeOf v = s.type
        · simp only [checkReplacement,if_pos same] at ok
          obtain ⟨ws,rfl,types⟩ := ih (Nat.succ.inj length) ok
          exact ⟨v :: ws,rfl,by simp [same,types]⟩
        · simp only [checkReplacement,if_neg same] at ok
          cases ok

theorem replaceOk {vs} {d e : Draft} (ok : replace id vs d = .ok () e) :
    ∃ ws : List Value, vs = ws.map some ∧ ws.map d.graph.typeOf = (d.graph.op id).results.map Slot.type ∧
      e = { d with replacements := d.replacements ++ [(id, vs)] } := by
  obtain ⟨_,rfl,ok⟩ := Step.read Drafting.graphOk ok
  obtain ⟨_,can,ok⟩ := Step.read Drafting.liftOk ok
  obtain ⟨length,can⟩ := (Outcome.checkOk fun u => (nofun : ¬ internalAt d.graph id _ = .ok u)).mp can
  obtain ⟨ws,same,types⟩ := checkReplacementOk (not_not.mp length) can
  cases ok
  exact ⟨ws,same,types,rfl⟩

theorem typesAt {h : Graph} {vals : List Value} (types : vals.map h.typeOf = (g.op id).results.map Slot.type) {i v}
    (at_ : vals[i]? = some v) : h.typeOf v = g.typeOf (.result id i) := by
  have same := congrArg (·[i]?) types
  simp only [getElem?_map,at_,Option.map_some] at same
  obtain ⟨slot,found,type⟩ := Option.map_eq_some_iff.mp same.symm
  rw [← type]
  simp only [Graph.typeOf,Graph.slot,getD_eq_getElem?_getD,found,Option.getD_some]

end Draft

namespace Staged

variable {g : Graph} {id : OpId} {V : Operand → Prop} {target : Option OpId} {ops : List Operation} {d e : Draft}

theorem start (g : Graph) (id : OpId) (V : Operand → Prop) : Staged g id V none [] (Draft.ofGraph g) := by
  refine ⟨by simp [Draft.ofGraph],rfl,by simp,fun pre o post split => ?_,by simp,rfl,rfl,rfl⟩
  cases pre <;> cases split

variable (staged : Staged g id V target ops d)

include staged

theorem size : d.graph.ops.size = g.ops.size + ops.length := by rw [staged.graph,g.pushAllSize]

theorem old {j} (within : j < g.ops.size) : d.graph.op j = g.op j := by rw [staged.graph,g.pushAllOld ops within]

theorem push {o : Operation} (plain : o.region = none ∧ o.block = none) (operands : ∀ v ∈ o.operands, Offers g V ops v) :
    Staged g id V target (ops ++ [o]) (d.push o) := by
  refine ⟨?_,?_,?_,fun pre o' post split => ?_,fun t same => ?_,staged.moves,staged.replacements,staged.erased⟩
  · rw [Draft.pushGraph,staged.graph,g.pushAllPush]
  · rw [Draft.pushCreated,staged.created,staged.size,length_append,length_singleton,range'_concat]
    simp
  · intro o' mem
    rcases mem_append.mp mem with old | new
    · exact staged.plain o' old
    · rw [mem_singleton] at new
      exact new ▸ plain
  · rcases append_eq_append_iff.mp split with ⟨more,rfl,rest⟩ | ⟨more,rfl,rest⟩
    · cases more with
      | nil =>
        cases rest
        simpa using operands
      | cons _ more => cases more <;> cases rest
    · cases more with
      | nil =>
        cases rest
        simpa using operands
      | cons _ more =>
        cases rest
        exact staged.operands pre o' more rfl
  · obtain ⟨m,lt,rfl⟩ := staged.aim t same
    exact ⟨m,by simp; omega,rfl⟩

theorem last (o : Operation) {i} (lt : i < o.results.length) :
    Offers g V (ops ++ [o]) (some (.result d.graph.ops.size i)) := by
  rw [staged.size]
  exact offersLast o lt

theorem computed {w} : w ∈ d.graph.computed d.created ↔
    ∃ m o i, ops[m]? = some o ∧ i < o.results.length ∧ w = .result (g.ops.size + m) i := by
  rw [staged.graph,staged.created]
  have all := @computedPushed g ops [] w
  rwa [append_nil] at all

theorem replace (sight : Sight g id V) {vs} (offers : ∀ v ∈ vs, Offers g V ops v)
    (ok : Draft.replace id vs d = .ok () e) : ∃ vals, Ready g id V target vals e := by
  obtain ⟨vals,rfl,types,rfl⟩ := Draft.replaceOk ok
  have made {m : Nat} {o : Operation} (at_ : ops[m]? = some o) : d.graph.op (g.ops.size + m) = o := by
    rw [staged.graph,g.pushAllNew ops at_]
  have new {k : OpId} (mem : k ∈ d.created) : ∃ m o, k = g.ops.size + m ∧ ops[m]? = some o ∧ o ∈ ops := by
    rw [staged.created,mem_range'_1] at mem
    obtain ⟨m,rfl⟩ := Nat.exists_eq_add_of_le mem.1
    have at_ := getElem?_eq_getElem (Nat.lt_of_add_lt_add_left mem.2)
    exact ⟨m,_,rfl,at_,mem_of_getElem? at_⟩
  have results : (d.graph.op id).results = (g.op id).results := by rw [staged.old sight.within]
  refine ⟨vals,{
    within := sight.within
    size := by rw [staged.size]; exact Nat.le_add_right ..
    old := fun j within => staged.old within
    blocks := by rw [staged.graph]; exact le_rfl
    oldBlock := fun c _ => by rw [staged.graph]; rfl
    new := fun k mem => ?_
    once := by rw [staged.created]; exact nodup_range'
    plain := fun k mem => ?_
    operands := fun pre k post split v mem => ?_
    regions := fun k mem r region => ?_
    aim := fun t same => ?_
    moves := staged.moves
    replacements := by rw [staged.replacements]; rfl
    erased := staged.erased
    known := fun v mem => ?_
    length := ?_
    types := fun i v at_ => Draft.typesAt (results ▸ types) at_ }⟩
  · rw [staged.created,mem_range'_1] at mem
    rw [staged.size]
    exact mem
  · obtain ⟨m,o,rfl,at_,listed⟩ := new mem
    rw [made at_]
    exact (staged.plain o listed).2
  · -- The operations before one are those with smaller numbers.
    rw [staged.created] at split
    obtain ⟨before,rfl,lt⟩ := rangeSplit split
    rw [made (getElem?_eq_getElem lt)] at mem
    have whole : ops = ops.take pre.length ++ ops.get ⟨pre.length,lt⟩ :: ops.drop (pre.length + 1) := by simp
    have taken : (ops.take pre.length).length = pre.length := length_take_of_le (lt.le)
    rcases staged.operands _ _ _ whole v mem with seen | ⟨k,o,i,at_,lt,rfl⟩
    · exact .inl seen
    · have made : _ ∈ (g.pushAll (_ ++ ops.drop pre.length)).computed _ := computedPushed.mpr ⟨k,o,i,at_,lt,rfl⟩
      rw [take_append_drop,taken,← before,← staged.graph] at made
      exact .inr ⟨_,rfl,made⟩
  · obtain ⟨m,o,rfl,at_,listed⟩ := new mem
    rw [made at_,(staged.plain o listed).1] at region
    cases region
  · obtain ⟨m,lt,rfl⟩ := staged.aim t same
    have at_ := getElem?_eq_getElem lt
    refine ⟨?_,?_⟩
    · rw [staged.created,mem_range'_1]
      exact ⟨Nat.le_add_right ..,Nat.add_lt_add_left lt _⟩
    · rw [made at_]
      exact (staged.plain _ (mem_of_getElem? at_)).1
  · rcases offers (some v) (mem_map_of_mem mem) with seen | ⟨m,o,i,at_,lt,same⟩
    · exact .inl seen
    · cases same
      exact .inr (staged.computed.mpr ⟨m,o,i,at_,lt,rfl⟩)
  · rw [← results]
    simpa using congrArg List.length types

end Staged

end TileLower
