import Mathlib.Data.List.Shortlex
import TileLower.Proofs.Orders
import TileLower.Proofs.Propagations

/-!
Weights by which propagation comes to an end. When an unpack moves behind an operation, the load of the operation
becomes less, and only later loads may grow.
-/
namespace TileLower.Propagation

open Relayout Structured List TileLower.Graph

def rules : List Rule := [foldPackOfUnpack, foldUnpackOfPack, throughPad, throughElementwise]

def isPassed (op : Operation) : Bool := op.kind == Memory.padKind || op.kind == genericKind

def weight (w : OpId → Nat) : Operand → Nat
  | some (.result k _) => w k
  | _ => 0

def load (w : OpId → Nat) (op : Operation) : Nat := (op.operands.map (weight w)).sum

def Outweighs (w : OpId → Nat) (op : Operation) (n : Nat) : Prop := ∀ v, op.operands[0]? = some v →
  (isPack op = true → weight w v ≤ n) ∧ (isUnpack op = true → weight w v < n)

structure Weighed (g : Graph) (w : OpId → Nat) (order : List OpId) : Prop where
  ordered : g.Ordered order
  outweighs : ∀ j ∈ order, Outweighs w (g.op j) (w j)

def loads (g : Graph) (w : OpId → Nat) (order : List OpId) : List Nat :=
  (order.filter fun j => g.isAlive j && isPassed (g.op j)).map fun j => load w (g.op j)

def rank (g : Graph) (w : OpId → Nat) (order : List OpId) : List Nat × Nat := (loads g w order, (order.filter g.isAlive).length)

def Less : List Nat × Nat → List Nat × Nat → Prop := Prod.Lex (Shortlex (· < ·)) (· < ·)

def Drops (g : Graph) (w : OpId → Nat) (order : List OpId) (g' : Graph) (order' : List OpId) : Prop :=
  ∃ w', Weighed g' w' order' ∧ Less (rank g' w' order') (rank g w order)

theorem lessWellFounded : WellFounded Less := WellFounded.prod_lex (Shortlex.wf Nat.lt_wfRel.wf) Nat.lt_wfRel.wf

variable {g g' : Graph} {w w' : OpId → Nat} {order pre post : List OpId} {id : OpId}

theorem weighedOfOrdered (ordered : g.Ordered order) : ∃ w, Weighed g w order := by
  refine ⟨fun j => order.idxOf j + 1,ordered,fun j mem v read => ?_⟩
  have less : weight (fun j => order.idxOf j + 1) v < order.idxOf j + 1 := by
    match v with
    | none | some (.argument ..) => exact Nat.succ_pos _
    | some (.result k i) =>
      obtain ⟨left,right,split⟩ := append_of_mem mem
      have early := ordered.before split j (.inr rfl) k i (mem_of_getElem? read)
      have other : j ∉ left := ordered.notBefore split
      refine Nat.succ_lt_succ ?_
      rw [split,idxOf_append_of_mem early,idxOf_append_of_notMem other]
      exact (idxOf_lt_length_of_mem early).trans_le (Nat.le_add_right _ _)
  exact ⟨fun _ => less.le,fun _ => less⟩

theorem loadsAppend (xs ys : List OpId) : loads g w (xs ++ ys) = loads g w xs ++ loads g w ys := by
  simp [loads]

theorem loadsCongr {ids} (same : ∀ j ∈ ids, g'.isAlive j = g.isAlive j ∧ isPassed (g'.op j) = isPassed (g.op j)) :
    (loads g' w' ids).length = (loads g w ids).length := by
  rw [loads,loads,length_map,length_map]
  refine congrArg length (filter_congr fun j mem => ?_)
  rw [(same j mem).1,(same j mem).2]

theorem loadsLe {ids} (same : ∀ j ∈ ids, g'.isAlive j = g.isAlive j ∧ isPassed (g'.op j) = isPassed (g.op j))
    (le : ∀ j ∈ ids, load w' (g'.op j) ≤ load w (g.op j)) :
    loads g' w' ids = loads g w ids ∨ Lex (· < ·) (loads g' w' ids) (loads g w ids) := by
  induction ids with
  | nil => exact .inl rfl
  | cons j ids ih =>
    obtain ⟨⟨alive,passed⟩,same⟩ := forall_mem_cons.mp same
    obtain ⟨here,le⟩ := forall_mem_cons.mp le
    have rest := ih same le
    unfold loads at rest ⊢
    rw [filter_cons,filter_cons,alive,passed]
    split
    · rw [map_cons,map_cons]
      rcases Nat.lt_or_eq_of_le here with less | equal
      · exact .inr (.rel less)
      · rw [equal]
        exact rest.imp (congrArg _) .cons
    · exact rest

theorem rankDrops (split : order = pre ++ id :: post) (alive : g.isAlive id = true) (dead : g'.isAlive id = false)
    (same : ∀ j ∈ pre ++ post, g'.isAlive j = g.isAlive j ∧ isPassed (g'.op j) = isPassed (g.op j))
    (le : ∀ j ∈ pre ++ post, load w' (g'.op j) ≤ load w (g.op j)) : Less (rank g' w' order) (rank g w order) := by
  have gone : loads g' w' order = loads g' w' (pre ++ post) := by
    rw [split,loadsAppend,loadsAppend,loads,loads,filter_cons,dead]
    rfl
  have count : (loads g' w' (pre ++ post)).length = (loads g w (pre ++ post)).length := loadsCongr same
  rw [rank,rank,gone]
  by_cases passed : isPassed (g.op id) = true
  · refine .left _ _ (.of_length_lt ?_)
    rw [count,split,loadsAppend,loadsAppend,loads,loads,loads,filter_cons,alive,passed]
    simp
  · have kept : loads g w order = loads g w (pre ++ post) := by
      rw [split,loadsAppend,loadsAppend,loads,loads,loads,filter_cons,alive,Bool.eq_false_iff.mpr passed]
      rfl
    rw [kept]
    rcases loadsLe same le with equal | less
    · rw [equal]
      refine .right _ ?_
      have others : (pre ++ post).filter g'.isAlive = (pre ++ post).filter g.isAlive :=
        filter_congr fun j mem => (same j mem).1
      have fewer := congrArg length others
      rw [split]
      simp only [filter_append,filter_cons,length_append,alive,dead,if_true,length_cons] at fewer ⊢
      simp only [Bool.false_eq_true,if_false]
      omega
    · exact .left _ _ (.of_lex count less)

section Commits

variable {ops : List Operation} {target : Option OpId} {vals : List Value} {d : Draft} {b : BlockId} {C : Nat}

theorem Outweighs.congr {op op' : Operation} {n} (outweighs : Outweighs w op n) (kind : op'.kind = op.kind)
    (operands : op'.operands = op.operands) (same : ∀ v ∈ op.operands, weight w' v = weight w v) : Outweighs w' op' n := by
  intro v read
  rw [operands] at read
  rw [same v (mem_of_getElem? read),isPack,isUnpack,kind]
  exact outweighs v read

theorem usesOrder (ordered : g.Ordered order) {j k i} (mem : j ∈ order) (used : some (.result k i) ∈ (g.op j).operands) :
    k ∈ order := by
  obtain ⟨left,right,split⟩ := append_of_mem mem
  have early := ordered.before split j (.inr rfl) k i used
  simp [split,early]

structure Shifted (w w' : OpId → Nat) (id : OpId) (pre post : List OpId) (vals : List Value) (C : Nat) : Prop where
  before : ∀ j ∈ pre, w' j = w j
  anchor : w' id = w id
  behind : ∀ j ∈ post, w' j = w j + C
  given : ∀ x ∈ vals, weight w' (some x) ≤ w id + C

namespace Shifted

variable (shifted : Shifted w w' id pre post vals C)

include shifted

theorem kept (v : Operand) (seen : Before pre v) : weight w' v = weight w v := by
  match v with
  | none | some (.argument ..) => rfl
  | some (.result k i) => exact shifted.before k (seen k i rfl)

theorem shift (split : order = pre ++ id :: post) (v : Operand) (used : ∀ k i, v = some (.result k i) → k ∈ order) :
    weight w' v ≤ weight w v + C := by
  match v with
  | none | some (.argument ..) => exact Nat.zero_le _
  | some (.result k i) =>
    have mem := used k i rfl
    rw [split,mem_append,mem_cons] at mem
    rcases mem with early | rfl | late
    · exact (Nat.le_of_eq (shifted.before k early)).trans (Nat.le_add_right _ _)
    · exact (Nat.le_of_eq shifted.anchor).trans (Nat.le_add_right _ _)
    · exact Nat.le_of_eq (shifted.behind k late)

theorem renamed (split : order = pre ++ id :: post) (v : Operand) (used : ∀ k i, v = some (.result k i) → k ∈ order) :
    weight w' (v.map (renameFrom id 0 vals)) ≤ weight w v + C := by
  cases v with
  | none => exact Nat.zero_le _
  | some v =>
    rw [Option.map_some]
    rcases renameFromCases id 0 vals v with same | ⟨⟨i,rfl⟩,mem⟩
    · rw [same]
      exact shifted.shift split _ used
    · exact shifted.given _ mem

end Shifted

section Stages

variable (stages : Stages g id pre ops target vals d) (ordered : g.Ordered order)
  (split : order = pre ++ id :: post) (block : (g.op id).block = some b) (shifted : Shifted w w' id pre post vals C)

include stages ordered split block

theorem aliveBehind {j} (mem : j ∈ post) : (Ready.committed d id b target vals).isAlive j = g.isAlive j ∧
    isPassed ((Ready.committed d id b target vals).op j) = isPassed (g.op j) := by
  have other : j ≠ id := fun same => ordered.notBehind split (same ▸ mem)
  obtain ⟨operands,op,-⟩ := stages.afterOther ordered split block (ordered.within j (by simp [split,mem])) other
  rw [isAlive,op]
  exact ⟨rfl,rfl⟩

theorem aliveBefore {j} (mem : j ∈ pre) : (Ready.committed d id b target vals).isAlive j = g.isAlive j := by
  rw [isAlive,stages.afterBefore ordered split block mem]
  rfl

omit ordered split in
theorem deadAnchor (ordered : g.Ordered order) (split : order = pre ++ id :: post) :
    (Ready.committed d id b target vals).isAlive id = false := by
  obtain ⟨region,op,-⟩ := stages.afterAnchor block ordered split
  rw [isAlive,op]
  rfl

include shifted

theorem behindAnchor {j} (mem : j ∈ post) : ∃ f : Operand → Operand,
    ((Ready.committed d id b target vals).op j).operands = (g.op j).operands.map f ∧
      ((Ready.committed d id b target vals).op j).kind = (g.op j).kind ∧
      ∀ v ∈ (g.op j).operands, weight w' (f v) ≤ weight w v + C := by
  have other : j ≠ id := fun same => ordered.notBehind split (same ▸ mem)
  have inside : j ∈ order := by simp [split,mem]
  have uses (v : Operand) (used : v ∈ (g.op j).operands) (k i : Nat) (same : v = some (.result k i)) : k ∈ order :=
    usesOrder ordered inside (same ▸ used)
  obtain ⟨operands,op,rfl | rfl⟩ := stages.afterOther ordered split block (ordered.within j inside) other
  · refine ⟨fun v => v,?_,by rw [op],fun v used => shifted.shift split v (uses v used)⟩
    rw [op,map_id']
  · exact ⟨_,by rw [op],by rw [op],fun v used => shifted.renamed split v (uses v used)⟩

theorem Weighed.committed (outweighs : ∀ j ∈ order, Outweighs w (g.op j) (w j))
    (new : ∀ k ∈ d.created, Outweighs w' (d.graph.op k) (w' k)) :
    Weighed (Ready.committed d id b target vals) w' (pre ++ (d.created ++ id :: post)) := by
  refine ⟨stages.orders ordered split block,fun j mem => ?_⟩
  have early (j : OpId) (mem : j ∈ pre ∨ j = id) (v : Operand) (used : v ∈ (g.op j).operands) :
      weight w' v = weight w v :=
    shifted.kept v fun k i same => ordered.before split j mem k i (same ▸ used)
  simp only [mem_append,mem_cons] at mem
  rcases mem with mem | mem | rfl | mem
  · rw [shifted.before j mem,stages.afterBefore ordered split block mem]
    exact (outweighs j (by simp [split,mem])).congr rfl rfl (early j (.inl mem))
  · rw [stages.afterNew ordered split block mem]
    exact (new j mem).congr rfl rfl fun _ _ => rfl
  · obtain ⟨region,op,-⟩ := stages.afterAnchor block ordered split
    rw [shifted.anchor,op]
    exact (outweighs j (by simp [split])).congr rfl rfl (early j (.inr rfl))
  · obtain ⟨f,operands,kind,le⟩ := behindAnchor stages ordered split block shifted mem
    intro v read
    rw [operands,getElem?_map,Option.map_eq_some_iff] at read
    obtain ⟨u,read,rfl⟩ := read
    have heavy := outweighs j (by simp [split,mem]) u read
    have le := le u (mem_of_getElem? read)
    rw [shifted.behind j mem,isPack,isUnpack,kind]
    exact ⟨fun pack => le.trans (Nat.add_le_add_right (heavy.1 pack) C),
      fun unpack => le.trans_lt (Nat.add_lt_add_right (heavy.2 unpack) C)⟩

end Stages

theorem foldLess (stages : Stages g id pre [] target vals d) (weighed : Weighed g w order)
    (split : order = pre ++ id :: post) (block : (g.op id).block = some b)
    (given : ∀ x ∈ vals, weight w (some x) ≤ w id) :
    Drops g w order (Ready.committed d id b target vals) (pre ++ (d.created ++ id :: post)) := by
  have ordered := weighed.ordered
  have shifted : Shifted w w id pre post vals 0 := ⟨fun _ _ => rfl,rfl,fun _ _ => rfl,given⟩
  have none : d.created = [] := stages.made
  refine ⟨w,Weighed.committed stages ordered split block shifted weighed.outweighs (by rw [none]; exact nofun),?_⟩
  rw [none,nil_append,← split]
  refine rankDrops split (by rw [isAlive,block]; rfl) (deadAnchor stages block ordered split) (fun j mem => ?_)
    fun j mem => ?_
  · rcases mem_append.mp mem with early | late
    · exact ⟨aliveBefore stages ordered split block early,by rw [stages.afterBefore ordered split block early]⟩
    · exact aliveBehind stages ordered split block late
  · rcases mem_append.mp mem with early | late
    · rw [stages.afterBefore ordered split block early]
    · obtain ⟨f,operands,-,le⟩ := behindAnchor stages ordered split block shifted late
      rw [load,load,operands,map_map]
      exact sum_le_sum le

def fresh (w : OpId → Nat) (o : Operation) : Nat :=
  if isPack o then weight w (o.operands.headD none) else if isUnpack o then 1 else 0

structure Beside (pre : List OpId) (n : OpId) (o : Operation) : Prop where
  bare : o.region = none
  stays : isPassed o = false
  packs : isPack o = true → ∀ v, o.operands[0]? = some v → Before pre v
  unpacks : isUnpack o = true → ∀ v, o.operands[0]? = some v → ∃ i, v = some (.result n i)

theorem passedKinds {o} (passed : isPassed o = true) : isPack o = false ∧ isUnpack o = false := by
  simp only [isPassed,Bool.or_eq_true,beq_iff_eq] at passed
  rcases passed with kind | kind <;> simp only [isPack,isUnpack,kind] <;> decide

section Passing

variable {before after : List Operation} {o : Operation} (stages : Stages g id pre (before ++ o :: after) target vals d)
  (ordered : g.Ordered order) (split : order = pre ++ id :: post) (block : (g.op id).block = some b)
  (passed' : isPassed o = true) (beside : ∀ p ∈ before ++ after, Beside pre (g.ops.size + before.length) p)

include stages beside

theorem loadsNew (ordered : g.Ordered order) (split : order = pre ++ id :: post) (block : (g.op id).block = some b)
    (passed' : isPassed o = true) : loads (Ready.committed d id b target vals) w' d.created = [load w' o] := by
  have new (k m : Nat) (p : Operation) (same : k = g.ops.size + m) (at_ : (before ++ o :: after)[m]? = some p) :
      (Ready.committed d id b target vals).isAlive k = true ∧
      isPassed ((Ready.committed d id b target vals).op k) = isPassed p ∧
      load w' ((Ready.committed d id b target vals).op k) = load w' p := by
    have mem : k ∈ d.created := by
      rw [stages.made,mem_range'_1,same]
      exact ⟨Nat.le_add_right _ _,Nat.add_lt_add_left (List.getElem?_eq_some_iff.mp at_).1 _⟩
    obtain ⟨m',p',same',at',op⟩ := stages.newAt mem
    obtain rfl : m = m' := Nat.add_left_cancel (same.symm.trans same')
    cases at_.symm.trans at'
    rw [isAlive,stages.afterNew ordered split block mem,op]
    exact ⟨rfl,rfl,rfl⟩
  have idle (start : Nat) (ps : List Operation) (found : ∀ m p, ps[m]? = some p → (before ++ o :: after)[start + m]? = some p)
      (stays : ∀ p ∈ ps, isPassed p = false) :
      loads (Ready.committed d id b target vals) w' (range' (g.ops.size + start) ps.length) = [] := by
    rw [loads,filter_eq_nil_iff.mpr,map_nil]
    intro k mem
    rw [mem_range'_1] at mem
    obtain ⟨m,rfl⟩ := Nat.exists_eq_add_of_le mem.1
    have at_ := getElem?_eq_getElem (Nat.lt_of_add_lt_add_left mem.2)
    have here := new _ (start + m) _ (Nat.add_assoc ..) (found m _ at_)
    rw [here.2.1,stays _ (mem_of_getElem? at_)]
    simp
  have first := idle 0 before (fun m p at_ => by
    rw [Nat.zero_add,getElem?_append_left (List.getElem?_eq_some_iff.mp at_).1,at_])
    fun p mem => (beside p (mem_append_left _ mem)).stays
  have last := idle (before.length + 1) after (fun m p at_ => by
    rw [getElem?_append_right (by omega),show before.length + 1 + m - before.length = m + 1 by omega,
      getElem?_cons_succ,at_])
    fun p mem => (beside p (mem_append_right _ mem)).stays
  obtain ⟨alive,isPassed,loaded⟩ := new _ before.length o rfl (by simp)
  have created : d.created = range' g.ops.size before.length ++
      ([g.ops.size + before.length] ++ range' (g.ops.size + (before.length + 1)) after.length) := by
    rw [stages.made,length_append,length_cons,← range'_append_1,range'_succ]
    rfl
  rw [Nat.add_zero] at first
  rw [created,loadsAppend,loadsAppend,first,last]
  rw [loads,filter_cons,alive,isPassed,passed']
  simp [loaded]

theorem passLess (weighed : Weighed g w order) (split : order = pre ++ id :: post) (block : (g.op id).block = some b)
    (passed : isPassed (g.op id) = true) (passed' : isPassed o = true)
    (lighter : ∀ w', (∀ v, Before pre v → weight w' v = weight w v) →
      (∀ m p, before[m]? = some p → w' (g.ops.size + m) = fresh w p) → load w' o < load w (g.op id)) :
    Drops g w order (Ready.committed d id b target vals) (pre ++ (d.created ++ id :: post)) := by
  have ordered := weighed.ordered
  have within (j : OpId) (mem : j ∈ pre ++ id :: post) : j < g.ops.size := ordered.within j (split ▸ mem)
  have notBehind (j : OpId) (mem : j ∈ pre ∨ j = id) : j ∉ post := by
    rcases mem with mem | rfl
    · have once := ordered.once
      rw [split] at once
      exact fun late => (nodup_append.mp once).2.2 j mem j (.tail _ late) rfl
    · exact ordered.notBehind split
  have newBehind (m : Nat) : g.ops.size + m ∉ post := fun mem =>
    Nat.not_lt_of_le (Nat.le_add_right _ m) (within _ (mem_append_right _ (.tail _ mem)))
  -- Weights before the operations behind the anchor are raised by the sum of what takes its place.
  let base (j : OpId) : Nat := if j < g.ops.size then w j else fresh w ((before ++ o :: after).getD (j - g.ops.size) default)
  let C := (vals.map fun x => weight base (some x)).sum
  let w' (j : OpId) : Nat := if j ∈ post then w j + C else base j
  have old (j : OpId) (mem : j ∈ pre ∨ j = id) : w' j = w j := by
    have lt := within j (by rcases mem with mem | rfl <;> simp [*])
    change (if j ∈ post then w j + C else if j < g.ops.size then w j else _) = _
    rw [if_neg (notBehind j mem),if_pos lt]
  have new (m : Nat) (p : Operation) (at_ : (before ++ o :: after)[m]? = some p) : w' (g.ops.size + m) = fresh w p := by
    change (if g.ops.size + m ∈ post then w _ + C else if g.ops.size + m < g.ops.size then w _ else _) = _
    rw [if_neg (newBehind m),if_neg (Nat.not_lt_of_le (Nat.le_add_right _ m)),Nat.add_sub_cancel_left,
      getD_eq_getElem?_getD,at_]
    rfl
  have shifted : Shifted w w' id pre post vals C := by
    refine ⟨fun j mem => old j (.inl mem),old id (.inr rfl),fun j mem => if_pos mem,fun x mem => ?_⟩
    have same : weight w' (some x) = weight base (some x) := by
      cases x with
      | argument c i => rfl
      | result k i =>
        refine if_neg fun late => ?_
        rcases stages.known _ mem with seen | computed
        · exact notBehind k (.inl (seen k i rfl)) late
        · obtain ⟨_,made,_,-,same⟩ := memComputed computed
          cases same
          obtain ⟨m,-,rfl,-⟩ := stages.newAt made
          exact newBehind m late
    have le : weight base (some x) ≤ C := le_sum_of_mem (mem_map_of_mem mem)
    rw [same]
    exact le.trans (Nat.le_add_left _ _)
  have plain := passedKinds passed'
  refine ⟨w',Weighed.committed stages ordered split block shifted weighed.outweighs fun k made => ?_,?_⟩
  · obtain ⟨m,p,rfl,at_,op⟩ := stages.newAt made
    rw [op,new m p at_]
    intro v read
    have known : p = o ∨ p ∈ before ++ after := by
      have mem := mem_of_getElem? at_
      simp only [mem_append,mem_cons] at mem ⊢
      tauto
    rcases known with rfl | known
    · exact ⟨fun pack => absurd pack (by simp [plain.1]),fun unpack => absurd unpack (by simp [plain.2])⟩
    · refine ⟨fun pack => ?_,fun unpack => ?_⟩
      · rw [shifted.kept v ((beside p known).packs pack v read),fresh,if_pos pack]
        rw [← head?_eq_getElem?] at read
        rw [headD_eq_head?_getD,read]
        rfl
      · obtain ⟨i,rfl⟩ := (beside p known).unpacks unpack v read
        have none : isPack p = false := by
          simp only [isUnpack,beq_iff_eq] at unpack
          rw [isPack,unpack]
          decide
        have weightless : w' (g.ops.size + before.length) = 0 := by
          rw [new before.length o (by simp),fresh,plain.1,plain.2]
          rfl
        rw [weight,weightless,fresh,none,unpack]
        exact Nat.one_pos
  · refine .left _ _ ?_
    have first : loads (Ready.committed d id b target vals) w' pre = loads g w pre := by
      have kept : pre.filter (fun j => (Ready.committed d id b target vals).isAlive j &&
          isPassed ((Ready.committed d id b target vals).op j)) = pre.filter fun j => g.isAlive j && isPassed (g.op j) :=
        filter_congr fun j mem => by
          rw [aliveBefore stages ordered split block mem,stages.afterBefore ordered split block mem]
      rw [loads,loads,kept]
      refine map_congr_left fun j mem => ?_
      have mem := mem_of_mem_filter mem
      rw [stages.afterBefore ordered split block mem,load,load]
      exact congrArg sum (map_congr_left fun v used =>
        shifted.kept v fun k i same => ordered.before split j (.inl mem) k i (same ▸ used))
    have gone : loads (Ready.committed d id b target vals) w' (id :: post) = loads (Ready.committed d id b target vals) w' post := by
      rw [loads,loads,filter_cons,deadAnchor stages block ordered split]
      rfl
    have here : loads g w (id :: post) = load w (g.op id) :: loads g w post := by
      rw [loads,loads,filter_cons,isAlive,block,passed]
      rfl
    rw [split,loadsAppend,loadsAppend,loadsAppend,first,loadsNew stages beside ordered split block passed',gone,here]
    have less := lighter w' shifted.kept fun m p at_ =>
      new m p (by rw [getElem?_append_left (List.getElem?_eq_some_iff.mp at_).1,at_])
    refine Shortlex.append_left (.of_lex ?_ (.rel less)) _
    exact congrArg (· + 1) (loadsCongr fun j mem => aliveBehind stages ordered split block mem)

end Passing

end Commits

section Rules

variable {d : Draft} {b : BlockId} {index : Nat} {u n : OpId}

theorem besideEmpty (t : ValueType) : Beside pre n (Memory.emptyOp t) := ⟨rfl,rfl,nofun,nofun⟩

theorem besidePack {a} (seen : Before pre (some a)) (dest : Operand) (t : ValueType) (l : Layout) (e : Blanks) :
    Beside pre n (convertOp packKind (some a) dest t l e) := by
  refine ⟨rfl,by simp only [isPassed,convertOp]; decide,fun _ v read => ?_,fun unpack => ?_⟩
  · cases read
    exact seen
  · exact absurd (beq_iff_eq.mp unpack) (by simp only [convertOp]; decide)

theorem besideUnpack (i : Nat) (dest : Operand) (t : ValueType) (l : Layout) (e : Blanks) :
    Beside pre n (convertOp unpackKind (some (.result n i)) dest t l e) := by
  refine ⟨rfl,by simp only [isPassed,convertOp]; decide,fun pack => ?_,fun _ v read => ?_⟩
  · exact absurd (beq_iff_eq.mp pack) (by simp only [convertOp]; decide)
  · cases read
    exact ⟨i,rfl⟩

theorem BlockedAs.beside {m ts ops vs} (blocks : BlockedAs g index u m ts ops vs) (seen : ∀ t ∈ ts, Before pre t.value) :
    ∀ p ∈ ops, Beside pre n p := by
  induction blocks with
  | nil => exact nofun
  | source here found rest ih => exact ih (forall_mem_cons.mp seen).2
  | same other identity rest ih => exact ih (forall_mem_cons.mp seen).2
  | packed other moved value packed rest ih =>
    obtain ⟨here,seen⟩ := forall_mem_cons.mp seen
    exact forall_mem_cons.mpr ⟨besideEmpty _,forall_mem_cons.mpr ⟨besidePack (value ▸ here) ..,ih seen⟩⟩

theorem UnpackedAs.beside {types outs m rs ops vs} (unpacked : UnpackedAs g index u n types outs m rs ops vs) :
    ∀ p ∈ ops, Beside pre n p := by
  induction unpacked with
  | nil => exact nofun
  | same at_ identity rest ih => exact ih
  | unpacked at_ moved dest divides shape rest ih => exact forall_mem_cons.mpr ⟨besideUnpack ..,ih⟩

theorem BlockedAs.lighter {m j} {ts : List Tiled} {ops} {vs : List Operand} (blocks : BlockedAs g index u m ts ops vs)
    (old : ∀ t ∈ ts, weight w' t.value = weight w t.value)
    (source : ∀ v, (g.op u).operands[0]? = some v → weight w' v < w u)
    (at_ : ∀ t ∈ ts, t.index = index → t.value = some (.result u j))
    (new : ∀ i p, ops[i]? = some p → w' (m + i) = fresh w p) :
    (vs.map (weight w')).sum ≤ (ts.map fun t => weight w t.value).sum ∧ ((∃ t ∈ ts, t.index = index) →
      (vs.map (weight w')).sum < (ts.map fun t => weight w t.value).sum) := by
  induction blocks with
  | nil => exact ⟨le_rfl,nofun⟩
  | source here found rest ih =>
    obtain ⟨this,at_⟩ := forall_mem_cons.mp at_
    obtain ⟨le,-⟩ := ih (forall_mem_cons.mp old).2 at_ new
    have less := source _ found
    rw [map_cons,map_cons,sum_cons,sum_cons,this here]
    have both := Nat.add_lt_add_of_lt_of_le less le
    exact ⟨both.le,fun _ => both⟩
  | same other identity rest ih =>
    obtain ⟨here,old⟩ := forall_mem_cons.mp old
    obtain ⟨le,less⟩ := ih old (forall_mem_cons.mp at_).2 new
    rw [map_cons,map_cons,sum_cons,sum_cons,here]
    refine ⟨Nat.add_le_add_left le _,fun found => Nat.add_lt_add_left (less ?_) _⟩
    obtain ⟨t,mem,same⟩ := found
    exact ⟨t,(mem_cons.mp mem).resolve_left fun eq => other (eq ▸ same),same⟩
  | @packed m t ts ops vs a q other moved value packed rest ih =>
    obtain ⟨le,less⟩ := ih (forall_mem_cons.mp old).2 (forall_mem_cons.mp at_).2 fun i p at_ => by
      rw [Nat.add_assoc,Nat.add_comm 2 i]
      exact new (i + 2) p at_
    have here : weight w' (some (.result (m + 1) 0)) = weight w t.value := by
      rw [value]
      exact new 1 _ rfl
    rw [map_cons,map_cons,sum_cons,sum_cons,here]
    refine ⟨Nat.add_le_add_left le _,fun found => Nat.add_lt_add_left (less ?_) _⟩
    obtain ⟨t',mem,same⟩ := found
    exact ⟨t',(mem_cons.mp mem).resolve_left fun eq => other (eq ▸ same),same⟩

section Site

variable (weighed : Weighed g w order) (split : order = pre ++ id :: post) (block : (g.op id).block = some b)
  (whole : (d.commit id).fault = none)

include weighed split

theorem sourceLess {j v} (used : some (.result u j) ∈ (g.op id).operands) (isUnpack : isUnpack (g.op u) = true)
    (read : (g.op u).operands[0]? = some v) :
    Before pre v ∧ weight w v < w u := by
  have early := weighed.ordered.before split id (.inr rfl) u j used
  refine ⟨fun k i same => ?_,(weighed.outweighs u (by simp [split,early]) v read).2 isUnpack⟩
  exact weighed.ordered.before split u (.inl early) k i (same ▸ mem_of_getElem? read)

include block whole

theorem foldWithLess {producer rule name}
    (produces : ∀ v j, producer g v = .ok (some j) → ∃ i, v = some (.result j i) ∧
      (isPack (g.op j) = true ∧ isUnpack (g.op id) = true ∨ isUnpack (g.op j) = true ∧ isPack (g.op id) = true))
    (drafted : foldWith ⟨rule,id⟩ producer name (.ofGraph g) = .ok () d) :
    Drops g w order (d.commit id).graph (pre ++ (d.created ++ id :: post)) := by
  have ordered := weighed.ordered
  have sight := ordered.sight split
  obtain ⟨j,v,a,-,found,producing,-,source,-,replace⟩ := foldWithOk drafted
  obtain ⟨i,rfl,kinds⟩ := produces v j producing
  have used := mem_of_getElem? found
  have early := ordered.before split id (.inr rfl) j i used
  have seen : Before pre (some a) := sight.closed j i (sight.operands _ used) _ (mem_of_getElem? source)
  obtain ⟨vals,ready⟩ := (Staged.start g id (Before pre)).replace sight
    (fun u mem => .inl (mem_singleton.mp mem ▸ seen)) replace
  obtain ⟨_,-,-,made⟩ := Draft.replaceOk replace
  obtain rfl : vals = [a] := ready.values (by rw [made]; rfl)
  have stages : Stages g id pre [] none [a] d := ⟨ready,by rw [made]; rfl,by rw [made]; rfl,nofun⟩
  -- The value weighs less than the conversion that reads it, and this one less than the one behind it.
  have le : weight w (some a) ≤ w id := by
    have first := weighed.outweighs j (by simp [split,early]) _ source
    have second := weighed.outweighs id (by simp [split]) _ found
    rcases kinds with ⟨pack,unpack⟩ | ⟨unpack,pack⟩
    · exact (first.1 pack).trans ((second.2 unpack).le)
    · exact ((first.2 unpack).le).trans (second.1 pack)
  rw [stages.graphAfter block whole]
  exact foldLess stages weighed split block fun x mem => mem_singleton.mp mem ▸ le

theorem throughPadLess {rule} (kind : (g.op id).kind = Memory.padKind)
    (drafted : throughPad.draft ⟨rule,id⟩ (.ofGraph g) = .ok () d) :
    Drops g w order (d.commit id).graph (pre ++ (d.created ++ id :: post)) := by
  obtain ⟨u,x,value,low,high,axes,t,pads⟩ := throughPadOk drafted
  obtain ⟨target,vals,ready⟩ := throughPadReady (weighed.ordered.sight split) drafted
  obtain ⟨j,found⟩ := pads.operand
  obtain ⟨seen,less⟩ := sourceLess weighed split (mem_of_getElem? found) pads.isUnpack pads.source
  have stages : Stages g id pre ([] ++ padOp (some x) value t low high :: padUnpack g.ops.size (g.typeOf (.result id 0))
      (layoutOf (g.op u)) (.ofOp (g.op u))) target vals d := by
    refine ⟨ready,by rw [pads.draft]; rfl,by rw [pads.draft]; rfl,fun o mem => ?_⟩
    simp only [padUnpack,nil_append,mem_cons,not_mem_nil,or_false] at mem
    rcases mem with rfl | rfl | rfl <;> rfl
  rw [stages.graphAfter block whole]
  refine passLess stages ?_ weighed split block (by rw [isPassed,kind]; decide) (by simp only [isPassed,padOp]; decide) ?_
  · rw [nil_append]
    exact forall_mem_cons.mpr ⟨besideEmpty _,forall_mem_cons.mpr ⟨besideUnpack ..,nofun⟩⟩
  · intro w' old _
    have second : Before pre value := fun k i same =>
      weighed.ordered.before split id (.inr rfl) k i (same ▸ mem_of_getElem? pads.isValue)
    match operands : (g.op id).operands, found, pads.isValue with
    | [], found, _ => cases found
    | [_], _, isValue => cases isValue
    | _ :: _ :: rest, found, isValue =>
      cases found
      cases isValue
      rw [load,load,operands]
      simp only [padOp,map_cons,map_nil,sum_cons,sum_nil,old _ seen,old _ second]
      change _ < w u + _
      omega

theorem throughElementwiseLess {rule} (kind : (g.op id).kind = genericKind)
    (drafted : throughElementwise.draft ⟨rule,id⟩ (.ofGraph g) = .ok () d) :
    Drops g w order (d.commit id).graph (pre ++ (d.created ++ id :: post)) := by
  have ordered := weighed.ordered
  have sight := ordered.sight split
  obtain ⟨index,u,v,tiled,n,packs,unpacks,blocked,outTypes,_,passes⟩ :=
    throughElementwiseOk sight (ordered.below split) drafted
  obtain ⟨target,vals,ready⟩ := throughElementwiseReady sight drafted
  obtain ⟨j,rfl⟩ := passes.computed
  have seen (t : Tiled) (mem : t ∈ tiled) : Before pre t.value :=
    sight.operands _ (passes.values ▸ mem_map_of_mem mem)
  have beside (p : Operation) (mem : p ∈ packs ++ unpacks) : Beside pre (g.ops.size + packs.length) p :=
    (mem_append.mp mem).elim (passes.blocks.beside seen p) (passes.unpacked.beside p)
  have stages : Stages g id pre (packs ++ blockedGeneric (g.op id) (loopsFor g id u (.result u j)) tiled n blocked outTypes ::
      unpacks) target vals d := by
    refine ⟨ready,by rw [passes.draft]; rfl,by rw [passes.draft]; rfl,fun o mem => ?_⟩
    rcases mem_append.mp mem with pack | rest
    · exact (beside o (mem_append_left _ pack)).bare
    · rcases mem_cons.mp rest with rfl | unpack
      · rfl
      · exact (beside o (mem_append_right _ unpack)).bare
  rw [stages.graphAfter block whole]
  refine passLess stages beside weighed split block (by rw [isPassed,kind]; decide)
    (by simp only [isPassed,blockedGeneric,madeOp]; decide) fun w' old new => ?_
  have operands : (blockedGeneric (g.op id) (loopsFor g id u (.result u j)) tiled n blocked outTypes).operands = blocked := by
    simp [blockedGeneric,madeOp]
  have values : (g.op id).operands.map (weight w) = tiled.map fun t => weight w t.value := by
    rw [← passes.values,map_map]
    rfl
  rw [load,load,operands,values]
  refine (passes.blocks.lighter (j := j) (fun t mem => old _ (seen t mem)) (fun v read => ?_) (fun t mem here => ?_) new).2 ?_
  · obtain ⟨seen,less⟩ := sourceLess weighed split (mem_of_getElem? passes.operand) passes.isUnpack read
    rw [old v seen]
    exact less
  · have same := passes.numbered t mem
    rw [here,passes.operand] at same
    exact (Option.some.inj same).symm
  · have lt := (List.getElem?_eq_some_iff.mp passes.operand).1
    have mem : index ∈ tiled.map Tiled.index := by
      rw [passes.indices,mem_range'_1]
      exact ⟨Nat.zero_le _,by rwa [Nat.zero_add]⟩
    exact mem_map.mp mem

theorem ruleLess {r : Rule} (mem : r ∈ rules) (kind : r.root = (g.op id).kind)
    (drafted : r.draft ⟨r.name,id⟩ (.ofGraph g) = .ok () d) :
    Drops g w order (d.commit id).graph (pre ++ (d.created ++ id :: post)) := by
  simp only [rules,mem_cons,not_mem_nil,or_false] at mem
  rcases mem with rfl | rfl | rfl | rfl
  · refine foldWithLess weighed split block whole (fun v j found => ?_) drafted
    obtain ⟨⟨i,rfl⟩,isUnpack⟩ := unpackOfOk found
    exact ⟨i,rfl,.inr ⟨isUnpack,beq_iff_eq.mpr kind.symm⟩⟩
  · refine foldWithLess weighed split block whole (fun v j found => ?_) drafted
    obtain ⟨⟨i,rfl⟩,isPack⟩ := packOfOk found
    exact ⟨i,rfl,.inl ⟨isPack,beq_iff_eq.mpr kind.symm⟩⟩
  · exact throughPadLess weighed split block whole kind.symm drafted
  · exact throughElementwiseLess weighed split block whole kind.symm drafted

omit split whole in
theorem takeOutLess (mem : id ∈ order) : Drops g w order (DeadCode.takeOut g id) order := by
  have ordered := weighed.ordered
  have taken : DeadCode.takeOut g id = g.erase b id := by rw [DeadCode.takeOut,block]
  have listed := ordered.listed id mem b block
  have frame (j : OpId) : ∃ block, (g.erase b id).op j = { g.op j with block } := g.eraseFrame b id j
  rw [taken]
  refine ⟨w,⟨ordered.erased block mem,fun j mem => ?_⟩,?_⟩
  · obtain ⟨block,op⟩ := frame j
    rw [op]
    exact (weighed.outweighs j mem).congr rfl rfl fun _ _ => rfl
  · obtain ⟨pre,post,split⟩ := append_of_mem mem
    refine rankDrops split (by rw [isAlive,block]; rfl) (by rw [isAlive,g.eraseHere b id listed]; rfl)
      (fun j mem => ?_) fun j mem => ?_
    · have once := ordered.once
      rw [split,nodup_middle] at once
      have other : j ≠ id := fun same => (nodup_cons.mp once).1 (same ▸ mem)
      rw [isAlive,g.eraseOther b id other]
      exact ⟨rfl,rfl⟩
    · obtain ⟨block,op⟩ := frame j
      rw [op]
      exact le_rfl

end Site

end Rules

end TileLower.Propagation
