import TileLower.Proofs.Orders
import TileLower.Proofs.Writes

/-!
Values that are known to hold zeros only do so.
-/
namespace TileLower

open Structured Arith List Outcome Step TileLower.Graph

def Scalar.IsZero {α : Type} [Scalar α] (x : α) : Prop :=
  x = Scalar.zero ∨ ∃ c : Float, (c == 0) = true ∧ x = Scalar.ofFloat c

def NdArray.IsZero {α : Type} [Scalar α] (a : NdArray α) : Prop := ∀ x ∈ a.data, Scalar.IsZero x

namespace ZeroFill

variable {g : Graph} {v : Value} {k user : OpId}

section Analysis

def Reads (g : Graph) (k : OpId) (v : Value) : Prop :=
  some v ∈ (g.op k).operands → readsOnly (g.op k) (some v) = .ok true

def Touches (g : Graph) (k : OpId) (v : Value) : Prop :=
  some v ∈ (g.op k).operands ∧ readsOnly (g.op k) (some v) = .ok false

theorem seeOperandsOk {op vs writer} {w : Writes} (ok : seeOperands op k [v] ⟨writer,false,[]⟩ vs = .ok w) :
    w.isPartial = false ∧ w.overlapping = [] ∧ (w.writer = writer ∧ (some v ∈ vs → readsOnly op (some v) = .ok true) ∨
        w.writer = some k ∧ some v ∈ vs ∧ readsOnly op (some v) = .ok false) := by
  induction vs generalizing writer with
  | nil =>
    cases ok
    exact ⟨rfl,rfl,.inl ⟨rfl,nofun⟩⟩
  | cons u vs ih =>
    obtain ⟨only,read,ok⟩ := bindOk.mp ok
    cases only with
    | true =>
      obtain ⟨whole,none,found⟩ := ih ok
      refine ⟨whole,none,found.imp (fun ⟨same,reads⟩ => ⟨same,fun mem => ?_⟩) fun ⟨here,mem,writes⟩ =>
        ⟨here,.tail _ mem,writes⟩⟩
      rcases mem_cons.mp mem with rfl | later
      · exact read
      · exact reads later
    | false =>
      simp only [Bool.false_eq_true,if_false] at ok
      by_cases same : u = some v
      · subst same
        have ok : seeOperands op k [v] ⟨some k,false,[]⟩ vs = .ok w := by simpa [among] using ok
        obtain ⟨whole,none,found⟩ := ih ok
        exact ⟨whole,none,.inr ⟨found.elim And.left And.left,.head _,read⟩⟩
      · have ok : seeOperands op k [v] ⟨writer,false,[]⟩ vs = .ok w := by
          cases u with
          | none => simpa [among] using ok
          | some u =>
            have other : u ≠ v := fun eq => same (congrArg some eq)
            simpa [among,other] using ok
        obtain ⟨whole,none,found⟩ := ih ok
        refine ⟨whole,none,found.imp (fun ⟨same',reads⟩ => ⟨same',fun mem => ?_⟩) fun ⟨here,mem,writes⟩ =>
          ⟨here,.tail _ mem,writes⟩⟩
        exact reads ((mem_cons.mp mem).resolve_left fun eq => same eq.symm)

theorem seeAllOk {ids writer} {w : Writes} (views : ∀ j ∈ ids, (g.op j).kind ≠ Memory.subviewKind)
    (ok : seeAll g [v] ⟨writer,false,[]⟩ ids = .ok w) : w.isPartial = false ∧
      (w.writer = writer ∧ (∀ j ∈ ids, Reads g j v) ∨ ∃ before j after, ids = before ++ j :: after ∧ w.writer = some j ∧
        Touches g j v ∧ ∀ i ∈ after, Reads g i v) := by
  induction ids generalizing writer with
  | nil =>
    cases ok
    exact ⟨rfl,.inl ⟨rfl,nofun⟩⟩
  | cons j ids ih =>
    obtain ⟨view,views⟩ := forall_mem_cons.mp views
    obtain ⟨⟨writer',partial_,overlapping⟩,seen,ok⟩ := bindOk.mp ok
    rw [seeOp,if_neg view] at seen
    obtain ⟨rfl,rfl,found⟩ := seeOperandsOk seen
    obtain ⟨whole,later⟩ := ih views ok
    refine ⟨whole,?_⟩
    rcases later with ⟨same,reads⟩ | ⟨before,i,after,split,here,touches,reads⟩
    · rcases found with ⟨kept,only⟩ | ⟨here,mem,writes⟩
      · exact .inl ⟨same.trans kept,forall_mem_cons.mpr ⟨only,reads⟩⟩
      · exact .inr ⟨[],j,ids,rfl,same.trans here,⟨mem,writes⟩,reads⟩
    · exact .inr ⟨j :: before,i,after,by rw [split]; rfl,here,touches,reads⟩

theorem walkAllFlat (g : Graph) : ∃ f : OpId → List OpId, g.walkAll = (g.block body).ops.flatMap f ∧
    ∀ id, ∃ nested, f id = id :: nested :=
  ⟨_,rfl,fun _ => ⟨_,rfl⟩⟩

structure Scanned (g : Graph) (user : OpId) (pre scanned : List OpId) : Prop where
  found : g.walkAll.takeWhile (· ≠ user) = scanned
  sub : ∀ j ∈ scanned, j ∈ g.walkAll
  once : scanned.Nodup
  body : ∀ j ∈ scanned, j ∈ (g.block body).ops → j ∈ pre
  order : ∀ left j right, pre = left ++ j :: right →
    ∃ before after, scanned = before ++ j :: after ∧ ∀ i ∈ right, i ∈ after

theorem scannedBefore {pre post} (once : g.walkAll.Nodup) (split : (g.block body).ops = pre ++ user :: post) :
    ∃ scanned, Scanned g user pre scanned := by
  obtain ⟨f,walk,starts⟩ := walkAllFlat g
  have own {ids : List OpId} {j : OpId} (mem : j ∈ ids) : j ∈ ids.flatMap f := by
    obtain ⟨nested,same⟩ := starts j
    exact mem_flatMap.mpr ⟨j,mem,by rw [same]; exact .head _⟩
  obtain ⟨nested,here⟩ := starts user
  have walk' : g.walkAll = pre.flatMap f ++ (user :: post).flatMap f := by rw [walk,split,flatMap_append]
  rw [walk'] at once
  obtain ⟨onceBefore,-,apart⟩ := nodup_append.mp once
  refine ⟨pre.flatMap f,?_,fun j mem => ?_,onceBefore,fun j mem inBody => ?_,fun left j right split => ?_⟩
  · rw [walk',takeWhile_append_of_pos,flatMap_cons,here]
    · simp
    · intro j mem
      exact decide_eq_true fun same => apart j mem user (own (.head _)) same
  · rw [walk']
    exact mem_append_left _ mem
  · rw [split] at inBody
    refine (mem_append.mp inBody).resolve_right fun later => ?_
    exact apart j mem j (own later) rfl
  · obtain ⟨nested,same⟩ := starts j
    refine ⟨left.flatMap f,nested ++ right.flatMap f,?_,fun i mem => mem_append_right _ (own mem)⟩
    rw [split,flatMap_append,flatMap_cons,same]
    rfl

inductive Origin (g : Graph) (v : Value) (scanned : List OpId) (k : OpId) : Prop where
  | computed {i : Nat} (name : v = .result k i) (reads : (g.typeOf v).isBuffer = true → ∀ j ∈ scanned, Reads g j v)
  | written {before after : List OpId} (buffer : (g.typeOf v).isBuffer = true) (split : scanned = before ++ k :: after)
      (touches : Touches g k v) (reads : ∀ j ∈ after, Reads g j v)

theorem originOk {pre scanned} (place : (g.op user).block = some body) (scan : Scanned g user pre scanned)
    (views : ∀ j ∈ g.walkAll, (g.op j).kind ≠ Memory.subviewKind)
    (own : ∀ j i, v = .result j i → (g.op j).kind ≠ Memory.subviewKind)
    (found : origin g (some v) (some user) = .ok (some k)) : Origin g v scanned k := by
  unfold origin at found
  dsimp only at found
  split at found
  · rename_i buffer
    obtain ⟨⟨writer,isPartial⟩,last,found⟩ := bindOk.mp found
    have inside : g.inFunction user = true := by simp [inFunction,climbs,place]
    have cover : covering g (g.ops.size + 1) v = .ok [v] := by
      have alone : viewSource? g v = .ok none := by
        unfold viewSource?
        split
        · rfl
        · rw [if_neg (own _ _ rfl)]
      rw [covering,alone]
      rfl
    simp only [lastWriter,inside,if_true,cover,scan.found] at last
    obtain ⟨_,same,last⟩ := bindOk.mp last
    cases same
    obtain ⟨w,seen,last⟩ := bindOk.mp last
    cases last
    obtain ⟨whole,known⟩ := seeAllOk (fun j mem => views j (scan.sub j mem)) seen
    rw [whole] at found
    rcases known with ⟨none,reads⟩ | ⟨before,j,after,split,here,touches,reads⟩
    · rw [none] at found
      obtain ⟨i,name⟩ := Propagation.definingOpOk found
      exact .computed (Option.some.inj name) fun _ => reads
    · rw [here] at found
      cases found
      exact .written buffer split touches reads
  · rename_i other
    obtain ⟨i,name⟩ := Propagation.definingOpOk found
    exact .computed (Option.some.inj name) fun buffer => absurd buffer other

end Analysis

open Eval

theorem structuredKinds {op : Operation} (isStructured : isStructured op = true) :
    op.kind ≠ Relayout.packKind ∧ op.kind ≠ Relayout.unpackKind ∧ op.kind ≠ Memory.copyKind ∧
      Primitive.isPrimitive op = false := by
  have mem : op.kind ∈ kinds := contains_iff_mem.mp isStructured
  simp only [kinds,mem_cons,not_mem_nil,or_false] at mem
  rcases mem with kind | kind | kind | kind | kind | kind | kind <;>
  · rw [Primitive.isPrimitive,Operation.dialect,kind]
    decide

theorem Reads.keeps (few : (g.op k).operands.length < wordBound) (reads : Reads g k v) : ¬ WritesTo g k v := by
  rintro ⟨j,at_,place⟩
  have only := reads (mem_of_getElem? at_)
  unfold readsOnly at only
  split at only
  · rename_i isStructured
    obtain ⟨notPack,notUnpack,notCopy,notPrimitive⟩ := structuredKinds isStructured
    obtain ⟨outs,isOuts,same⟩ := bindOk.mp only
    have absent : some v ∉ outs := by simpa using Except.ok.inj same
    obtain ⟨n,count,drop⟩ := bindOk.mp isOuts
    cases drop
    obtain ⟨⟨i,⟨-,output,-⟩ | ⟨pack | unpack,-⟩ | ⟨primitive,-⟩⟩,-⟩ | ⟨copy,-⟩ := place
    · obtain ⟨nonneg,-,rfl⟩ := countWithinOk count
      obtain ⟨word,small⟩ := Word.ofNonneg nonneg
      have small' := Nat.lt_trans (List.getElem?_eq_some_iff.mp at_).1 few
      rw [word,Word.ofNatLtIff small' small] at output
      refine absent (mem_of_getElem? (i := j - (numInputs (g.op k)).toNatClampNeg) ?_)
      rw [getElem?_drop,Nat.add_sub_cancel' (Nat.le_of_not_lt output),at_]
    · exact notPack pack
    · exact notUnpack unpack
    · rw [notPrimitive] at primitive
      cases primitive
    · exact notCopy copy
  · rename_i notStructured
    have known : (g.op k).kind = Memory.copyKind ∧ (g.op k).operands[1]? ≠ some (some v) ∨
        (g.op k).kind ∈ [Memory.subviewKind, Memory.castKind, Memory.extractSliceKind] := by
      split at only
      · rename_i copy
        obtain ⟨u,found,same⟩ := bindOk.mp only
        refine .inl ⟨copy,fun here => ?_⟩
        cases (ofOptionOk.mp found).symm.trans here
        simp at same
      · exact .inr (by simpa [or_assoc] using Except.ok.inj only)
    have kinds : (g.op k).kind ∈ [Memory.copyKind, Memory.subviewKind, Memory.castKind, Memory.extractSliceKind] := by
      rcases known with ⟨copy,-⟩ | mem
      · exact mem_cons.mpr (.inl copy)
      · exact .tail _ mem
    have never (i : Nat) : ¬ Copied (g.op k) j i := by
      simp only [mem_cons,not_mem_nil,or_false] at kinds
      rw [Copied,Primitive.isPrimitive,Operation.dialect,isStructured]
      rcases kinds with kind | kind | kind | kind <;> rw [kind] <;>
        exact fun copied => copied.elim (fun h => absurd h.1 (by decide))
          fun h => h.elim (fun h => absurd h.1 (by decide)) fun h => absurd h.1 (by decide)
    rcases place with ⟨⟨i,copied⟩,-⟩ | ⟨copy,rfl⟩
    · exact never i copied
    · rcases known with ⟨-,other⟩ | mem
      · exact other at_
      · rw [copy] at mem
        exact absurd mem (by decide)

section Steps

variable {α : Type} [Scalar α] {s t : Machine α}

structure Ready (k : OpId) (s : Machine α) : Prop extends Distinct s where
  unbound : ∀ i, s.env (.result k i) = none

def Made (g : Graph) (k : OpId) (v : Value) : Prop :=
  (∃ i, v = .result k i) ∨ Touches g k v ∧ (g.typeOf v).isBuffer = true

def Clear (s : Machine α) (v : Value) : Prop := ∀ r, s.env v = some r → (s.arrayAt r).IsZero

theorem bindFreshClear (ready : Ready k s) (w : Value) {a : NdArray α} (zero : a.IsZero) (i : Nat) :
    Clear (s.bindFresh w a) (.result k i) := by
  intro r found
  rw [s.bindFreshEnv,ready.unbound] at found
  split at found
  · cases found
    rw [s.arrayAtNew]
    exact zero
  · cases found

theorem filledIsZero {ty x} {a : NdArray α} (zero : Scalar.IsZero x) (ok : NdArray.filled ty x = .ok a) :
    a.IsZero := by
  obtain ⟨-,rfl⟩ := filledOk.mp ok
  intro y mem
  rw [(Array.mem_replicate.mp mem).2]
  exact zero

theorem constantClear (kind : (g.op k).kind = constantKind) (none : (g.op k).operands = []) {x}
    (known : constantValue? (g.op k) = some x) (zero : (x == 0) = true) (ready : Ready k s)
    (ok : evalOp g k s = .ok () t) (made : Made g k v) : Clear t v := by
  have run : (evalOp g k : Exec α Unit) = evalConstant g k := by
    simp only [evalOp,kind]
    rfl
  rw [run,evalConstant,known] at ok
  obtain ⟨w,-,ok⟩ := read liftOk ok
  obtain ⟨a,filled,ok⟩ := read liftOk ok
  cases ok
  rcases made with ⟨i,rfl⟩ | ⟨touches,-⟩
  · exact bindFreshClear ready w (filledIsZero (.inr ⟨x,zero,rfl⟩) filled) i
  · have mem := touches.1
    rw [none] at mem
    cases mem

theorem onlyReads (kind : (g.op k).kind = Memory.castKind ∨ (g.op k).kind = Memory.extractSliceKind) (v : Value) :
    ¬ Touches g k v := by
  rintro ⟨-,writes⟩
  unfold readsOnly at writes
  rw [if_neg,if_neg] at writes
  · rcases kind with kind | kind <;> simp [kind] at writes
  · rcases kind with kind | kind <;> rw [kind] <;> decide
  · rw [isStructured]
    rcases kind with kind | kind <;> rw [kind] <;> decide

omit [Scalar α] in
theorem getMem {a : NdArray α} {idx x} (ok : a.get idx = .ok x) : x ∈ a.data := by
  obtain ⟨off,-,ok⟩ := bindOk.mp ok
  split at ok
  · exact absurd ok abortOk
  · exact Array.mem_of_getElem? (ofOptionOk.mp ok)

theorem setIsZero {a : NdArray α} (zero : a.IsZero) {x} (isZero : Scalar.IsZero x) (i : Nat) :
    ({ a with data := a.data.setIfInBounds i x } : NdArray α).IsZero := by
  intro y mem
  obtain ⟨j,lt,rfl⟩ := Array.mem_iff_getElem.mp mem
  simp only [Array.getElem_setIfInBounds (by simpa using lt)]
  split
  · exact isZero
  · exact zero _ (Array.getElem_mem _)

def IsUnary (op : Operation) : Prop := op.operands.length = 2 ∧ numInputs op = 1

instance (op : Operation) : Decidable (IsUnary op) := inferInstanceAs (Decidable (_ ∧ _))

theorem IsUnary.operands {op : Operation} (unary : IsUnary op) : ∃ u w, op.operands = [u, w] ∧
    inputs op = .ok [u] ∧ outputs op = .ok [w] := by
  obtain ⟨two,one⟩ := unary
  obtain ⟨u,w,pair⟩ := length_eq_two.mp two
  refine ⟨u,w,pair,?_,?_⟩
  · have room : (0 : Int64) ≤ 1 ∧ 1 ≤ Int64.ofNat (Storage.places 2) := by decide
    rw [inputs,countWithin,one,pair]
    exact congrArg (· >>= _) (if_pos room)
  · have room : (0 : Int64) ≤ 1 ∧ 1 ≤ Int64.ofNat 2 := by decide
    rw [outputs,inputCount,countWithin,one,pair]
    exact congrArg (· >>= _) (if_pos room)

theorem overwrittenClear {c : Ref × Ref} {u : Machine α} {data} (isStructured : isStructured (g.op k) = true)
    (unary : IsUnary (g.op k)) (ready : Ready k s) (ran : inputAndOutput g k s = .ok c u)
    (zero : ∀ x ∈ data, Scalar.IsZero x) (made : Made g k v) :
    Clear (u.withArray c.2 { u.arrayAt c.2 with data }) v := by
  obtain ⟨_,outs,_,w,p,-,-,-,outputs,first,found,written⟩ := inputAndOutputOk ready.valid ran
  intro r bound
  rw [u.withArrayEnv] at bound
  have same : r = c.2 := by
    rcases made with ⟨i,rfl⟩ | ⟨⟨-,writes⟩,buffer⟩
    · rcases written.env _ _ bound with old | ⟨-,new⟩
      · rw [ready.unbound] at old
        cases old
      · exact new
    · obtain ⟨_,w',-,-,alone⟩ := unary.operands
      cases alone.symm.trans outputs
      cases first
      rw [readsOnly,if_pos isStructured,alone] at writes
      have same : v = w := by simpa using Except.ok.inj writes
      subst same
      obtain ⟨place,rfl⟩ := written.place (by cases kind : g.typeOf v; simp_all [ValueType.isBuffer,ValueType.isTensor])
      exact (Option.some.inj (bound.symm.trans found)).trans place.symm
  subst same
  rw [u.withArrayHere _ written.within]
  exact zero

section Moves

variable {u : Value} (source : (g.op k).operands[0]? = some (some u)) (clear : Clear s u) (ready : Ready k s)

include source clear ready

theorem inputClear (unary : IsUnary (g.op k)) {c : Ref × Ref} {s' : Machine α}
    (ran : inputAndOutput g k s = .ok c s') : (s'.arrayAt c.1).IsZero := by
  obtain ⟨_,_,u',_,_,inputs,first,found,-,-,-,written⟩ := inputAndOutputOk ready.valid ran
  obtain ⟨_,_,pair,alone,-⟩ := unary.operands
  cases alone.symm.trans inputs
  rw [pair] at source
  cases source
  cases first
  rw [written.others _ (ready.valid _ _ found)]
  exact clear _ found

variable (ok : evalOp g k s = .ok () t) (made : Made g k v)

include ok made

theorem castClear (kind : (g.op k).kind = Memory.castKind) : Clear t v := by
  have run : (evalOp g k : Exec α Unit) = evalCast g k := by
    simp only [evalOp,kind]
    rfl
  rw [run,evalCast,bindOfOk (operandRun source s)] at ok
  obtain ⟨q,found,ok⟩ := pass valueSomeOk ok
  obtain ⟨w,-,ok⟩ := read liftOk ok
  cases ok
  obtain ⟨i,rfl⟩ := made.resolve_right fun touched => onlyReads (.inl kind) v touched.1
  exact bindFreshClear ready w (a := (s.arrayAt q).withType (g.typeOf w)) (clear q found) i

theorem sliceClear (kind : (g.op k).kind = Memory.extractSliceKind) : Clear t v := by
  have run : (evalOp g k : Exec α Unit) = evalSlice g k := by
    simp only [evalOp,kind]
    rfl
  rw [run,evalSlice,bindOfOk (operandRun source s)] at ok
  obtain ⟨q,found,ok⟩ := pass valueSomeOk ok
  obtain ⟨a,_,fresh,ok⟩ := bindOk.mp ok
  obtain ⟨_,-,fresh⟩ := read liftOk fresh
  obtain ⟨filled,rfl⟩ := liftOk.mp fresh
  obtain ⟨_,_,pushed,ok⟩ := bindOk.mp ok
  cases pushed
  obtain ⟨_,u',walk,ok⟩ := bindOk.mp ok
  obtain ⟨w,-,ok⟩ := read liftOk ok
  cases ok
  obtain ⟨i,rfl⟩ := made.resolve_right fun touched => onlyReads (.inr kind) v touched.1
  -- Elements of the source are written over zeros.
  have within := ready.valid u q found
  have start (p : Ref) : ({ s with memory := s.memory.push a } : Machine α).arrayAt p =
      if p = s.memory.size then a else s.arrayAt p := s.arrayAtFresh default a p
  have kept : u'.env = s.env ∧ s.memory.size < u'.memory.size ∧ u'.arrayAt q = s.arrayAt q ∧
      (u'.arrayAt s.memory.size).IsZero := by
    refine eachKeeps (s := { s with memory := s.memory.push a })
      (P := fun m => m.env = s.env ∧ s.memory.size < m.memory.size ∧ m.arrayAt q = s.arrayAt q ∧
        (m.arrayAt s.memory.size).IsZero)
      (fun idx s1 s2 held ran => ?_) ⟨rfl,?_,?_,?_⟩ walk
    · obtain ⟨env,room,old,zero⟩ := held
      obtain ⟨at_,-,ran⟩ := read liftOk ran
      obtain ⟨x,_,loaded,ran⟩ := bindOk.mp ran
      have loaded : (lift ((s1.arrayAt q).get at_) : Exec α α) s1 = .ok x _ := loaded
      obtain ⟨got,rfl⟩ := liftOk.mp loaded
      obtain ⟨n,-,rfl⟩ := storeOk.mp ran
      refine ⟨env,by simpa using room,?_,?_⟩
      · rw [s1.withArrayOther _ room (within.ne),old]
      · rw [s1.withArrayHere _ room]
        exact setIsZero zero (clear q found x (old ▸ getMem got)) n
    · change s.memory.size < (s.memory.push a).size
      rw [Array.size_push]
      exact Nat.lt_succ_self _
    · rw [start,if_neg (within.ne)]
    · rw [start,if_pos rfl]
      exact filledIsZero (.inl rfl) filled
  obtain ⟨env,-,-,zero⟩ := kept
  intro r found
  change (if .result k i = w then some s.memory.size else u'.env (.result k i)) = some r at found
  rw [env,ready.unbound] at found
  split at found
  · cases found
    exact zero
  · cases found

theorem bufferCopyClear (kind : (g.op k).kind = Memory.copyKind) : Clear t v := by
  have run : (evalOp g k : Exec α Unit) = evalBufferCopy g k := by
    simp only [evalOp,kind]
    rfl
  rw [run,evalBufferCopy,bindOfOk (operandRun source s)] at ok
  obtain ⟨q,found,ok⟩ := pass valueSomeOk ok
  obtain ⟨_,dest,ok⟩ := read liftOk ok
  obtain ⟨p,_,ran,ok⟩ := bindOk.mp ok
  obtain ⟨⟨w,rfl,foundDest⟩,rfl⟩ := valueOk.mp ran
  obtain ⟨-,rfl⟩ := copyDataOk.mp ok
  intro r bound
  rw [s.withArrayEnv] at bound
  have same : r = p := by
    rcases made with ⟨i,rfl⟩ | ⟨⟨-,writes⟩,-⟩
    · rw [ready.unbound] at bound
      cases bound
    · have notStructured : isStructured (g.op k) ≠ true := by
        rw [isStructured,kind]
        decide
      rw [readsOnly,if_neg notStructured,if_pos kind] at writes
      obtain ⟨_,again,same⟩ := bindOk.mp writes
      cases again.symm.trans dest
      have same : w = v := by simpa using Except.ok.inj same
      subst same
      exact Option.some.inj (bound.symm.trans foundDest)
  subst same
  rw [s.withArrayHere _ (ready.valid w r foundDest)]
  exact clear q found

theorem copyClear (kind : (g.op k).kind = copyKind) (unary : IsUnary (g.op k)) : Clear t v := by
  have run : (evalOp g k : Exec α Unit) = evalCopy g k := by
    simp only [evalOp,kind]
    rfl
  rw [run,evalCopy] at ok
  obtain ⟨c,s',ran,ok⟩ := Step.bindOk.mp ok
  obtain ⟨-,rfl⟩ := copyDataOk.mp ok
  refine overwrittenClear (by rw [Structured.isStructured,kind]; decide) unary ready ran
    (inputClear source clear ready unary ran) made

theorem fillClear (kind : (g.op k).kind = fillKind) (unary : IsUnary (g.op k)) : Clear t v := by
  have run : (evalOp g k : Exec α Unit) = evalFill g k := by
    simp only [evalOp,kind]
    rfl
  rw [run,evalFill] at ok
  obtain ⟨c,s',ran,ok⟩ := bindOk.mp ok
  obtain ⟨x,_,first,ok⟩ := bindOk.mp ok
  have first : (lift (ofOption (s'.arrayAt c.1).data[0]?) : Exec α α) s' = .ok x _ := first
  obtain ⟨read,rfl⟩ := liftOk.mp first
  have ok : overwrite c.2 ((s'.arrayAt c.2).fill x).data s' = .ok () t := ok
  rw [overwriteRun] at ok
  cases ok
  refine overwrittenClear (by rw [isStructured,kind]; decide) unary ready ran (fun y mem => ?_) made
  obtain ⟨_,-,rfl⟩ := Array.mem_map.mp mem
  exact inputClear source clear ready unary ran x (Array.mem_of_getElem? (ofOptionOk.mp read))

end Moves

end Steps

/-- Functions in which every operation stands in one place, nothing is a view, and what an operation writes in its
place is a buffer. Constants have no operands; fills and copies stand in the body and have one input and one output; what
a fill writes is no buffer. -/
structure Plain (g : Graph) : Prop where
  once : g.walkAll.Nodup
  views : ∀ j ∈ g.walkAll, (g.op j).kind ≠ Memory.subviewKind
  few : ∀ j ∈ (g.block Graph.body).ops, (g.op j).operands.length < wordBound
  constants : ∀ j ∈ g.walkAll, (g.op j).kind = constantKind → (g.op j).operands = []
  unary : ∀ j ∈ g.walkAll, (g.op j).kind = fillKind ∨ (g.op j).kind = copyKind → IsUnary (g.op j)
  values : ∀ j ∈ g.walkAll, (g.op j).kind = fillKind →
    ∀ u ∈ (g.op j).operands[0]?, ∀ v ∈ u, (g.typeOf v).isBuffer = false
  outputs : ∀ j ∈ (g.block Graph.body).ops, ∀ u ∈ (g.op j).operands, ∀ v ∈ u, WritesTo g j v → (g.typeOf v).isBuffer = true
  top : ∀ j ∈ g.walkAll, (g.op j).kind = fillKind ∨ (g.op j).kind = copyKind ∨
    (g.op j).kind = Memory.copyKind → j ∈ (g.block Graph.body).ops

instance (g : Graph) : Decidable (Plain g) := decidable_of_iff
  (g.walkAll.Nodup ∧ (∀ j ∈ (g.block Graph.body).ops, (g.op j).operands.length < wordBound ∧
      ∀ u ∈ (g.op j).operands, ∀ v ∈ u, WritesTo g j v → (g.typeOf v).isBuffer = true) ∧
    ∀ j ∈ g.walkAll, (g.op j).kind ≠ Memory.subviewKind ∧ ((g.op j).kind = constantKind → (g.op j).operands = []) ∧
      ((g.op j).kind = fillKind ∨ (g.op j).kind = copyKind → IsUnary (g.op j)) ∧
      ((g.op j).kind = fillKind → ∀ u ∈ (g.op j).operands[0]?, ∀ v ∈ u, (g.typeOf v).isBuffer = false) ∧
      ((g.op j).kind = fillKind ∨ (g.op j).kind = copyKind ∨ (g.op j).kind = Memory.copyKind →
        j ∈ (g.block Graph.body).ops))
  ⟨fun ⟨once,body,walked⟩ => ⟨once,fun j mem => (walked j mem).1,fun j mem => (body j mem).1,
      fun j mem => (walked j mem).2.1,fun j mem => (walked j mem).2.2.1,fun j mem => (walked j mem).2.2.2.1,
      fun j mem => (body j mem).2,fun j mem => (walked j mem).2.2.2.2⟩,
    fun plain => ⟨plain.once,fun j mem => ⟨plain.few j mem,plain.outputs j mem⟩,fun j mem => ⟨plain.views j mem,
      plain.constants j mem,plain.unary j mem,plain.values j mem,plain.top j mem⟩⟩⟩

theorem traceZero (ok : trace g k = .ok .zero) :
    ((g.op k).kind = constantKind ∧ ∃ x, constantValue? (g.op k) = some x ∧ (x == 0) = true) ∨
      (g.op k).kind = fillKind ∧ ∃ u, inputs (g.op k) = .ok [u] ∧
      isZeroConstant g u = .ok true := by
  unfold trace at ok
  dsimp only at ok
  split at ok
  · rename_i kind
    refine .inl ⟨kind,?_⟩
    split at ok
    · rename_i x known
      refine ⟨x,known,?_⟩
      by_contra other
      rw [if_neg other] at ok
      cases ok
    · cases ok
  · split at ok
    · rename_i kind
      refine .inr ⟨kind,?_⟩
      obtain ⟨ins,inputs,ok⟩ := bindOk.mp ok
      split at ok
      · rename_i u
        obtain ⟨isZero,zero,ok⟩ := bindOk.mp ok
        cases isZero with
        | true => exact ⟨u,inputs,zero⟩
        | false => cases ok
      · cases ok
    · split at ok
      · obtain ⟨ins,inputs,ok⟩ := bindOk.mp ok
        split at ok
        · obtain ⟨_,-,ok⟩ := bindOk.mp ok
          cases ok
        · cases ok
      · split at ok
        · obtain ⟨_,-,ok⟩ := bindOk.mp ok
          obtain ⟨_,-,ok⟩ := bindOk.mp ok
          cases ok
        · cases ok

theorem traceFrom {source} (ok : trace g k = .ok (.from source)) : ∃ u, origin g u (some k) = .ok source ∧
    ((g.op k).kind = copyKind ∧ Structured.inputs (g.op k) = .ok [u] ∨
      ((g.op k).kind = Memory.copyKind ∨ (g.op k).kind = Memory.subviewKind ∨ (g.op k).kind = Memory.castKind ∨
        (g.op k).kind = Memory.extractSliceKind) ∧ (g.op k).operands[0]? = some u) := by
  unfold trace at ok
  dsimp only at ok
  split at ok
  · split at ok
    · split at ok <;> cases ok
    · cases ok
  · split at ok
    · obtain ⟨ins,inputs,ok⟩ := Outcome.bindOk.mp ok
      split at ok
      · obtain ⟨isZero,zero,ok⟩ := Outcome.bindOk.mp ok
        cases isZero <;> cases ok
      · cases ok
    · split at ok
      · rename_i kind
        obtain ⟨ins,inputs,ok⟩ := Outcome.bindOk.mp ok
        split at ok
        · rename_i u
          obtain ⟨_,found,ok⟩ := Outcome.bindOk.mp ok
          cases ok
          exact ⟨u,found,.inl ⟨kind,inputs⟩⟩
        · cases ok
      · split at ok
        · rename_i kind
          obtain ⟨u,first,ok⟩ := Outcome.bindOk.mp ok
          obtain ⟨_,found,ok⟩ := Outcome.bindOk.mp ok
          cases ok
          exact ⟨u,found,.inr ⟨kind,Outcome.ofOptionOk.mp first⟩⟩
        · cases ok

theorem isZeroConstantOk {u} (ok : isZeroConstant g u = .ok true) : ∃ c i x, u = some (.result c i) ∧
    (g.op c).kind = constantKind ∧ constantValue? (g.op c) = some x ∧ (x == 0) = true := by
  obtain ⟨c,defined,known⟩ := bindOk.mp ok
  cases u with
  | none => exact absurd defined abortOk
  | some u => cases c with
    | none => cases known
    | some c =>
      obtain ⟨i,⟨⟩⟩ := Propagation.definingOpOk defined
      dsimp only at known
      split at known
      · rename_i x value
        have isConstant : (g.op c).kind = constantKind := by
          unfold constantValue? at value
          split at value
          · assumption
          · cases value
        exact ⟨c,i,x,rfl,isConstant,value,Except.ok.inj known⟩
      · cases known

theorem followOk {fuel visited source} (ok : follow g (fuel + 1) visited source = .ok true) :
    ∃ k, source = some k ∧ (trace g k = .ok .zero ∨
      ∃ next, trace g k = .ok (.from next) ∧ follow g fuel (k :: visited) next = .ok true) := by
  cases source with
  | none => cases ok
  | some k =>
    rw [follow] at ok
    split at ok
    · cases ok
    · obtain ⟨tr,traced,ok⟩ := bindOk.mp ok
      cases tr with
      | zero => exact ⟨k,rfl,.inl traced⟩
      | «from» next => exact ⟨k,rfl,.inr ⟨next,traced,ok⟩⟩
      | other => cases ok

section Runs

variable {α : Type} [Scalar α] {memory : Array (NdArray α)} {args : List Ref} {s t : Machine α} {pre post : List OpId}

def Passed (g : Graph) (memory : Array (NdArray α)) (args : List Ref) (pre : List OpId) (s : Machine α) : Prop :=
  ∃ first, Started g memory args first ∧ evalEach g pre first = .ok () s

theorem Passed.at {left right} (passed : Passed g memory args (left ++ k :: right) s) :
    ∃ u t, Passed g memory args left u ∧ evalOp g k u = .ok () t ∧ evalEach g right t = .ok () s := by
  obtain ⟨first,started,ran⟩ := passed
  obtain ⟨u,early,rest⟩ := evalEachAppend.mp ran
  obtain ⟨_,t,here,late⟩ := bindOk.mp rest
  exact ⟨u,t,⟨first,started,early⟩,here,late⟩

theorem Passed.distinct (passed : Passed g memory args pre s) (few : ∀ j ∈ pre, (g.op j).operands.length < wordBound)
    (once : args.Nodup) : Distinct s := by
  obtain ⟨first,started,ran⟩ := passed
  exact (evalEachLeaves few (started.distinct once) ran).1

theorem Passed.unbound (passed : Passed g memory args pre s) (few : ∀ j ∈ pre, (g.op j).operands.length < wordBound)
    (once : args.Nodup) (later : k ∉ pre) (i : Nat) : s.env (.result k i) = none := by
  obtain ⟨first,started,ran⟩ := passed
  rw [(evalEachLeaves few (started.distinct once) ran).2.1 _ fun j mem _ same => later (by cases same; exact mem)]
  exact started.resultsUnbound k i

variable (verified : g.verify = .ok ()) (plain : Plain g) (once : args.Nodup)
  (split : (g.block body).ops = pre ++ user :: post) (passed : Passed g memory args pre s)

include plain once split passed

theorem boundBefore {i r} (found : s.env (.result k i) = some r) : k ∈ pre := by
  by_contra later
  have few : ∀ j ∈ pre, (g.op j).operands.length < wordBound := fun j mem =>
    plain.few j (by rw [split]; exact mem_append_left _ mem)
  rw [passed.unbound few once later] at found
  cases found

include verified in
theorem carriedClear {scanned} (scan : Scanned g user pre scanned) (origin : Origin g v scanned k)
    (home : k ∈ g.walkAll → Touches g k v → k ∈ (g.block body).ops)
    (makes : ∀ left right u t, (g.block body).ops = left ++ k :: right → Passed g memory args left u →
      evalOp g k u = .ok () t → Made g k v → Clear t v) : Clear s v := by
  intro r found
  have bodyOnce : (g.block body).ops.Nodup := (formedOfVerify verified plain.once).1
  have before : k ∈ pre := by
    cases origin with
    | computed name reads =>
      subst name
      exact boundBefore plain once split passed found
    | written buffer parts touches reads =>
      have mem : k ∈ scanned := by rw [parts]; simp
      exact scan.body k mem (home (scan.sub k mem) touches)
  obtain ⟨left,right,rfl⟩ := append_of_mem before
  obtain ⟨u,t,early,ran,late⟩ := passed.at
  have split' : (g.block body).ops = left ++ k :: (right ++ user :: post) := by simpa using split
  rw [split',nodup_append] at bodyOnce
  obtain ⟨-,onceHere,apart⟩ := bodyOnce
  have made : Made g k v := by
    cases origin with
    | computed name reads => exact .inl ⟨_,name⟩
    | written buffer parts touches reads => exact .inr ⟨touches,buffer⟩
  have inBody {j : OpId} (mem : j ∈ right) : j ∈ (g.block body).ops := by
    rw [split']
    exact mem_append_right _ (.tail _ (mem_append_left _ mem))
  have other : ∀ j ∈ right, ∀ i, v ≠ .result j i := by
    rintro j mem i rfl
    cases origin with
    | computed name reads =>
      cases name
      exact (nodup_cons.mp onceHere).1 (mem_append_left _ mem)
    | written buffer parts touches reads =>
      obtain ⟨_,same,scope⟩ := (verifyBody verified split').operands _ touches.1
      cases same
      rcases mem_append.mp scope with arg | result
      · obtain ⟨_,-,name⟩ := memArguments arg
        cases name
      · obtain ⟨_,earlier,_,-,name⟩ := memComputed result
        cases name
        exact apart j earlier j (.tail _ (mem_append_left _ mem)) rfl
  have keeps : ∀ j ∈ right, ¬ WritesTo g j v := by
    intro j mem writes
    refine Reads.keeps (plain.few j (inBody mem)) ?_ writes
    obtain ⟨before',after',parts',sub⟩ := scan.order left k right rfl
    cases origin with
    | computed name reads =>
      have buffer := plain.outputs j (inBody mem) _ (mem_of_getElem? writes.choose_spec.1) v rfl writes
      refine reads buffer j ?_
      rw [parts']
      exact mem_append_right _ (.tail _ (sub j mem))
    | written buffer parts touches reads =>
      have onceScan := scan.once
      rw [parts',nodup_middle,nodup_cons,mem_append,not_or] at onceScan
      obtain ⟨⟨notBefore,notAfter⟩,-⟩ := onceScan
      obtain ⟨-,-,rfl⟩ := (append_cons_inj_of_notMem notBefore notAfter).mp (parts'.symm.trans parts)
      exact reads j (sub j mem)
  have few : ∀ j ∈ right, (g.op j).operands.length < wordBound := fun j mem => plain.few j (inBody mem)
  have fewBefore : ∀ j ∈ left, (g.op j).operands.length < wordBound := fun j mem =>
    plain.few j (by rw [split']; exact mem_append_left _ mem)
  have distinct := evalOpDistinct (early.distinct fewBefore once) ran
  obtain ⟨-,env,contents⟩ := evalEachLeaves few distinct late
  rw [env v other] at found
  rw [contents v r keeps other found]
  exact makes left _ u t split' early ran made r found

omit once split passed [Scalar α] in
theorem touchesInBody (traced : trace g k = .ok .zero ∨ ∃ next, trace g k = .ok (.from next)) (mem : k ∈ g.walkAll)
    (touches : Touches g k v) : k ∈ (g.block body).ops := by
  rcases traced with zero | ⟨next,source⟩
  · rcases traceZero zero with ⟨constant,-⟩ | ⟨fill,-⟩
    · have used := touches.1
      rw [plain.constants k mem constant] at used
      cases used
    · exact plain.top k mem (.inl fill)
  · obtain ⟨_,-,⟨copy,-⟩ | ⟨copy | view | cast | slice,-⟩⟩ := traceFrom source
    · exact plain.top k mem (.inr (.inl copy))
    · exact plain.top k mem (.inr (.inr copy))
    · exact absurd view (plain.views k mem)
    · exact absurd touches (onlyReads (.inl cast) v)
    · exact absurd touches (onlyReads (.inr slice) v)

include verified in
theorem userReady : Ready user s := by
  have few : ∀ j ∈ pre, (g.op j).operands.length < wordBound := fun j mem =>
    plain.few j (by rw [split]; exact mem_append_left _ mem)
  have bodyOnce : (g.block body).ops.Nodup := (formedOfVerify verified plain.once).1
  rw [split,nodup_middle] at bodyOnce
  have later : user ∉ pre := fun mem => (nodup_cons.mp bodyOnce).1 (mem_append_left _ mem)
  exact ⟨passed.distinct few once,passed.unbound few once later⟩

include verified in
theorem zeroConstantClear (zero : isZeroConstant g (some v) = .ok true) (scalar : (g.typeOf v).isBuffer = false) :
    Clear s v := by
  obtain ⟨c,i,x,same,constant,known,zero⟩ := isZeroConstantOk zero
  obtain ⟨scanned,scan⟩ := scannedBefore plain.once split
  refine carriedClear verified plain once split passed scan (k := c)
    (.computed (Option.some.inj same) fun buffer => by rw [scalar] at buffer; cases buffer) (fun mem touches => ?_)
    fun left right u t split' early ran made => ?_
  · have used := touches.1
    rw [plain.constants c mem constant] at used
    cases used
  · have walked : c ∈ g.walkAll := bodyWalked (by rw [split']; simp)
    exact constantClear constant (plain.constants c walked constant) known zero
      (userReady verified plain once split' early) ran made

include verified in
theorem tracedClear {fuel visited source} (found : origin g (some v) (some user) = .ok source)
    (followed : follow g fuel visited source = .ok true) : Clear s v := by
  induction fuel generalizing user pre post s v visited source with
  | zero => cases followed
  | succ fuel ih =>
    obtain ⟨k,rfl,traced⟩ := followOk followed
    intro r bound
    obtain ⟨scanned,scan⟩ := scannedBefore plain.once split
    have own : ∀ j i, v = .result j i → (g.op j).kind ≠ Memory.subviewKind := by
      rintro j i rfl
      have before := boundBefore plain once split passed bound
      exact plain.views j (bodyWalked (by rw [split]; exact mem_append_left _ before))
    have origin := originOk (verifyBody verified split).block scan plain.views own found
    refine carriedClear verified plain once split passed scan origin
      (fun mem => touchesInBody plain (traced.imp_right fun ⟨next,source,_⟩ => ⟨next,source⟩) mem)
      (fun left right u t split' early ran made => ?_) r bound
    have walked : k ∈ g.walkAll := bodyWalked (by rw [split']; simp)
    have ready := userReady verified plain once split' early
    rcases traced with zero | ⟨next,source,rest⟩
    · rcases traceZero zero with ⟨constant,x,known,zero⟩ | ⟨fill,w,inputs,zero⟩
      · exact constantClear constant (plain.constants k walked constant) known zero ready ran made
      · have unary := plain.unary k walked (.inl fill)
        obtain ⟨_,_,pair,alone,-⟩ := unary.operands
        cases alone.symm.trans inputs
        obtain ⟨c,i,-,rfl,-⟩ := isZeroConstantOk zero
        have first : (g.op k).operands[0]? = some (some (.result c i)) := by rw [pair]; rfl
        exact fillClear first
          (zeroConstantClear verified plain once split' early zero (plain.values k walked fill _ first _ rfl)) ready ran made
          fill unary
    · obtain ⟨w,from_,kinds⟩ := traceFrom source
      cases w with
      | none => exact absurd from_ abortOk
      | some w =>
        have clear : Clear u w := ih split' early from_ rest
        rcases kinds with ⟨copy,inputs⟩ | ⟨copy | view | cast | slice,first⟩
        · have unary := plain.unary k walked (.inr copy)
          obtain ⟨_,_,pair,alone,-⟩ := unary.operands
          cases alone.symm.trans inputs
          exact copyClear (by rw [pair]; rfl) clear ready ran made copy unary
        · exact bufferCopyClear first clear ready ran made copy
        · exact absurd view (plain.views k walked)
        · exact castClear first clear ready ran made cast
        · exact sliceClear first clear ready ran made slice

end Runs

section Soundness

variable {α : Type} [Scalar α] {memory : Array (NdArray α)} {args : List Ref} {s t : Machine α}

/-- A run that gets to an operation of the body, and the machine just before that operation. -/
def Reaches (g : Graph) (memory : Array (NdArray α)) (args : List Ref) (user : OpId) (s : Machine α) : Prop :=
  ∃ pre post, (g.block body).ops = pre ++ user :: post ∧ (∀ j ∈ pre, (g.op j).kind ≠ Memory.returnKind) ∧
    Passed g memory args pre s

/-- A value that is known to hold zeros just before an operation does so in every run that gets there. -/
theorem zeroBeforeHolds (verified : g.verify = .ok ()) (plain : Plain g) (once : args.Nodup)
    (known : isZeroBefore g (some v) (some user) = .ok true) (reaches : Reaches g memory args user s) {r : Ref}
    (found : s.env v = some r) : (s.arrayAt r).IsZero := by
  obtain ⟨pre,post,split,-,passed⟩ := reaches
  obtain ⟨source,origin,followed⟩ := Outcome.bindOk.mp known
  exact tracedClear verified plain once split passed origin followed r found

def lookAfter (g : Graph) (args : List Ref) (pre : List OpId) (v : Value) : Exec α (NdArray α) := do
  bindArguments g 0 (g.block body).args args
  evalEach g pre
  array (← value g (some v))

theorem reachesOf {pre post a} (split : (g.block body).ops = pre ++ user :: post)
    (goes : ∀ j ∈ pre, (g.op j).kind ≠ Memory.returnKind) (length : args.length = (g.block body).args.length)
    (valid : ∀ r ∈ args, r < memory.size) (ok : lookAfter g args pre v ⟨memory,fun _ => none⟩ = .ok a s) :
    Reaches g memory args user s ∧ ∃ r, s.env v = some r ∧ s.arrayAt r = a := by
  obtain ⟨_,first,bound,ok⟩ := bindOk.mp ok
  obtain ⟨_,t,ran,ok⟩ := bindOk.mp ok
  obtain ⟨r,found,ok⟩ := pass valueSomeOk ok
  cases ok
  exact ⟨⟨pre,post,split,goes,first,⟨length,bound,valid⟩,ran⟩,r,found,rfl⟩

end Soundness

theorem isZeroFloat {x : Float} : Scalar.IsZero x ↔ (x == 0) = true := by
  constructor
  · rintro (rfl | ⟨c,zero,rfl⟩)
    · decide
    · exact zero
  · exact fun zero => .inr ⟨x,zero,rfl⟩

section Cases

variable {memory : Array (NdArray Float)} {args : List Ref}

def sees (g : Graph) (memory : Array (NdArray Float)) (args : List Ref) (user : OpId) (pre : List OpId) (v : Value)
    (check : Float → Bool) : Bool :=
  (g.block body).ops.take (pre.length + 1) == pre ++ [user] &&
  pre.all (fun j => (g.op j).kind != Memory.returnKind) && args.length == (g.block body).args.length &&
  args.all (· < memory.size) &&
  match lookAfter g args pre v ⟨memory,fun _ => none⟩ with
  | .ok a _ => a.data[0]?.any check
  | .error .. => false

theorem seesOk {pre check} (ok : sees g memory args user pre v check = true) :
    ∃ s r, Reaches g memory args user s ∧ s.env v = some r ∧ ∃ x ∈ (s.arrayAt r).data, check x = true := by
  simp only [sees,Bool.and_eq_true,beq_iff_eq,all_eq_true,bne_iff_ne,decide_eq_true_eq] at ok
  obtain ⟨⟨⟨⟨split,goes⟩,length⟩,valid⟩,looks⟩ := ok
  have split : (g.block body).ops = pre ++ user :: (g.block body).ops.drop (pre.length + 1) := by
    have whole := take_append_drop (pre.length + 1) (g.block body).ops
    rw [split,append_assoc] at whole
    exact whole.symm
  cases ran : lookAfter g args pre v ⟨memory,fun _ => none⟩ with
  | error f s => simp [ran] at looks
  | ok a s =>
    simp only [ran,Option.any_eq_true_iff_get] at looks
    obtain ⟨some_,passes⟩ := looks
    obtain ⟨reaches,r,found,rfl⟩ := reachesOf split goes length valid ran
    exact ⟨s,r,reaches,found,_,Array.mem_of_getElem? (Option.some_get some_).symm,passes⟩

def laidOut (args : List ValueType) (ops : List Operation) (listed nested : List OpId) : Graph where
  name := "f"
  ops := ops.toArray
  blocks := #[⟨args.map .ofType,listed,none⟩, ⟨[.ofType (.scalar .f32)],nested,some 1⟩]

def zeroOp (t : ValueType) : Operation :=
  ⟨constantKind,[],[.ofType t],Attributes.ofList [(valueAttr, .float 0)],none,some 0⟩

def ontoOp (kind : String) (u w : Value) (b : BlockId) : Operation :=
  ⟨kind,[some u, some w],[],Attributes.ofList [(numInputsAttr, .int 1)],none,some b⟩

def handedOn : Graph := laidOut [.scalar .f32, .buffer .f32 [1], .buffer .f32 [1]] [zeroOp (.scalar .f32),
  ontoOp fillKind (.argument 0 0) (.argument 0 1) 0,
  ontoOp fillKind (.result 0 0) (.argument 0 1) 0,
  ontoOp Memory.copyKind (.argument 0 1) (.argument 0 2) 0,
  ontoOp fillKind (.argument 0 0) (.argument 0 1) 0,
  ontoOp copyKind (.argument 0 2) (.argument 0 1) 0] [0, 1, 2, 3, 4, 5] []

def fiveAndBuffers : Array (NdArray Float) := #[⟨.scalar .f32,#[5]⟩, ⟨.buffer .f32 [1],#[7]⟩, ⟨.buffer .f32 [1],#[8]⟩]

theorem zeroBeforeHandedOn : handedOn.verify = .ok () ∧ Plain handedOn ∧ [0, 1, 2].Nodup ∧
    isZeroBefore handedOn (some (.argument 0 2)) (some 5) = .ok true ∧
    ∃ s r, Reaches handedOn fiveAndBuffers [0, 1, 2] 5 s ∧ s.env (.argument 0 2) = some r ∧ (s.arrayAt r).IsZero := by
  have verified : handedOn.verify = .ok () := by decide +kernel
  have plain : Plain handedOn := by decide +kernel
  have known : isZeroBefore handedOn (some (.argument 0 2)) (some 5) = .ok true := by decide +kernel
  have seen : sees handedOn fiveAndBuffers [0, 1, 2] 5 [0, 1, 2, 3, 4] (.argument 0 2) (· == 0) = true := by decide +kernel
  obtain ⟨s,r,reaches,found,-⟩ := seesOk seen
  exact ⟨verified,plain,by decide,known,s,r,reaches,found,
    zeroBeforeHolds verified plain (by decide) known reaches found⟩

def Misjudged (g : Graph) (memory : Array (NdArray Float)) (args : List Ref) (user : OpId) (v : Value) : Prop :=
  g.verify = .ok () ∧ (∀ j ∈ g.walkAll, (g.op j).kind ≠ Memory.subviewKind) ∧ args.Nodup ∧
    some v ∈ (g.op user).operands ∧ isZeroBefore g (some v) (some user) = .ok true ∧
    ∃ s r, Reaches g memory args user s ∧ s.env v = some r ∧ ¬ (s.arrayAt r).IsZero

theorem misjudgedOf (pre : List OpId) (verified : g.verify = .ok ())
    (views : ∀ j ∈ g.walkAll, (g.op j).kind ≠ Memory.subviewKind) (once : args.Nodup)
    (used : some v ∈ (g.op user).operands) (known : isZeroBefore g (some v) (some user) = .ok true)
    (seen : sees g memory args user pre v (fun x => !(x == 0)) = true) : Misjudged g memory args user v := by
  obtain ⟨s,r,reaches,found,x,mem,other⟩ := seesOk seen
  refine ⟨verified,views,once,used,known,s,r,reaches,found,fun zero => ?_⟩
  rw [isZeroFloat.mp (zero x mem)] at other
  cases other

def filledConstant : Graph := laidOut [.scalar .f32, .buffer .f32 [1]] [zeroOp (.scalar .f32),
  ontoOp fillKind (.argument 0 0) (.result 0 0) 0,
  ontoOp fillKind (.result 0 0) (.argument 0 1) 0] [0, 1, 2] []

def filledBuffer : Graph := laidOut [.scalar .f32, .buffer .f32 [1], .buffer .f32 [1]] [zeroOp (.buffer .f32 [1]),
  ontoOp fillKind (.argument 0 0) (.result 0 0) 0,
  ontoOp fillKind (.result 0 0) (.argument 0 1) 0,
  ontoOp copyKind (.argument 0 1) (.argument 0 2) 0] [0, 1, 2, 3] []

def filledNever : Graph := laidOut [.buffer .f32 [0], .buffer .f32 [1], .buffer .f32 [1]] [zeroOp (.scalar .f32),
  ⟨genericKind,[some (.argument 0 0)],[],
    (genericAttrs [.identityOf 1] [.parallel] "").store numInputsAttr (.int 0),some 1,some 0⟩,
  ontoOp fillKind (.result 0 0) (.argument 0 1) 1,
  ⟨yieldKind,[some (.argument 1 0)],[],OrderedMap.empty,none,some 1⟩,
  ontoOp copyKind (.argument 0 1) (.argument 0 2) 0] [0, 1, 4] [2, 3]

def readTwice : Graph := laidOut [.scalar .f32, .buffer .f32 [1], .buffer .f32 [1]] [zeroOp (.scalar .f32),
  ontoOp fillKind (.result 0 0) (.argument 0 1) 0,
  ontoOp copyKind (.argument 0 1) (.argument 0 2) 0,
  ontoOp fillKind (.argument 0 0) (.argument 0 1) 0] [0, 1, 2, 3, 2] []

theorem zeroBeforeMisjudged :
    Misjudged filledConstant #[⟨.scalar .f32, #[5]⟩, ⟨.buffer .f32 [1], #[7]⟩] [0, 1] 2 (.result 0 0) ∧
    Misjudged filledBuffer fiveAndBuffers [0, 1, 2] 3 (.argument 0 1) ∧
    Misjudged filledNever #[⟨.buffer .f32 [0], #[]⟩, ⟨.buffer .f32 [1], #[7]⟩, ⟨.buffer .f32 [1], #[8]⟩] [0, 1, 2] 4
      (.argument 0 1) ∧
    Misjudged readTwice fiveAndBuffers [0, 1, 2] 2 (.argument 0 1) := by
  refine ⟨misjudgedOf [0, 1] ?_ ?_ ?_ ?_ ?_ ?_,misjudgedOf [0, 1, 2] ?_ ?_ ?_ ?_ ?_ ?_,
    misjudgedOf [0, 1] ?_ ?_ ?_ ?_ ?_ ?_,misjudgedOf [0, 1, 2, 3] ?_ ?_ ?_ ?_ ?_ ?_⟩ <;>
    decide +kernel

end Cases

end ZeroFill

end TileLower
