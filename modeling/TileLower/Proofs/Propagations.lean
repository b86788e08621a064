import TileLower.Proofs.Blockings

/-!
The drafts of the rules that move an unpack behind the operation that reads it, operation by operation:
`Propagation.throughPadOk` and `Propagation.throughElementwiseOk`.
-/
namespace TileLower

open Drafting Memory Step List TileLower.Graph

namespace Draft

def moving (g : Graph) (ops : List Operation) (source target : OpId) : Draft :=
  { staged g ops with moves := [(some source, some target)] }

theorem movingPush (g : Graph) (ops : List Operation) (source target : OpId) (o : Operation) :
    (moving g ops source target).push o = moving g (ops ++ [o]) source target :=
  congrArg (fun d : Draft => { d with moves := [(some source, some target)] }) (stagedPush g ops o)

end Draft

namespace Relayout

theorem unpackMade {d e : Draft} {a dest w} {l : Layout} {b} (ok : unpack (some a) dest l b d = .ok w e) :
    ∃ c, dest = some c ∧ l.divides (d.graph.typeOf c).dims = .ok true ∧
      l.packedShape (d.graph.typeOf c).dims = .ok (d.graph.typeOf a).dims ∧
      w = some (if (d.graph.typeOf c).isTensor then .result d.graph.ops.size 0 else c) ∧
      e = d.push (convertOp unpackKind (some a) (some c) (d.graph.typeOf c) l b) := by
  obtain ⟨_,⟨c,rfl,rfl⟩,ok⟩ := read typeOfOk ok
  obtain ⟨divides,divided,ok⟩ := read liftOk ok
  cases divides with
  | false => exact absurd ok (by simp [doesNotDivide])
  | true =>
    obtain ⟨want,shape,ok⟩ := read liftOk ok
    obtain ⟨_,⟨_,same,rfl⟩,ok⟩ := read typeOfOk ok
    cases same
    obtain ⟨same,ok⟩ := (checkOk fun _ _ => failOk).mp ok
    have emitted : emit unpackKind (some a) (some c) l b d = .ok w e := ok
    rw [emitRun] at emitted
    cases emitted
    exact ⟨c,rfl,divided,by rw [shape,not_not.mp same],rfl,rfl⟩

end Relayout

namespace Propagation

open Blocking Relayout Structured

variable {g : Graph} {s : Site} {d e : Draft} {V : Operand → Prop} {index : Nat} {u : OpId}

inductive BlockedAs (g : Graph) (index : Nat) (u : OpId) : Nat → List Tiled → List Operation → List Operand → Prop where
  | nil {n : Nat} : BlockedAs g index u n [] [] []
  | source {n : Nat} {t : Tiled} {ts : List Tiled} {ops : List Operation} {v : Operand} {vs : List Operand}
      (here : t.index = index) (found : (g.op u).operands[0]? = some v) (rest : BlockedAs g index u n ts ops vs) :
      BlockedAs g index u n (t :: ts) ops (v :: vs)
  | same {n : Nat} {t : Tiled} {ts : List Tiled} {ops : List Operation} {vs : List Operand} (other : t.index ≠ index)
      (identity : t.layout.isIdentity = true) (rest : BlockedAs g index u n ts ops vs) :
      BlockedAs g index u n (t :: ts) ops (t.value :: vs)
  | packed {n : Nat} {t : Tiled} {ts : List Tiled} {ops : List Operation} {vs : List Operand} {a : Value} {p : ValueType}
      (other : t.index ≠ index) (moved : t.layout.isIdentity = false) (value : t.value = some a)
      (packed : PackedAs t.layout (g.typeOf a) p) (rest : BlockedAs g index u (n + 2) ts ops vs) :
      BlockedAs g index u n (t :: ts) (emptyOp p :: convertOp packKind (some a) (some (.result n 0)) p t.layout
        .dropped :: ops) (some (.result (n + 1) 0) :: vs)

theorem blockOperandsOk {ops : List Operation} {ts vs} (within : u < g.ops.size)
    (seen : ∀ t ∈ ts, ∀ a, t.value = some a → a.Below g.ops.size ∧ (g.typeOf a).isBuffer = false)
    (ok : blockOperands s index u ts (.staged g ops) = .ok vs e) :
    ∃ more, BlockedAs g index u (g.ops.size + ops.length) ts more vs ∧ e = .staged g (ops ++ more) := by
  induction ts generalizing ops vs with
  | nil =>
    cases ok
    exact ⟨[],.nil,by rw [append_nil]⟩
  | cons t ts ih =>
    obtain ⟨here,seen⟩ := forall_mem_cons.mp seen
    unfold blockOperands at ok
    dsimp only at ok
    split at ok
    · obtain ⟨v,found,ok⟩ := read askOk ok
      obtain ⟨vs,_,ran,last⟩ := bindOk.mp ok
      cases last
      obtain ⟨more,blocked,rfl⟩ := ih seen ran
      have found := operandAtOk.mp found
      rw [show (Draft.staged g ops).graph.op u = g.op u from g.pushAllOld ops within] at found
      exact ⟨more,.source ‹_› found blocked,rfl⟩
    · split at ok
      · have ok : (do let vs ← blockOperands s index u ts; pure (t.value :: vs)) (.staged g ops) = .ok vs e := ok
        obtain ⟨vs,_,ran,last⟩ := bindOk.mp ok
        cases last
        obtain ⟨more,blocked,rfl⟩ := ih seen ran
        exact ⟨more,.same ‹_› ‹_› blocked,rfl⟩
      · rename_i other moved
        obtain ⟨v,_,ran,ok⟩ := bindOk.mp ok
        obtain ⟨a,p,value,packed,rfl,rfl⟩ := packOk here (Site.expectOk.mp ran)
        obtain ⟨vs,_,ran,last⟩ := bindOk.mp ok
        cases last
        obtain ⟨more,blocked,rfl⟩ := ih seen ran
        rw [length_append] at blocked
        refine ⟨_,.packed other (by simpa using moved) value packed blocked,?_⟩
        rw [append_assoc,value]
        rfl

inductive UnpackedAs (g : Graph) (index : Nat) (u new : OpId) (types : Nat → ValueType) (outs : List Tiled) :
    Nat → List Nat → List Operation → List Operand → Prop where
  | nil {n : Nat} : UnpackedAs g index u new types outs n [] [] []
  | same {n r : Nat} {rs : List Nat} {t : Tiled} {ops : List Operation} {vs : List Operand} (at_ : outs[r]? = some t)
      (identity : t.layout.isIdentity = true) (rest : UnpackedAs g index u new types outs n rs ops vs) :
      UnpackedAs g index u new types outs n (r :: rs) ops (some (.result new r) :: vs)
  | unpacked {n r : Nat} {rs : List Nat} {t : Tiled} {ops : List Operation} {vs : List Operand} {c : Value}
      (at_ : outs[r]? = some t) (moved : t.layout.isIdentity = false)
      (dest : if t.index = index then (g.op u).operands[1]? = some (some c) else t.value = some c)
      (divides : t.layout.divides (g.typeOf c).dims = .ok true)
      (shape : t.layout.packedShape (g.typeOf c).dims = .ok (types r).dims)
      (rest : UnpackedAs g index u new types outs (n + 1) rs ops vs) :
      UnpackedAs g index u new types outs n (r :: rs) (convertOp unpackKind (some (.result new r)) (some c) (g.typeOf c)
        t.layout .dropped :: ops) (some (if (g.typeOf c).isTensor then .result n 0 else c) :: vs)

theorem unpackResultsOk {ops : List Operation} {outs m} {o : Operation} {vs rs} (within : u < g.ops.size)
    (made : ops[m]? = some o)
    (seen : ∀ a, (some a ∈ (g.op u).operands ∨ ∃ t ∈ outs, t.value = some a) → a.Below g.ops.size)
    (ok : unpackResults s (g.ops.size + m) index u outs rs (.moving g ops s.op (g.ops.size + m)) = .ok vs e) :
    (∀ r ∈ rs, r < o.results.length) ∧ ∃ more, UnpackedAs g index u (g.ops.size + m)
      (fun r => (o.results.getD r default).type) outs (g.ops.size + ops.length) rs more vs ∧
      e = .moving g (ops ++ more) s.op (g.ops.size + m) := by
  induction rs generalizing ops vs with
  | nil =>
    cases ok
    exact ⟨nofun,[],.nil,by rw [append_nil]⟩
  | cons r rs ih =>
    obtain ⟨t,at_,ok⟩ := read requireOk ok
    obtain ⟨result,found,ok⟩ := read askOk ok
    obtain ⟨lt,rfl⟩ := resultAtOk.mp found
    rw [show (Draft.moving g ops s.op (g.ops.size + m)).graph.op (g.ops.size + m) = o from g.pushAllNew ops made] at lt
    have type : (Draft.moving g ops s.op (g.ops.size + m)).graph.typeOf (.result (g.ops.size + m) r) =
        (o.results.getD r default).type := g.pushAllResultType ops made r
    have size : (Draft.moving g ops s.op (g.ops.size + m)).graph.ops.size = g.ops.size + ops.length := g.pushAllSize ops
    have unpacks {dest : Operand} (moved : t.layout.isIdentity = false)
        (from_ : ∀ c, dest = some c → if t.index = index then (g.op u).operands[1]? = some (some c) else t.value = some c)
        (below : ∀ c, dest = some c → c.Below g.ops.size)
        (ok : (do
          let v ← s.expect (unpack (some (.result (g.ops.size + m) r)) dest t.layout .dropped)
          let vs ← unpackResults s (g.ops.size + m) index u outs rs
          pure (v :: vs)) (.moving g ops s.op (g.ops.size + m)) = .ok vs e) :
        (∀ r ∈ rs, r < o.results.length) ∧ ∃ more, UnpackedAs g index u (g.ops.size + m)
          (fun r => (o.results.getD r default).type) outs (g.ops.size + ops.length) (r :: rs) more vs ∧
          e = .moving g (ops ++ more) s.op (g.ops.size + m) := by
      obtain ⟨v,_,ran,ok⟩ := bindOk.mp ok
      obtain ⟨c,rfl,divides,shape,rfl,rfl⟩ := unpackMade (Site.expectOk.mp ran)
      have typeC : (Draft.moving g ops s.op (g.ops.size + m)).graph.typeOf c = g.typeOf c := g.pushAllType ops (below c rfl)
      rw [typeC] at divides shape
      rw [type] at shape
      rw [typeC,Draft.movingPush] at ok
      obtain ⟨vs,_,ran,last⟩ := bindOk.mp ok
      cases last
      obtain ⟨lts,more,unpacked,rfl⟩ := ih (by rw [getElem?_append_left (List.getElem?_eq_some_iff.mp made).1,made]) ran
      rw [length_append] at unpacked
      refine ⟨lts,_,?_,by rw [append_assoc]⟩
      rw [size]
      exact .unpacked at_ moved (from_ c rfl) divides shape unpacked
    dsimp only at ok
    split at ok
    · have ok : (do let vs ← unpackResults s (g.ops.size + m) index u outs rs; pure (some (Value.result (g.ops.size + m) r) :: vs))
          (.moving g ops s.op (g.ops.size + m)) = .ok vs e := ok
      obtain ⟨vs,_,ran,last⟩ := bindOk.mp ok
      cases last
      obtain ⟨lts,more,unpacked,rfl⟩ := ih made ran
      exact ⟨forall_mem_cons.mpr ⟨lt,lts⟩,more,.same at_ ‹_› unpacked,rfl⟩
    · rename_i moved
      have moved : t.layout.isIdentity = false := by simpa using moved
      split at ok
      · rename_i here
        obtain ⟨dest,found,ok⟩ := read askOk ok
        have found := operandAtOk.mp found
        rw [show (Draft.moving g ops s.op (g.ops.size + m)).graph.op u = g.op u from g.pushAllOld ops within] at found
        obtain ⟨lts,unpacked⟩ := unpacks moved (fun c same => by rw [if_pos here,found,same])
          (fun c same => seen c (.inl (same ▸ mem_of_getElem? found))) ok
        exact ⟨forall_mem_cons.mpr ⟨lt,lts⟩,unpacked⟩
      · rename_i other
        obtain ⟨lts,unpacked⟩ := unpacks moved (fun c same => by rw [if_neg other]; exact same)
          (fun c same => seen c (.inr ⟨t,mem_of_getElem? at_,same⟩)) ok
        exact ⟨forall_mem_cons.mpr ⟨lt,lts⟩,unpacked⟩

def loopsFor (g : Graph) (id u : OpId) (v : Value) : LoopLayout :=
  .ofOperand (Int64.ofNat (numLoops (g.op id))) (Int64.ofNat (g.typeOf v).rank) (layoutOf (g.op u))

def blockedGeneric (o : Operation) (l : LoopLayout) (tiled : List Tiled) (n : Nat) (blocked : List Operand)
    (outTypes : List ValueType) : Operation :=
  madeOp genericKind (blocked.take n) (blocked.drop n) outTypes
    (genericAttrs (tiled.map fun t => l.indexingMap (Int64.ofNat t.type.rank))
      (replicate (numLoops o + l.tiles.length) .parallel) (libraryCall o))

structure Passes (g : Graph) (id : OpId) (index : Nat) (u : OpId) (v : Value) (tiled : List Tiled) (n : Nat)
    (packs unpacks : List Operation) (blocked : List Operand) (outTypes : List ValueType) (vals : List Value)
    (d : Draft) : Prop where
  operand : (g.op id).operands[index]? = some (some v)
  computed : ∃ j, v = .result u j
  isUnpack : isUnpack (g.op u) = true
  parallel : ∀ it ∈ iteratorTypes (g.op id), it = .parallel
  minor : ∀ m ∈ indexingMaps (g.op id), (∀ x ∈ m.results, ∃ p, x = .dim p) ∧ m.isMinorIdentity = .ok true
  tensors : hasTensorSemantics g (g.op id) = .ok true
  valid : (layoutOf (g.op u)).validate (Int64.ofNat (g.typeOf v).rank) = .ok ()
  values : tiled.map Tiled.value = (g.op id).operands
  indices : tiled.map Tiled.index = range' 0 (g.op id).operands.length
  fits : ∀ t ∈ tiled, t.Matches g (loopsFor g id u v)
  count : inputCount (g.op id) = .ok n
  blocks : BlockedAs g index u g.ops.size tiled packs blocked
  types : (g.pushAll packs).operandTypes (blocked.drop n) = .ok outTypes
  made : ∀ r < (g.op id).results.length,
    r < (blockedGeneric (g.op id) (loopsFor g id u v) tiled n blocked outTypes).results.length
  unpacked : UnpackedAs g index u (g.ops.size + packs.length)
    (fun r => ((blockedGeneric (g.op id) (loopsFor g id u v) tiled n blocked outTypes).results.getD r default).type)
    (tiled.drop n) (g.ops.size + packs.length + 1) (range (g.op id).results.length) unpacks (vals.map some)
  draft : d = { Draft.moving g (packs ++ blockedGeneric (g.op id) (loopsFor g id u v) tiled n blocked outTypes :: unpacks)
    id (g.ops.size + packs.length) with replacements := [(id, vals.map some)] }

theorem Passes.numbered {id v tiled n packs unpacks blocked outTypes vals}
    (passes : Passes g id index u v tiled n packs unpacks blocked outTypes vals d) (t : Tiled) (mem : t ∈ tiled) :
    (g.op id).operands[t.index]? = some t.value := by
  obtain ⟨m,at_⟩ := getElem?_of_mem mem
  have lt := (List.getElem?_eq_some_iff.mp at_).1
  have number : (tiled.map Tiled.index)[m]? = some t.index := by rw [getElem?_map,at_]; rfl
  rw [passes.indices,getElem?_range' (by rw [← passes.values,length_map]; exact lt),Nat.zero_add,
    Nat.one_mul] at number
  rw [← Option.some.inj number,← passes.values,getElem?_map,at_]
  rfl

theorem throughElementwiseOk (sight : Sight g s.op V) (below : ∀ v, V (some v) → v.Below g.ops.size)
    (ok : throughElementwise.draft s (Draft.ofGraph g) = .ok () e) :
    ∃ index u v tiled n packs unpacks blocked outTypes vals,
      Passes g s.op index u v tiled n packs unpacks blocked outTypes vals e := by
  obtain ⟨_,⟨parallel,minor⟩,ok⟩ := Step.pass checkElementwiseOk ok
  obtain ⟨_,rfl,ok⟩ := Step.read graphOk ok
  obtain ⟨⟨index,u⟩,none | ⟨k,j,at_,here,kind⟩,ok⟩ := Step.pass unpackedOperandOk ok
  · cases none
  obtain rfl : index = k := by simpa using here
  have within := unpackInside kind
  obtain ⟨tensors,asked,ok⟩ := Step.read askOk ok
  obtain ⟨yes,ok⟩ := Site.checkOk.mp ok
  have tensors : hasTensorSemantics g (g.op s.op) = .ok true := asked.trans (congrArg _ (not_not.mp yes))
  obtain ⟨_,rfl,ok⟩ := Step.read graphOk ok
  obtain ⟨_,found,ok⟩ := Step.read nthOk ok
  cases Option.some.inj (at_.symm.trans found)
  obtain ⟨_,⟨_,same,rfl⟩,ok⟩ := Step.read typeOfOk ok
  cases same
  obtain ⟨_,valid,ok⟩ := Step.read Site.attemptOk ok
  obtain ⟨tiled,_,ran,ok⟩ := bindOk.mp ok
  obtain ⟨values,indices,fits,rfl⟩ := tileOperandsOk ran
  have member (t : Tiled) (inside : t ∈ tiled) : t.value ∈ (g.op s.op).operands := by
    change tiled.map Tiled.value = (g.op s.op).operands at values
    exact values ▸ mem_map_of_mem inside
  have seen (t : Tiled) (inside : t ∈ tiled) (a : Value) (same : t.value = some a) :
      a.Below g.ops.size ∧ (g.typeOf a).isBuffer = false := by
    have mem := member t inside
    rw [same] at mem
    obtain ⟨_,same,tensor⟩ := allTypesOk.mp tensors _ mem
    cases same
    exact ⟨below a (sight.operands _ mem),by simpa using tensor⟩
  obtain ⟨blocked,d1,ran,ok⟩ := bindOk.mp ok
  rw [← Draft.stagedNil] at ran
  obtain ⟨packs,isBlocked,rfl⟩ := blockOperandsOk within seen ran
  rw [nil_append] at ok
  obtain ⟨n,count,ok⟩ := Step.read askOk ok
  obtain ⟨new,d2,made,ok⟩ := bindOk.mp ok
  obtain ⟨outTypes,types,rfl,rfl⟩ := makeOk made
  obtain ⟨_,d3,listed,ok⟩ := bindOk.mp ok
  cases listed
  obtain ⟨_,d4,moved,ok⟩ := bindOk.mp ok
  cases moved
  obtain ⟨results,d5,ran,ok⟩ := bindOk.mp ok
  let o := blockedGeneric (g.op s.op) (loopsFor g s.op u (.result u j)) tiled n blocked outTypes
  have size : (Draft.staged g packs).graph.ops.size = g.ops.size + packs.length := g.pushAllSize packs
  have moving : { (Draft.staged g packs).push o with moves := [(some s.op, some (g.ops.size + packs.length))] } =
      Draft.moving g (packs ++ [o]) s.op (g.ops.size + packs.length) := by rw [Draft.stagedPush]; rfl
  have ran : unpackResults s (g.ops.size + packs.length) index u (tiled.drop n) (range (g.op s.op).results.length)
      (.moving g (packs ++ [o]) s.op (g.ops.size + packs.length)) = .ok results d5 := by
    rw [← moving,← size]
    exact ran
  obtain ⟨lts,unpacks,unpacked,rfl⟩ := unpackResultsOk within getElem?_concat_length (fun a origin => by
    rcases origin with used | ⟨t,inside,same⟩
    · exact below a (sight.closed u j (sight.operands _ (mem_of_getElem? at_)) _ used)
    · exact (seen t (mem_of_mem_drop inside) a same).1) ran
  obtain ⟨vals,rfl,-,rfl⟩ := Draft.replaceOk ok
  rw [length_append] at unpacked
  refine ⟨index,u,.result u j,tiled,n,packs,unpacks,blocked,outTypes,vals,at_,⟨j,rfl⟩,kind,parallel,minor,
    tensors,valid,values,indices,fits,count,isBlocked,types,fun r lt => lts r (mem_range.mpr lt),unpacked,?_⟩
  rw [append_assoc]
  rfl

def padOp (source value : Operand) (t : ValueType) (low high : Option (List Int64)) : Operation :=
  ⟨padKind,[source, value],[.ofType t],
    Attributes.ofList [(lowAttr, .ints low), (highAttr, .ints high)],none,none⟩

def padUnpack (n : Nat) (t : ValueType) (l : Layout) (b : Blanks) : List Operation :=
  [emptyOp t, convertOp unpackKind (some (.result n 0)) (some (.result (n + 1) 0)) (t.withKind .tensor) l b]

structure PassesPad (g : Graph) (id u : OpId) (x : Value) (value : Operand) (low high : Option (List Int64))
    (axes : List Nat) (t : ValueType) (d : Draft) : Prop where
  operand : ∃ j, (g.op id).operands[0]? = some (some (.result u j))
  isUnpack : isUnpack (g.op u) = true
  padding : paddedAxes (g.op id) = .ok axes
  untiled : ∀ axis ∈ axes, Int64.ofNat axis ∉ (layoutOf (g.op u)).inner
  isLow : blockedPadding (layoutOf (g.op u)) ((g.op id).attrs.given? lowAttr) = .ok low
  isHigh : blockedPadding (layoutOf (g.op u)) ((g.op id).attrs.given? highAttr) = .ok high
  source : (g.op u).operands[0]? = some (some x)
  isValue : (g.op id).operands[1]? = some value
  padded : paddedType (g.typeOf x) (low.getD []) (high.getD []) = .ok t
  result : 0 < (g.op id).results.length
  divides : (layoutOf (g.op u)).divides (g.typeOf (.result id 0)).dims = .ok true
  shape : (layoutOf (g.op u)).packedShape (g.typeOf (.result id 0)).dims = .ok t.dims
  draft : d = { Draft.staged g (padOp (some x) value t low high ::
    padUnpack g.ops.size (g.typeOf (.result id 0)) (layoutOf (g.op u)) (.ofOp (g.op u))) with
      replacements := [(id, [some (.result (g.ops.size + 2) 0)])] }

theorem throughPadOk (ok : throughPad.draft s (Draft.ofGraph g) = .ok () e) :
    ∃ u x value low high axes t, PassesPad g s.op u x value low high axes t e := by
  obtain ⟨producer,asked,ok⟩ := Step.read askOk ok
  obtain ⟨v,found,producing⟩ := Outcome.bindOk.mp asked
  cases producer with
  | none => exact absurd ok Site.declineOk
  | some u =>
    obtain ⟨⟨j,rfl⟩,isUnpack⟩ := unpackOfOk producing
    obtain ⟨_,rfl,ok⟩ := Step.read graphOk ok
    obtain ⟨axes,padded,ok⟩ := Step.read askOk ok
    generalize tiled : find? _ axes = axis at ok
    cases axis with
    | some axis => exact absurd ok Site.declineOk
    | none =>
      obtain ⟨low,isLow,ok⟩ := Step.read askOk ok
      obtain ⟨high,isHigh,ok⟩ := Step.read askOk ok
      obtain ⟨x,source,ok⟩ := Step.read askOk ok
      obtain ⟨value,isValue,ok⟩ := Step.read askOk ok
      obtain ⟨_,_,ran,ok⟩ := bindOk.mp ok
      obtain ⟨_,_,made,listed⟩ := bindOk.mp (Site.expectOk.mp ran)
      obtain ⟨_,⟨x,rfl,rfl⟩,made⟩ := Step.read typeOfOk made
      obtain ⟨t,type,made⟩ := Step.read liftOk made
      rw [makeRun] at made
      cases made
      cases listed
      let o := padOp (some x) value t low high
      have pushed : (Draft.ofGraph g).push o = .staged g [o] := by rw [← Draft.stagedNil,Draft.stagedPush]; rfl
      have within : s.op < g.ops.size := by
        by_contra outside
        have found := Graph.operandAtOk.mp found
        rw [show (Draft.ofGraph g).graph.op s.op = default from Graph.opOutside outside] at found
        cases found
      obtain ⟨result,isResult,ok⟩ := Step.read askOk ok
      obtain ⟨lt,rfl⟩ := Graph.resultAtOk.mp isResult
      have lt : 0 < (g.op s.op).results.length := by
        rw [← g.pushOp o within]
        exact lt
      have ok : (do
          let dest ← empty (g.typeOf (.result s.op 0))
          let unpacked ← s.expect (unpack (some (.result g.ops.size 0)) (some dest) (layoutOf (g.op u)) (.ofOp (g.op u)))
          Draft.replace s.op [unpacked]) (.staged g [o]) = .ok () e := by
        rw [← pushed]
        exact ok
      rw [bindOfOk (emptyRun _),Draft.stagedPush] at ok
      obtain ⟨w,_,ran,ok⟩ := bindOk.mp ok
      obtain ⟨_,same,divides,shape,rfl,rfl⟩ := unpackMade (Site.expectOk.mp ran)
      cases same
      have size (ops : List Operation) : (Draft.staged g ops).graph.ops.size = g.ops.size + ops.length := g.pushAllSize ops
      have typeP : (Draft.staged g ([o] ++ [emptyOp (g.typeOf (.result s.op 0))])).graph.typeOf (.result g.ops.size 0) =
          t := g.pushAllResultType [o, emptyOp (g.typeOf (.result s.op 0))] (m := 0) rfl 0
      have typeD : (Draft.staged g ([o] ++ [emptyOp (g.typeOf (.result s.op 0))])).graph.typeOf
          (.result (Draft.staged g [o]).graph.ops.size 0) = (g.typeOf (.result s.op 0)).withKind .tensor := by
        rw [size]
        exact g.pushAllResultType [o, emptyOp (g.typeOf (.result s.op 0))] (m := 1) rfl 0
      rw [typeD,Draft.stagedPush] at ok
      rw [typeD] at divides shape
      rw [typeP] at shape
      obtain ⟨_,-,-,rfl⟩ := Draft.replaceOk ok
      refine ⟨u,x,value,low,high,axes,t,⟨j,Graph.operandAtOk.mp found⟩,isUnpack,padded,fun axis mem tiles => ?_,
        isLow,isHigh,Graph.operandAtOk.mp source,Graph.operandAtOk.mp isValue,type,lt,divides,shape,?_⟩
      · have bare := find?_eq_none.mp tiled axis mem
        exact bare (contains_iff_mem.mpr tiles)
      · rw [size,size]
        rfl

end Propagation

end TileLower
