import TileLower.Proofs.Frames

/-!
Conversions that undo each other: `Propagation.foldRefines`. Unpacking what was packed undoes it always, packing what
was unpacked only if the tiles divide the shape.
-/
namespace TileLower

open TileLower.Graph List Step

namespace Layout

/-- The types of a conversion: the second is packed from the first, and words are long enough to round up. -/
structure Packs (l : Layout) (flat blocked : ValueType) : Prop where
  rank : flat.rank ≤ lengthLimit.toNatClampNeg
  nonneg : ∀ n ∈ flat.dims, 0 ≤ n
  rounds : l.RoundsUp flat.dims
  shape : l.packedShape flat.dims = .ok blocked.dims

structure Tiles (l : Layout) (flat blocked : ValueType) (ns : List Nat) (T : Tiling ns.length) : Prop where
  rank : ns.length ≤ lengthLimit.toNatClampNeg
  flatDims : flat.dims = words ns
  small : Small ns
  describes : l.Describes T
  rounds : T.Rounds ns
  blockedDims : blocked.dims = words (T.packed ns)

theorem Packs.tiles {l : Layout} {flat blocked} (packs : l.Packs flat blocked) :
    ∃ ns T, l.Tiles flat blocked ns T := by
  have valid : l.validate (Int64.ofNat flat.dims.length) = .ok () := by
    obtain ⟨_,valid,-⟩ := Outcome.bindOk.mp packs.shape
    exact valid
  obtain ⟨ns,T,dims,small,describes,rounds,shape⟩ := describedShape packs.rank packs.nonneg valid packs.rounds
  refine ⟨ns,T,?_,dims,small,describes,rounds,?_⟩
  · have rank := packs.rank
    rwa [ValueType.rank,dims,wordsLength] at rank
  · exact Except.ok.inj (packs.shape.symm.trans shape)

end Layout

namespace Relayout

structure Between (g : Graph) (id : OpId) (v w : Value) : Prop where
  source : (g.op id).operands[0]? = some (some v)
  dest : (g.op id).operands[1]? = some (some w)
  buffer : (g.typeOf w).isTensor = false → (g.op id).results = []

structure Consistent (g : Graph) (id : OpId) : Prop where
  packs : (g.op id).kind = packKind → ∃ v w, Between g id v w ∧ (layoutOf (g.op id)).Packs (g.typeOf v) (g.typeOf w)
  unpacks : (g.op id).kind = unpackKind → ∃ v w, Between g id v w ∧ (layoutOf (g.op id)).Packs (g.typeOf w) (g.typeOf v)

end Relayout

open Relayout in
theorem Relayout.Between.conventional {g : Graph} {id v w} (kind : (g.op id).kind = packKind ∨ (g.op id).kind = unpackKind)
    (between : Between g id v w) (few : (g.op id).operands.length < wordBound)
    (fewResults : (g.op id).results.length < wordBound) (type : g.typeOf (.result id 0) = g.typeOf w) :
    g.Conventional id where
  few := few
  fewResults := fewResults
  buffers isCopy := by rcases kind with kind | kind <;> exact absurd (kind.symm.trans isCopy) (by decide)
  copied j i v at_ tensor copied declared := by
    rcases copied with ⟨structured,-⟩ | ⟨-,rfl,rfl⟩ | ⟨primitive,-⟩
    · rw [Structured.isStructured] at structured
      rcases kind with kind | kind <;> rw [kind] at structured <;> exact absurd structured (by decide)
    · cases between.dest.symm.trans at_
      exact type
    · rw [Primitive.isPrimitive,Operation.dialect] at primitive
      rcases kind with kind | kind <;> rw [kind] at primitive <;> exact absurd primitive (by decide)
  cast isCast := by rcases kind with kind | kind <;> exact absurd (kind.symm.trans isCast) (by decide)

namespace Eval

variable {α : Type} [Scalar α] {g : Graph} {id : OpId} {s t : Machine α}

structure Converting (g : Graph) (id : OpId) (v w : Value) : Prop where
  between : Relayout.Between g id v w
  tensor : (g.typeOf w).isTensor = true
  results : 0 < (g.op id).results.length ∧ (g.op id).results.length < wordBound
  hasSource : g.Has v
  hasDest : g.Has w

theorem Converting.converts {v w rank} {T : Tiling rank} (converting : Converting g id v w)
    (describes : (Relayout.layoutOf (g.op id)).Describes T) : Converts g id v w T :=
  ⟨converting.between.source,converting.between.dest,describes,fun _ => converting.results⟩

omit [Scalar α] in
theorem conversionReads {m : Ref → Ref → Exec α Unit}
    (ok : (do let source ← value g (← operand g id 0)
              let dest ← output g id (← operand g id 1) 0
              m source dest) s = .ok () t) :
    ∃ v w r q, (g.op id).operands[0]? = some (some v) ∧ (g.op id).operands[1]? = some (some w) ∧
      s.env v = some r ∧ s.env w = some q := by
  obtain ⟨x,source,ok⟩ := read liftOk ok
  obtain ⟨r,⟨v,rfl,bound⟩,rest⟩ := read valueOk ok
  obtain ⟨y,dest,rest⟩ := read liftOk rest
  obtain ⟨_,_,ran,-⟩ := bindOk.mp rest
  obtain ⟨q,_,ran,-⟩ := bindOk.mp ran
  obtain ⟨⟨w,rfl,bound'⟩,rfl⟩ := valueOk.mp ran
  exact ⟨v,w,r,q,operandAtOk.mp source,operandAtOk.mp dest,bound,bound'⟩

theorem Converting.reads {v w : Value} (converting : Converting g id v w)
    (kind : (g.op id).kind = Relayout.packKind ∨ (g.op id).kind = Relayout.unpackKind) (ok : evalOp g id s = .ok () t) :
    ∃ r q, s.env v = some r ∧ s.env w = some q := by
  have found : ∃ v' w' r q, (g.op id).operands[0]? = some (some v') ∧ (g.op id).operands[1]? = some (some w') ∧
      s.env v' = some r ∧ s.env w' = some q := by
    rcases kind with kind | kind
    · rw [evalOpPack kind] at ok
      exact conversionReads ok
    · rw [evalOpUnpack kind] at ok
      exact conversionReads ok
  obtain ⟨_,_,r,q,source,dest,bound,bound'⟩ := found
  cases converting.between.source.symm.trans source
  cases converting.between.dest.symm.trans dest
  exact ⟨r,q,bound,bound'⟩

section Steps

variable {v w : Value} {ns : List Nat} {T : Tiling ns.length} (converting : Converting g id v w)
  (sane : Sane (InPlace g) (Fits g) s) (ok : evalOp g id s = .ok () t)

include converting sane ok

theorem Converting.arrays (kind : (g.op id).kind = Relayout.packKind ∨ (g.op id).kind = Relayout.unpackKind) :
    ∃ r q, s.env v = some r ∧ s.env w = some q ∧ r < s.memory.size ∧
      ((s.arrayAt r).type = g.typeOf v ∧ (s.arrayAt r).Counted) ∧
      ((s.arrayAt q).type = g.typeOf w ∧ (s.arrayAt q).Counted) ∧
      output g id (some w) 0 s = .ok s.memory.size (s.bindFresh (.result id 0) (s.arrayAt q)) := by
  obtain ⟨r,q,bound,bound'⟩ := converting.reads kind ok
  obtain ⟨fits,within⟩ := sane.fits bound
  exact ⟨r,q,bound,bound',within,fits converting.hasSource,(sane.fits bound').1 converting.hasDest,
    outputTensor (i := 0) converting.tensor bound' converting.results.1 converting.results.2⟩

theorem packStep (kind : (g.op id).kind = Relayout.packKind)
    (tiles : (Relayout.layoutOf (g.op id)).Tiles (g.typeOf v) (g.typeOf w) ns T) :
    (T.packed ns).prod < wordBound ∧ ∃ r, s.env v = some r ∧ (s.arrayAt r).type = g.typeOf v ∧ (s.arrayAt r).Full ns ∧
      t = s.bindFresh (.result id 0) ((s.arrayAt r).packed T ns (g.typeOf w)) := by
  obtain ⟨r,q,bound,bound',within,⟨type,counted⟩,⟨type',counted'⟩,out⟩ :=
    converting.arrays sane ok (.inl kind)
  have converts := converting.converts tiles.describes
  have new : (s.bindFresh (.result id 0) (s.arrayAt q)).arrayAt s.memory.size = s.arrayAt q := s.arrayAtNew
  obtain ⟨m,-,loop⟩ := evalPackLoop converts tiles.rank bound out
    (by rw [s.arrayAtOld within,ValueType.rank,type,tiles.flatDims,wordsLength])
  rw [evalOpPack kind] at ok
  have full' : (s.arrayAt q).Full (T.packed ns) := by
    rw [loop,new,type',tiles.blockedDims] at ok
    rw [← new]
    exact (packLoopOk tiles.rounds (by simp) (new.symm ▸ counted') (by rw [new,type',tiles.blockedDims]) ok).2
  have full := counted.full (by rw [type,tiles.flatDims]) tiles.small
    ((T.flatProduct rfl).trans_lt full'.fits)
  have run := evalPackRun converts tiles.rank rfl tiles.rounds bound bound'
    (fun place => absurd converting.tensor (by rw [place]; decide)) full full'
  rw [ok,Machine.delivered,if_pos converting.tensor,type'] at run
  cases run
  exact ⟨full'.fits,r,bound,type,full,rfl⟩

theorem unpackBinds (kind : (g.op id).kind = Relayout.unpackKind)
    (tiles : (Relayout.layoutOf (g.op id)).Tiles (g.typeOf w) (g.typeOf v) ns T) :
    ns.prod < wordBound ∧ ∃ r b, s.env v = some r ∧ t = s.bindFresh (.result id 0) b := by
  obtain ⟨r,q,bound,bound',within,⟨type,-⟩,⟨type',counted'⟩,out⟩ := converting.arrays sane ok (.inr kind)
  have converts := converting.converts tiles.describes
  have new : (s.bindFresh (.result id 0) (s.arrayAt q)).arrayAt s.memory.size = s.arrayAt q := s.arrayAtNew
  obtain ⟨m,map,loop⟩ := evalUnpackLoop converts tiles.rank bound out
    (by rw [new,ValueType.rank,type',tiles.flatDims,wordsLength])
  rw [evalOpUnpack kind,loop,s.arrayAtOld within,type,tiles.blockedDims] at ok
  obtain ⟨⟨b,rfl,-⟩,full⟩ := unpackLoopOk tiles.rounds (by simp) (new.symm ▸ counted') map rfl tiles.small
    (by rw [new,type',tiles.flatDims]) ok
  exact ⟨full.fits,r,b,bound,s.withArrayFresh _ _ b⟩

theorem unpackStep (kind : (g.op id).kind = Relayout.unpackKind)
    (tiles : (Relayout.layoutOf (g.op id)).Tiles (g.typeOf w) (g.typeOf v) ns T)
    (fits : ns.prod < wordBound → (T.packed ns).prod < wordBound) :
    ∃ r, s.env v = some r ∧ (s.arrayAt r).type = g.typeOf v ∧ (s.arrayAt r).Full (T.packed ns) ∧
      t = s.bindFresh (.result id 0) ((s.arrayAt r).unpacked T ns (g.typeOf w)) := by
  have within := (unpackBinds converting sane ok kind tiles).1
  obtain ⟨r,q,bound,bound',-,⟨type,counted⟩,⟨type',counted'⟩,-⟩ := converting.arrays sane ok (.inr kind)
  have converts := converting.converts tiles.describes
  have full := counted.full (by rw [type,tiles.blockedDims]) (T.packedSmall tiles.rounds) (fits within)
  have full' := counted'.full (by rw [type',tiles.flatDims]) tiles.small within
  have run := evalUnpackRun converts tiles.rank rfl tiles.rounds bound bound'
    (fun place => absurd converting.tensor (by rw [place]; decide)) full full'
  rw [← evalOpUnpack kind,ok,Machine.delivered,if_pos converting.tensor,type'] at run
  cases run
  exact ⟨r,bound,type,full,rfl⟩

end Steps

def Undoes (α : Type) [Scalar α] (g : Graph) (j : OpId) (i : Nat) (id : OpId) (a : Value) : Prop :=
  ∀ u u' : Machine α, Sane (InPlace g) (Fits g) u → evalOp g j u = .ok () u' →
    ∃ r x, u.env a = some r ∧ u' = u.bindFresh (.result j 0) x ∧
      ∀ s t, Sane (InPlace g) (Fits g) s → (∀ q, s.env (.result j i) = some q → i = 0 ∧ s.arrayAt q = x) →
        evalOp g id s = .ok () t → t = s.bindFresh (.result id 0) (u.arrayAt r)

section Inverse

variable {j : OpId} {i : Nat} {a w w' : Value} {ns : List Nat} {T : Tiling ns.length}
  (first : Converting g j a w) (second : Converting g id (.result j i) w')
  (types : i = 0 → g.typeOf (.result j i) = g.typeOf w) (type : g.typeOf a = g.typeOf w')
  (layouts : Relayout.layoutOf (g.op id) = Relayout.layoutOf (g.op j))

include first second types type layouts

theorem unpackUndoesPack (kind : (g.op j).kind = Relayout.packKind) (kind' : (g.op id).kind = Relayout.unpackKind)
    (tiles : (Relayout.layoutOf (g.op j)).Tiles (g.typeOf a) (g.typeOf w) ns T) : Undoes α g j i id a := by
  intro u u' sane ok
  obtain ⟨fits,r,bound,typeA,full,rfl⟩ := packStep first sane ok kind tiles
  refine ⟨r,_,bound,rfl,fun s t sane reads ok => ?_⟩
  have zero : i = 0 := by
    obtain ⟨q,_,found,-⟩ := second.reads (.inr kind') ok
    exact (reads q found).1
  have tiles' : (Relayout.layoutOf (g.op id)).Tiles (g.typeOf w') (g.typeOf (.result j i)) ns T := by
    rw [layouts,← type,types zero]
    exact tiles
  obtain ⟨q,found,-,-,rfl⟩ := unpackStep second sane ok kind' tiles' fun _ => fits
  rw [(reads q found).2,← type,← typeA,NdArray.unpackedPacked rfl full]

theorem packUndoesUnpack (kind : (g.op j).kind = Relayout.unpackKind) (kind' : (g.op id).kind = Relayout.packKind)
    (tiles : (Relayout.layoutOf (g.op j)).Tiles (g.typeOf w) (g.typeOf a) ns T) (divides : i = 0 → T.Divides ns) :
    Undoes α g j i id a := by
  intro u u' sane ok
  by_cases zero : i = 0
  swap
  · obtain ⟨-,r,b,bound,rfl⟩ := unpackBinds first sane ok kind tiles
    refine ⟨r,b,bound,rfl,fun s t sane reads ok => ?_⟩
    obtain ⟨q,_,found,-⟩ := second.reads (.inl kind') ok
    exact absurd (reads q found).1 zero
  obtain ⟨r,bound,typeA,full,rfl⟩ := unpackStep first sane ok kind tiles fun fits =>
    T.packedProduct rfl (divides zero) ▸ fits
  refine ⟨r,_,bound,rfl,fun s t sane reads ok => ?_⟩
  have tiles' : (Relayout.layoutOf (g.op id)).Tiles (g.typeOf (.result j i)) (g.typeOf w') ns T := by
    rw [layouts,← type,types zero]
    exact tiles
  obtain ⟨-,q,found,-,-,rfl⟩ := packStep second sane ok kind' tiles'
  rw [(reads q found).2,NdArray.packedUnpacked]
  refine congrArg (s.bindFresh (.result id 0)) ?_
  refine Eq.trans (NdArray.tabulateCongr fun y inside => ?_) (type ▸ typeA ▸ full.eqTabulate.symm)
  rw [if_pos (T.flatInside rfl (divides zero) inside)]

end Inverse

section Alias

variable {a : Value} {n : Nat} {W : Value → Prop} {F : Value → ValueType → Nat → Prop} {p : Pairing} {s' : Machine α}

omit [Scalar α] in
theorem Agree.alias (agree : Agree (View.before id [a] n W F) p s s') (settled : Settled (View.before id [a] n W F) p s)
    (free : ¬ W a) (freeResult : ¬ W (.result id 0)) (below : a.Below n) (other : ∀ i, a ≠ .result id i)
    (unbound : ∀ i, s.env (.result id i) = none) {r} (found : s.env a = some r)
    (fits : F (.result id 0) (s.arrayAt r).type (s.arrayAt r).data.size) :
    ∃ q, Agree (View.after id [a] n W F) q (s.bindFresh (.result id 0) (s.arrayAt r)) s' ∧
      Settled (View.after id [a] n W F) q (s.bindFresh (.result id 0) (s.arrayAt r)) ∧
      ∀ r r', p.same r r' → q.same r r' := by
  obtain ⟨-,r',found',same,-⟩ := agree.env a r ⟨below,other⟩ found
  change s'.env (renameFrom id 0 [a] a) = some r' at found'
  rw [renameFromOther other] at found'
  obtain ⟨-,valid',contents⟩ := agree.valid r r' same
  /- No value is written through the array of `a`, so nobody owns it. -/
  have unowned (q : Ref) (own : p.own q r') : False := by
    obtain rfl := ((agree.owned q r' own).2 r r' same).mpr rfl
    obtain ⟨v,writable,found''⟩ := settled.own r r' own
    exact free (settled.apart a v r free found found'' ▸ writable)
  have old {q : Ref} (within : q < s.memory.size) : (s.bindFresh (.result id 0) (s.arrayAt r)).arrayAt q = s.arrayAt q :=
    s.arrayAtOld within
  have grown {q : Ref} (within : q < s.memory.size) : q < (s.bindFresh (.result id 0) (s.arrayAt r)).memory.size := by
    rw [s.bindFreshSize]
    exact Nat.lt_succ_of_lt within
  have env (v : Value) (q : Ref) (found : (s.bindFresh (.result id 0) (s.arrayAt r)).env v = some q) :
      v = .result id 0 ∧ q = s.memory.size ∨ (∀ i, v ≠ .result id i) ∧ s.env v = some q := by
    rw [s.bindFreshEnv] at found
    by_cases here : v = .result id 0
    · rw [if_pos here] at found
      exact .inl ⟨here,(Option.some.inj found).symm⟩
    · rw [if_neg here] at found
      refine .inr ⟨fun i eq => ?_,found⟩
      rw [eq,unbound i] at found
      cases found
  refine ⟨⟨fun q q' => p.same q q' ∨ q = s.memory.size ∧ q' = r',p.own,p.holds,
    fun q t m => p.shape q t m ∨ q = s.memory.size ∧ t = (s.arrayAt r).type ∧ m = (s.arrayAt r).data.size⟩,
    ⟨?_,fun q q' own => ⟨.inl (agree.owned q q' own).1,?_⟩,?_,fun q v holds => absurd holds (settled.holds q v),?_⟩,
    ⟨settled.holds,?_,?_,?_⟩,fun _ _ => .inl⟩
  · rintro q q' (h | ⟨rfl,rfl⟩)
    · obtain ⟨hq,hq',equal⟩ := agree.valid q q' h
      exact ⟨grown hq,hq',by rw [old hq,equal]⟩
    · refine ⟨by simp,valid',?_⟩
      rw [s.arrayAtNew,contents]
  · rintro o o' (h | ⟨rfl,rfl⟩)
    · exact (agree.owned q q' own).2 o o' h
    · refine ⟨fun eq => ?_,fun eq => (unowned q (eq ▸ own)).elim⟩
      exact absurd (agree.valid q q' (agree.owned q q' own).1).1 (by rw [eq]; exact Nat.lt_irrefl _)
  · rintro q t m (h | ⟨rfl,rfl,rfl⟩)
    · obtain ⟨hq,shape⟩ := agree.shaped q t m h
      exact ⟨grown hq,by rw [old hq]; exact shape⟩
    · exact ⟨by simp,by rw [s.arrayAtNew]; exact ⟨rfl,rfl⟩⟩
  · intro v q live bound
    rcases env v q bound with ⟨rfl,rfl⟩ | ⟨apart,bound⟩
    · have renamed : renameFrom id 0 [a] (.result id 0) = a := if_pos ⟨rfl,Nat.le_refl 0⟩
      exact ⟨⟨_,_,.inr ⟨rfl,rfl,rfl⟩,fits⟩,r',(congrArg s'.env renamed).trans found',.inr ⟨rfl,rfl⟩,
        fun writable => absurd writable freeResult⟩
    · obtain ⟨⟨t,m,shape,fits⟩,q',bound',same,own⟩ := agree.env v q ⟨live,apart⟩ bound
      exact ⟨⟨t,m,.inl shape,fits⟩,q',bound',.inl same,own⟩
  · intro v q bound
    rcases env v q bound with ⟨-,rfl⟩ | ⟨-,bound⟩
    · simp
    · exact grown (settled.valid v q bound)
  · intro q q' own
    obtain ⟨v,writable,bound⟩ := settled.own q q' own
    have apart : v ≠ .result id 0 := fun eq => freeResult (eq ▸ writable)
    exact ⟨v,writable,by rw [s.bindFreshEnv,if_neg apart,bound]⟩
  · intro v w q free bound bound'
    rcases env v q bound with ⟨rfl,rfl⟩ | ⟨-,bound⟩ <;> rcases env w _ bound' with ⟨rfl,same⟩ | ⟨-,bound'⟩
    · rfl
    · exact absurd (settled.valid w _ bound') (Nat.lt_irrefl _)
    · exact absurd (same ▸ settled.valid v q bound) (Nat.lt_irrefl _)
    · exact settled.apart v w q free bound bound'

end Alias

section Anchor

variable {g' : Graph} {b : BlockId} {j : OpId} {a : Value} {memory : Array (NdArray α)} {args : List Ref}

def CountedArguments (memory : Array (NdArray α)) (args : List Ref) : Prop :=
  ∀ r ∈ args, (memory.getD r default).Counted

omit [Scalar α] in
theorem Started.fits (started : Started g memory args s) (counted : CountedArguments memory args) (v : Value) (r : Ref)
    (found : s.env v = some r) : Fits g v (s.arrayAt r).type (s.arrayAt r).data.size := by
  obtain ⟨k,q,-,at_,same,type,-⟩ := started.argument found
  have whole := counted q (mem_of_getElem? at_)
  rw [← same] at whole
  exact fun _ => ⟨type,whole⟩

theorem orderApart {left right post} (once : (left ++ j :: right ++ id :: post).Nodup) :
    (j ∉ right ∧ id ∉ right ∧ id ≠ j ∧ id ∉ left) ∧ ∀ k ∈ left, k ≠ j ∧ k ∉ right ∧ k ≠ id := by
  simp only [append_assoc,cons_append,nodup_append,nodup_cons,mem_append,mem_cons,
    not_or] at once
  grind

theorem Swap.reached {created vals F} (swap : Swap α g g' id b created vals)
    (suits : ∀ k ∈ (g.block body).ops, k ≠ id → Suits α (InPlace g) F g k) {left right post}
    (split : (g.block body).ops = left ++ j :: right ++ id :: post) {first : Machine α}
    (started : Started g memory args first)
    (fits : ∀ v r, first.env v = some r → F v (first.arrayAt r).type (first.arrayAt r).data.size)
    (ran : evalEach g (left ++ j :: right) first = .ok () s) : ∃ u u', Sane (InPlace g) F u ∧ Sane (InPlace g) F s ∧
      evalOp g j u = .ok () u' ∧ (∀ i, u.env (.result j i) = none) ∧ (∀ i, s.env (.result id i) = none) ∧
      (∀ i, s.env (.result j i) = u'.env (.result j i)) ∧
      (∀ i q, (g.typeOf (.result j i)).isTensor = true → u'.env (.result j i) = some q → s.arrayAt q = u'.arrayAt q) ∧
      ∀ a, some a ∈ (g.op j).operands → (g.typeOf a).isTensor = true → ∀ r, u.env a = some r →
        s.env a = some r ∧ s.arrayAt r = u.arrayAt r := by
  have once := Scope.body.once swap.formed
  rw [split] at once
  obtain ⟨⟨notRight,idRight,idOther,idLeft⟩,leftApart⟩ := orderApart once
  have whole : (g.block body).ops = left ++ j :: (right ++ id :: post) := by rw [split]; simp
  have free {v : Value} (tensor : (g.typeOf v).isTensor = true) : ¬ InPlace g v := fun place => by
    rw [InPlace,tensor] at place
    cases place
  have suitsLeft (k : OpId) (mem : k ∈ left) : Suits α (InPlace g) F g k :=
    suits k (whole ▸ mem_append_left _ mem) (leftApart k mem).2.2
  have suitsHere : Suits α (InPlace g) F g j :=
    suits j (whole ▸ mem_append_right _ (.head _)) idOther.symm
  have suitsRight (k : OpId) (mem : k ∈ right) : Suits α (InPlace g) F g k := by
    refine suits k ?_ fun same => idRight (same ▸ mem)
    rw [whole]
    exact mem_append_right _ (.tail _ (mem_append_left _ mem))
  have keptResult (i : Nat) (k : OpId) (mem : k ∈ right) (m : Nat) : (.result j i : Value) ≠ .result k m := fun same => by
    cases same
    exact notRight mem
  have sane : Sane (InPlace g) F first := started.sane (fun k writable => Bool.not_eq_false _ ▸ writable) fits
  obtain ⟨u,early,rest⟩ := evalEachAppend.mp ran
  obtain ⟨_,u',made,later⟩ := bindOk.mp rest
  obtain ⟨saneU,envU,-⟩ := evalEachFrame suitsLeft sane early
  obtain ⟨saneU',envU',contents⟩ := evalOpFrame suitsHere saneU made
  obtain ⟨saneS,env,keeps⟩ := evalEachFrame suitsRight saneU' later
  have unbound {k : OpId} (fresh : k ∉ left) (i : Nat) : u.env (.result k i) = none := by
    rw [envU _ fun l mem m same => fresh (by cases same; exact mem)]
    exact started.resultsUnbound k i
  refine ⟨u,u',saneU,saneS,made,unbound fun mem => (leftApart j mem).1 rfl,fun i => ?_,
    fun i => env _ (keptResult i),fun i q tensor bound => keeps _ q (free tensor) (keptResult i) bound,
    fun a used tensor r found => ?_⟩
  · have away {k : OpId} (other : id ≠ k) (m : Nat) : (.result id i : Value) ≠ .result k m := fun same => by
      cases same
      exact other rfl
    rw [env _ fun k mem => away fun same => idRight (same ▸ mem),envU' _ (away idOther),unbound idLeft]
  · /- Neither `j` nor anything between it and `id` computes the tensor again. -/
    have kept (k : OpId) (mem : k ∈ j :: right) (i : Nat) : a ≠ .result k i := fun same => by
      have early := leftApart k ((swap.operands whole used).2 k i same)
      exact (mem_cons.mp mem).elim early.1 early.2.1
    have later (k : OpId) (mem : k ∈ right) := kept k (.tail _ mem)
    have here : u'.env a = some r := (envU' a (kept j (.head _))).trans found
    exact ⟨(env a later).trans here,(keeps a r (free tensor) later here).trans (contents a r (free tensor) found)⟩

variable {i : Nat} (undoes : Undoes α g j i id a) (swap : Swap α g g' id b [] [a]) (counted : CountedArguments memory args)
  (suits : ∀ k ∈ (g.block body).ops, k ≠ id → Suits α (InPlace g) (Fits g) g k)
  (source : some a ∈ (g.op j).operands)
  (tensorA : (g.typeOf a).isTensor = true) (tensor : (g.typeOf (.result j 0)).isTensor = true)

include undoes swap counted suits source tensorA tensor

theorem Undoes.reached {left right post} (split : (g.block body).ops = left ++ j :: right ++ id :: post) {first}
    (started : Started g memory args first) (ran : evalEach g (left ++ j :: right) first = .ok () s)
    (ok : evalOp g id s = .ok () t) : ∃ r, s.env a = some r ∧ t = s.bindFresh (.result id 0) (s.arrayAt r) ∧
      Sane (InPlace g) (Fits g) s ∧ ∀ i, s.env (.result id i) = none := by
  obtain ⟨u,u',saneU,sane,made,unboundJ,unbound,env,keeps,kept⟩ :=
    swap.reached suits split started (started.fits counted) ran
  obtain ⟨r,x,found,rfl,undo⟩ := undoes u u' saneU made
  obtain ⟨foundA,arrayA⟩ := kept a source tensorA r found
  have reads (q : Ref) (found : s.env (.result j i) = some q) : i = 0 ∧ s.arrayAt q = x := by
    rw [env,u.bindFreshEnv] at found
    by_cases here : i = 0
    · subst here
      rw [if_pos rfl] at found
      cases found
      rw [keeps 0 _ tensor (by rw [u.bindFreshEnv,if_pos rfl]),u.arrayAtNew]
      exact ⟨rfl,rfl⟩
    · rw [if_neg fun eq => here (by cases eq; rfl),unboundJ] at found
      cases found
  exact ⟨r,foundA,arrayA ▸ undo s t sane reads ok,sane,unbound⟩

theorem Undoes.anchored (operand : some (.result j i) ∈ (g.op id).operands)
    (type : g.typeOf a = g.typeOf (.result id 0)) (has : g.Has a) :
    Swap.Anchored g g' id [] [a] (InPlace g) (Fits g) memory args := by
  intro pre post split first s started ran p s' t agree settled ok
  have inside := (swap.operands split operand).2 j i rfl
  obtain ⟨left,right,rfl⟩ := append_of_mem inside
  obtain ⟨r,found,rfl,sane,unbound⟩ :=
    undoes.reached swap counted suits source tensorA tensor split started ran ok
  have once := Scope.body.once swap.formed
  rw [split] at once
  obtain ⟨-,leftApart⟩ := orderApart once
  have whole : (g.block body).ops = left ++ j :: (right ++ id :: post) := by rw [split]; simp
  obtain ⟨below,origin⟩ := swap.operands whole source
  have free : ¬ InPlace g a := fun place => by rw [InPlace,tensorA] at place; cases place
  have freeResult : ¬ InPlace g (.result id 0) := fun place => free (by rw [InPlace,type]; exact place)
  have fits : Fits g (.result id 0) (s.arrayAt r).type (s.arrayAt r).data.size := fun _ => by
    rw [← type]
    exact (sane.fits found).1 has
  obtain ⟨q,agree,settled,more⟩ := agree.alias settled free freeResult below
    (fun i same => (leftApart id (origin id i same)).2.2 rfl) unbound found fits
  exact ⟨q,s',rfl,agree,settled,more⟩

end Anchor

/- What a run returns, and what it leaves in its arguments. -/
def ending (g : Graph) (data : List (Array α)) : Option (List (Array α) × List (Array α)) :=
  let memory := ((g.block body).args.zipWith (fun s a => (⟨s.type,a⟩ : NdArray α)) data).toArray
  let ended := run g memory (range data.length)
  ended.results.toOption.map fun xs => (xs.map (·.data),(ended.memory.toList.take data.length).map (·.data))

def beforeThen {β : Type} (seen : List (Array α) × List (Array α) → β) (change : Graph → Option Graph) (g : Graph)
    (data : List (Array α)) : Option (β × Option β) :=
  match g.verify, change g with
  | .ok _, some h => (ending g data).map fun e => (seen e,(ending h data).map seen)
  | _, _ => none

def returned (e : List (Array Int) × List (Array Int)) : List (Array Int) := e.1

end Eval

def Rule.committed (r : Rule) (id : OpId) (g : Graph) : Option Graph :=
  match r.draft ⟨r.name,id⟩ (.ofGraph g) with
  | .ok _ d => if (d.commit id).fault.isNone then some (d.commit id).graph else none
  | .error _ _ => none

theorem draftedOf (r : Rule) (id : OpId) (g : Graph) (ok : (match r.draft ⟨r.name,id⟩ (.ofGraph g) with
    | .ok _ _ => true
    | .error _ _ => false) = true) : ∃ d, r.draft ⟨r.name,id⟩ (.ofGraph g) = .ok () d := by
  cases found : r.draft ⟨r.name,id⟩ (.ofGraph g) with
  | ok _ d => exact ⟨d,rfl⟩
  | error _ _ =>
    rw [found] at ok
    cases ok

namespace Propagation

open Eval Relayout

def Folds (g : Graph) (id : OpId) (r : Rule) : Prop :=
  r = foldUnpackOfPack ∨ r = foldPackOfUnpack ∧ ∀ v, (g.op id).operands[0]? = some (some v) →
    (layoutOf (g.op id)).divides (g.typeOf v).dims = .ok true

variable {α : Type} [Scalar α] {g : Graph} {r : Rule} {id : OpId} {d : Draft}

variable (α) in
theorem foldDrafts (formed : g.WellFormed) (mem : id ∈ g.walkAll) (kind : (g.op id).kind = r.root)
    (folds : Folds g id r) (drafted : r.draft ⟨r.name,id⟩ (.ofGraph g) = .ok () d) : ∃ b j i a,
      (d.commit id).fault = none ∧ Swap α g (d.commit id).graph id b [] [a] ∧ (g.op id).results ≠ [] ∧
      (g.op id).operands[0]? = some (some (.result j i)) ∧ (g.op j).operands[0]? = some (some a) ∧
      layoutOf (g.op id) = layoutOf (g.op j) ∧ g.typeOf a = g.typeOf (.result id 0) ∧
      ((g.op j).kind = packKind ∧ (g.op id).kind = unpackKind ∨ (g.op j).kind = unpackKind ∧ (g.op id).kind = packKind ∧
        (layoutOf (g.op id)).divides (g.typeOf (.result j i)).dims = .ok true) := by
  have sight := formed.sightOf mem
  have shape : ∃ producer name, foldWith ⟨r.name,id⟩ producer name (.ofGraph g) = .ok () d ∧
      ∀ v j, producer g v = .ok (some j) → (g.op id).operands[0]? = some v → ∃ i, v = some (.result j i) ∧
        ((g.op j).kind = packKind ∧ (g.op id).kind = unpackKind ∨ (g.op j).kind = unpackKind ∧
          (g.op id).kind = packKind ∧ (layoutOf (g.op id)).divides (g.typeOf (.result j i)).dims = .ok true) := by
    rcases folds with rfl | ⟨rfl,divides⟩
    · refine ⟨_,_,drafted,fun v j found _ => ?_⟩
      obtain ⟨⟨i,rfl⟩,isPack⟩ := packOfOk found
      exact ⟨i,rfl,.inl ⟨of_decide_eq_true isPack,kind⟩⟩
    · refine ⟨_,_,drafted,fun v j found at_ => ?_⟩
      obtain ⟨⟨i,rfl⟩,isUnpack⟩ := unpackOfOk found
      exact ⟨i,rfl,.inr ⟨of_decide_eq_true isUnpack,kind,divides _ at_⟩⟩
  obtain ⟨producer,name,fold,produces⟩ := shape
  obtain ⟨j,v,a,results,found,producing,layouts,source,types,replace⟩ := foldWithOk fold
  obtain ⟨i,rfl,kinds⟩ := produces v j producing found
  have visible := sight.closed j i (sight.operands _ (mem_of_getElem? found)) _ (mem_of_getElem? source)
  obtain ⟨vals,ready⟩ := (Staged.start g id (g.Seen id)).replace sight
    (fun u mem => .inl (mem_singleton.mp mem ▸ visible)) replace
  obtain ⟨_,-,-,made⟩ := Draft.replaceOk replace
  obtain rfl : vals = [a] := ready.values (by rw [made]; rfl)
  have outer : OuterKind (g.op id).kind := by
    rcases kinds with ⟨-,kind⟩ | ⟨-,kind,-⟩ <;> rw [kind] <;> decide
  have graph : d.graph = g.pushAll [] := by rw [made]; rfl
  obtain ⟨fault,b,swap,-⟩ := Swap.ofPushed (α := α) ready formed mem (.inl rfl) outer graph (by rw [made]; rfl) nofun
  exact ⟨b,j,i,a,fault,swap,results,found,source,layouts,types,kinds⟩

section Pairs

variable (formed : g.WellFormed) (conventional : ∀ j ∈ (g.block body).ops, g.Conventional j)
  (consistent : ∀ j ∈ (g.block body).ops, Consistent g j)

include formed in
theorem operandsHas {j} (mem : j ∈ (g.block body).ops) {v} (used : some v ∈ (g.op j).operands) : g.Has v := by
  obtain ⟨_,place⟩ := Scope.body.place mem
  exact place.uses formed used

include formed conventional

theorem conversionGives {j} (mem : j ∈ (g.block body).ops)
    (kind : (g.op j).kind = packKind ∨ (g.op j).kind = unpackKind) {v w} (between : Between g j v w) {i}
    (has : g.Has (.result j i)) : Converting g j v w ∧ g.typeOf (.result j 0) = g.typeOf w := by
  have some : 0 < (g.op j).results.length := (Nat.zero_le i).trans_lt has
  have tensor : (g.typeOf w).isTensor = true := by
    by_contra buffer
    rw [between.buffer (Bool.eq_false_iff.mpr buffer)] at some
    exact Nat.lt_irrefl 0 some
  refine ⟨⟨between,tensor,⟨some,(conventional j mem).fewResults⟩,?_,?_⟩,?_⟩
  · exact operandsHas formed mem (mem_of_getElem? between.source)
  · exact operandsHas formed mem (mem_of_getElem? between.dest)
  · exact (conventional j mem).copied 1 0 w between.dest tensor (.inr (.inl ⟨kind,rfl,rfl⟩)) some

include consistent

variable (α) in
theorem foldUndoes {j i a} (mem : j ∈ (g.block body).ops) (mem' : id ∈ (g.block body).ops)
    (results : (g.op id).results ≠ []) (found : (g.op id).operands[0]? = some (some (.result j i)))
    (source : (g.op j).operands[0]? = some (some a)) (layouts : layoutOf (g.op id) = layoutOf (g.op j))
    (types : g.typeOf a = g.typeOf (.result id 0))
    (kinds : (g.op j).kind = packKind ∧ (g.op id).kind = unpackKind ∨ (g.op j).kind = unpackKind ∧
      (g.op id).kind = packKind ∧ (layoutOf (g.op id)).divides (g.typeOf (.result j i)).dims = .ok true) :
    Undoes α g j i id a ∧ (g.typeOf a).isTensor = true ∧ (g.typeOf (.result j 0)).isTensor = true := by
  have has := operandsHas formed mem' (mem_of_getElem? found)
  have has' : g.Has (.result id 0) := length_pos_iff.mpr results
  rcases kinds with ⟨kind,kind'⟩ | ⟨kind,kind',divides⟩
  · obtain ⟨v,w,between,packs⟩ := (consistent j mem).packs kind
    cases source.symm.trans between.source
    obtain ⟨first,type⟩ := conversionGives formed conventional mem (.inl kind) between has
    obtain ⟨_,w',between',-⟩ := (consistent id mem').unpacks kind'
    cases found.symm.trans between'.source
    obtain ⟨second,type'⟩ := conversionGives formed conventional mem' (.inr kind') between' has'
    have same := types.trans type'
    obtain ⟨ns,T,tiles⟩ := packs.tiles
    exact ⟨unpackUndoesPack first second (fun zero => zero ▸ type) same layouts kind kind' tiles,same ▸ second.tensor,
      type ▸ first.tensor⟩
  · obtain ⟨v,w,between,packs⟩ := (consistent j mem).unpacks kind
    cases source.symm.trans between.source
    obtain ⟨first,type⟩ := conversionGives formed conventional mem (.inr kind) between has
    obtain ⟨_,w',between',-⟩ := (consistent id mem').packs kind'
    cases found.symm.trans between'.source
    obtain ⟨second,type'⟩ := conversionGives formed conventional mem' (.inl kind') between' has'
    have same := types.trans type'
    obtain ⟨ns,T,tiles⟩ := packs.tiles
    have whole (zero : i = 0) : T.Divides ns := by
      rw [layouts,zero,type,tiles.flatDims] at divides
      exact (tiles.describes.dividesIff (tiles.rank.trans_lt (by decide)) rfl tiles.small).mp divides
    exact ⟨packUndoesUnpack first second (fun zero => zero ▸ type) same layouts kind kind' tiles whole,
      same ▸ second.tensor,type ▸ first.tensor⟩

theorem pairFolded (folds : Folds g id r) (mem : id ∈ g.walkAll) (kind : (g.op id).kind = r.root)
    (drafted : r.draft ⟨r.name,id⟩ (.ofGraph g) = .ok () d) {memory : Array (NdArray α)} {args : List Ref}
    (valid : ∀ r ∈ args, r < memory.size) (counted : CountedArguments memory args) :
    RefinesBy g d id memory args := by
  obtain ⟨b,j,i,a,whole,swap,results,found,source,layouts,types,kinds⟩ :=
    foldDrafts α formed mem kind folds drafted
  have suits (k : OpId) (mem : k ∈ (g.block Graph.body).ops) (_ : k ≠ id) : Suits α (InPlace g) (Fits g) g k :=
    (conventional k mem).suits fun v used => operandsHas formed mem used
  refine ⟨whole,swap.refines valid suits (fun k writable => Bool.not_eq_false _ ▸ writable)
    (fun s started => started.fits counted) fun pre post split => ?_⟩
  have here : id ∈ (g.block Graph.body).ops := split ▸ List.mem_append_right _ (.head _)
  have early := (swap.operands split (List.mem_of_getElem? found)).2 j i rfl
  have inside : j ∈ (g.block Graph.body).ops := split ▸ List.mem_append_left _ early
  obtain ⟨undoes,tensorA,tensor⟩ :=
    foldUndoes α formed conventional consistent inside here results found source layouts types kinds
  exact undoes.anchored swap counted suits (List.mem_of_getElem? source) tensorA tensor (List.mem_of_getElem? found) types
    (operandsHas formed inside (List.mem_of_getElem? source)) pre post split

omit formed in
/-- A fold that is drafted is committed, and the function does what it did. -/
theorem foldRefines (ok : g.verify = .ok ()) (once : g.walkAll.Nodup) (folds : Folds g id r) (mem : id ∈ g.walkAll)
    (kind : (g.op id).kind = r.root) (drafted : r.draft ⟨r.name, id⟩ (.ofGraph g) = .ok () d)
    {memory : Array (NdArray α)} {args : List Ref} (valid : ∀ r ∈ args, r < memory.size)
    (counted : CountedArguments memory args) :
    (d.commit id).fault = none ∧ Refines g (d.commit id).graph memory args :=
  pairFolded (Graph.wellFormedOfVerify ok once) conventional consistent folds mem kind drafted valid counted

end Pairs

def straight (args : List ValueType) (ops : List Operation) (listed : List OpId) : Graph :=
  ⟨"f",(ops.map fun o => { o with block := some body }).toArray,#[⟨args.map .ofType,listed,none⟩]⟩

def roundingUp : Graph :=
  straight [.tensor .f32 [3, 2], .tensor .f32 [2, 2, 2], .tensor .f32 [3, 2]]
    [convertOp packKind (some (.argument 0 0)) (some (.argument 0 1)) (.tensor .f32 [2, 2, 2]) ⟨[0],[1, 0],[2]⟩ .kept,
      convertOp unpackKind (some (.result 0 0)) (some (.argument 0 2)) (.tensor .f32 [3, 2]) ⟨[0],[1, 0],[2]⟩ .kept,
      ⟨Memory.returnKind,[some (.result 1 0)],[],OrderedMap.empty,none,none⟩] [0, 1, 2]

theorem foldRefinesRoundingUp : ∃ d, foldUnpackOfPack.draft ⟨foldUnpackOfPack.name, 1⟩ (.ofGraph roundingUp) = .ok () d ∧
    roundingUp.verify = .ok () ∧ roundingUp.walkAll.Nodup ∧ (d.commit 1).fault = none ∧
    Refines roundingUp (d.commit 1).graph
      #[(⟨.tensor .f32 [3, 2], #[1, 2, 3, 4, 5, 6]⟩ : NdArray Int), ⟨.tensor .f32 [2, 2, 2], Array.replicate 8 0⟩,
        ⟨.tensor .f32 [3, 2], Array.replicate 6 0⟩] [0, 1, 2] := by
  have ok : roundingUp.verify = .ok () := by decide +kernel
  have once : roundingUp.walkAll.Nodup := by decide +kernel
  obtain ⟨d,drafted⟩ := draftedOf foldUnpackOfPack 1 roundingUp (by decide +kernel)
  have packs : Layout.Packs ⟨[0],[1, 0],[2]⟩ (.tensor .f32 [3, 2]) (.tensor .f32 [2, 2, 2]) := by
    refine ⟨by decide +kernel,by simp [ValueType.tensor],?_,by decide +kernel⟩
    rintro (_ | _ | axis) ext tile he ht <;> simp_all [Layout.tileOf?,Layout.innerIndex?,ValueType.tensor]
    subst he ht
    decide
  have conventional : ∀ j ∈ (roundingUp.block Graph.body).ops, roundingUp.Conventional j := by
    intro j mem
    obtain rfl | rfl | rfl : j = 0 ∨ j = 1 ∨ j = 2 := by simpa using (show j ∈ [0, 1, 2] from mem)
    · exact Between.conventional (.inl rfl) ⟨rfl,rfl,fun buffer => by cases buffer⟩ (by decide) (by decide) (by decide)
    · exact Between.conventional (.inr rfl) ⟨rfl,rfl,fun buffer => by cases buffer⟩ (by decide) (by decide) (by decide)
    · exact ⟨⟨fun _ i _ _ _ _ => (absurd · i.not_lt_zero),fun isCast => absurd isCast (by decide)⟩,by decide,
        by decide,fun isCopy => absurd isCopy (by decide)⟩
  have consistent : ∀ j ∈ (roundingUp.block Graph.body).ops, Consistent roundingUp j := by
    intro j mem
    obtain rfl | rfl | rfl : j = 0 ∨ j = 1 ∨ j = 2 := by simpa using (show j ∈ [0, 1, 2] from mem)
    · exact ⟨fun _ => ⟨_,_,⟨rfl,rfl,fun buffer => by cases buffer⟩,packs⟩,fun kind => absurd kind (by decide)⟩
    · exact ⟨fun kind => absurd kind (by decide),fun _ => ⟨_,_,⟨rfl,rfl,fun buffer => by cases buffer⟩,packs⟩⟩
    · exact ⟨fun kind => absurd kind (by decide),fun kind => absurd kind (by decide)⟩
  have counted : CountedArguments #[(⟨.tensor .f32 [3, 2],#[1, 2, 3, 4, 5, 6]⟩ : NdArray Int),
      ⟨.tensor .f32 [2, 2, 2],Array.replicate 8 0⟩, ⟨.tensor .f32 [3, 2],Array.replicate 6 0⟩] [0, 1, 2] := by
    intro r mem
    obtain rfl | rfl | rfl : r = 0 ∨ r = 1 ∨ r = 2 := by simpa using mem
    all_goals exact ⟨by decide,by decide⟩
  exact ⟨d,drafted,ok,once,foldRefines conventional consistent ok once (.inl rfl) (by decide +kernel)
    (by decide +kernel) drafted (by decide) counted⟩

def tiled (kind : String) (source dest : Value) (results : List ValueType) (tile : Int64) : Operation :=
  ⟨kind,[some source, some dest],results.map .ofType,layoutAttrs (some [0]) none (some [tile]),none,none⟩

def plain (kind : String) (operands : List Value) (results : List ValueType) : Operation :=
  ⟨kind,operands.map some,results.map .ofType,Attributes.ofList [(Structured.numInputsAttr, .int 1)],none,none⟩

/-- Folds that change what is returned: of a tile that is not full; of more values than the type says; after a tensor
was copied onto; of a tensor that is computed again; of values that are not what they are declared to be, or were cast to
fewer elements; of an unpack into a buffer; with negative extents; and with extents that cannot be rounded up. -/
theorem foldsChange :
    beforeThen returned (foldPackOfUnpack.committed 1)
      (straight [.tensor .f32 [1, 2], .tensor .f32 [1], .tensor .f32 [1, 2]]
      [tiled unpackKind (.argument 0 0) (.argument 0 1) [.tensor .f32 [1]] 2,
        tiled packKind (.result 0 0) (.argument 0 2) [.tensor .f32 [1, 2]] 2,
        plain Memory.returnKind [.result 1 0] []] [0, 1, 2])
      [#[1, 2], #[0], #[0, 0]] = some ([#[1, 0]], some [#[1, 2]]) ∧
    beforeThen returned (foldUnpackOfPack.committed 1) (straight [.tensor .f32 [2], .tensor .f32 [1, 2], .tensor .f32 [2]]
      [tiled packKind (.argument 0 0) (.argument 0 1) [.tensor .f32 [1, 2]] 2,
        tiled unpackKind (.result 0 0) (.argument 0 2) [.tensor .f32 [2]] 2,
        plain Memory.returnKind [.result 1 0] []] [0, 1, 2])
      [#[1, 2, 3], #[0, 0], #[0, 0]] = some ([#[1, 2]], some [#[1, 2, 3]]) ∧
    beforeThen returned (foldUnpackOfPack.committed 2)
      (straight [.tensor .f32 [2], .buffer .f32 [2], .tensor .f32 [1, 2], .tensor .f32 [2]]
      [tiled packKind (.argument 0 0) (.argument 0 2) [.tensor .f32 [1, 2]] 2,
        plain Memory.copyKind [.argument 0 1, .argument 0 0] [],
        tiled unpackKind (.result 0 0) (.argument 0 3) [.tensor .f32 [2]] 2,
        plain Memory.returnKind [.result 2 0] []] [0, 1, 2, 3])
      [#[1, 2], #[3, 4], #[0, 0], #[0, 0]] = some ([#[1, 2]], some [#[3, 4]]) ∧
    beforeThen returned (foldUnpackOfPack.committed 3)
      (straight [.buffer .f32 [2], .scalar .f32, .tensor .f32 [2], .tensor .f32 [1, 2]]
      [plain Structured.copyKind [.argument 0 0, .argument 0 2] [.tensor .f32 [2]],
        tiled packKind (.result 0 0) (.argument 0 3) [.tensor .f32 [1, 2]] 2,
        plain Structured.fillKind [.argument 0 1, .argument 0 0] [],
        tiled unpackKind (.result 1 0) (.argument 0 2) [.tensor .f32 [2]] 2,
        plain Memory.returnKind [.result 3 0] []] [0, 1, 2, 0, 3, 4])
      [#[1, 2], #[9], #[0, 0], #[0, 0]] = some ([#[1, 2]], some [#[9, 9]]) ∧
    beforeThen returned (foldUnpackOfPack.committed 2) (straight [.tensor .f32 [4], .tensor .f32 [1, 2], .tensor .f32 [2]]
      [plain Structured.copyKind [.argument 0 0, .argument 0 0] [.tensor .f32 [2]],
        tiled packKind (.result 0 0) (.argument 0 1) [.tensor .f32 [1, 2]] 2,
        tiled unpackKind (.result 1 0) (.argument 0 2) [.tensor .f32 [2]] 2,
        plain Memory.returnKind [.result 2 0] []] [0, 1, 2, 3])
      [#[1, 2, 3, 4], #[0, 0], #[0, 0]] = some ([#[1, 2]], some [#[1, 2, 3, 4]]) ∧
    beforeThen returned (foldUnpackOfPack.committed 2) (straight [.tensor .f32 [4], .tensor .f32 [1, 2], .tensor .f32 [2]]
      [plain Memory.castKind [.argument 0 0] [.tensor .f32 [2]],
        tiled packKind (.result 0 0) (.argument 0 1) [.tensor .f32 [1, 2]] 2,
        tiled unpackKind (.result 1 0) (.argument 0 2) [.tensor .f32 [2]] 2,
        plain Memory.returnKind [.result 2 0] []] [0, 1, 2, 3])
      [#[1, 2, 3, 4], #[0, 0], #[0, 0]] = some ([#[1, 2]], some [#[1, 2, 3, 4]]) ∧
    beforeThen returned (foldUnpackOfPack.committed 1)
      (straight [.tensor .f32 [2], .buffer .f32 [2], .tensor .f32 [1, 2], .tensor .f32 [2]]
      [tiled packKind (.argument 0 0) (.argument 0 2) [.tensor .f32 [1, 2]] 2,
        tiled unpackKind (.result 0 0) (.argument 0 1) [.tensor .f32 [2]] 2,
        plain Structured.copyKind [.argument 0 1, .argument 0 3] [.tensor .f32 [2]],
        plain Memory.returnKind [.result 2 0] []] [0, 1, 2, 3])
      [#[1, 2], #[0, 0], #[0, 0], #[0, 0]] = some ([#[1, 2]], some [#[0, 0]]) ∧
    beforeThen returned (foldUnpackOfPack.committed 1) (straight
      [.tensor .f32 [-2, -2], .tensor .f32 [-2, -2, 1], .tensor .f32 [-2, -2]]
      [tiled packKind (.argument 0 0) (.argument 0 1) [.tensor .f32 [-2, -2, 1]] 1,
        tiled unpackKind (.result 0 0) (.argument 0 2) [.tensor .f32 [-2, -2]] 1,
        plain Memory.returnKind [.result 1 0] []] [0, 1, 2])
      [#[1, 2, 3, 4], #[0, 0, 0, 0], #[0, 0, 0, 0]] = some ([#[0, 0, 0, 0]], some [#[1, 2, 3, 4]]) ∧
    beforeThen returned (foldUnpackOfPack.committed 1)
      (straight [.tensor .f32 [5], .tensor .f32 [0, Int64.maxValue], .tensor .f32 [5]]
      [tiled packKind (.argument 0 0) (.argument 0 1) [.tensor .f32 [0, Int64.maxValue]] Int64.maxValue,
        tiled unpackKind (.result 0 0) (.argument 0 2) [.tensor .f32 [5]] Int64.maxValue,
        plain Memory.returnKind [.result 1 0] []] [0, 1, 2])
      [#[1, 2, 3, 4, 5], #[], #[0, 0, 0, 0, 0]] = some ([#[0, 0, 0, 0, 0]], some [#[1, 2, 3, 4, 5]]) := by
  refine ⟨?_,?_,?_,?_,?_,?_,?_,?_,?_⟩ <;> decide +kernel

end Propagation

end TileLower
