import TileLower.Proofs.Contractions

/-!
Operations on buffers that go from element to element, with a primitive in their place.
-/
namespace TileLower

open List Structured Outcome Step Primitive Box TileLower.AffineMap

namespace Eval

open Box (Inside grid)
open TileLower.AffineMap (minorOf)

variable {α : Type} [Scalar α] {g g' : Graph} {id : OpId} {b : BlockId} {s t u : Machine α} {r rz : Ref} {ns : List Nat}

/- Two loops that write each element of an array once. What a step does may depend on the element that it is about to write,
which is still what it was at the start. -/
theorem alongInPlace {f f' : List Nat → Exec α Unit} {is : List (List Nat)} (once : is.Nodup)
    (inside : ∀ i ∈ is, Inside i ns)
    (step : ∀ i ∈ is, ∀ a : NdArray α, a.Full ns → a.type = (s.arrayAt r).type →
      a.cell ns i = (s.arrayAt r).cell ns i → ∀ t, f i (s.withArray r a) = .ok () t →
      ∃ y, t = s.withArray r (a.put ns i y) ∧ f' i (s.withArray r a) = .ok () t) {a : NdArray α} (full : a.Full ns)
    (type : a.type = (s.arrayAt r).type) (ahead : ∀ i ∈ is, a.cell ns i = (s.arrayAt r).cell ns i)
    (ok : along is f (s.withArray r a) = .ok () t) : along is f' (s.withArray r a) = .ok () t := by
  induction is generalizing a with
  | nil => exact ok
  | cons i is ih =>
    obtain ⟨new,once⟩ := nodup_cons.mp once
    obtain ⟨here,inside⟩ := forall_mem_cons.mp inside
    obtain ⟨first,later⟩ := forall_mem_cons.mp step
    obtain ⟨same,ahead⟩ := forall_mem_cons.mp ahead
    obtain ⟨_,u,ran,rest⟩ := bindOk.mp ok
    obtain ⟨y,rfl,ran'⟩ := first a full type same u ran
    rw [along,bindOfOk ran']
    refine ih once inside later (full.put i y) type (fun j mem => ?_) rest
    rw [full.putCell here (inside j mem),if_neg (show j ≠ i from fun same => new (same ▸ mem)),ahead j mem]

section Reads

variable {m : AffineMap} {a : NdArray α} {i : List Nat}

def Trails (ns : List Nat) (m : AffineMap) (t : ValueType) : Prop :=
  ∃ rank ≤ ns.length, m = minorOf ns.length rank ∧ t.dims = words (ns.drop (ns.length - rank))

theorem replicatedInside (inside : Inside i ns) (small : Small ns) :
    (words i).zipWith (fun x d => if d = 1 then 0 else x) (words ns) = words i := by
  induction inside with
  | nil => rfl
  | @cons j n is ns below _ ih =>
    simp only [wordsCons,zipWith_cons_cons,ih small.tail]
    split
    · rename_i one
      have one : n = 1 := Word.ofNatInj small.head (by decide) one
      obtain rfl : j = 0 := by omega
      rfl
    · rfl

theorem Trails.index {t} (trails : Trails ns m t) (inside : Inside i ns) (small : Small ns)
    (few : ns.length < wordBound) : broadcastIndex t (words i) = m.eval (words i) := by
  obtain ⟨rank,le,rfl,dims⟩ := trails
  have length : i.length = ns.length := inside.length_eq
  have rest : Inside (i.drop (ns.length - rank)) (ns.drop (ns.length - rank)) := forall₂_drop _ inside
  have shorter : t.rank = rank := by simp [ValueType.rank,dims]; omega
  have some : ¬ (words i).length < t.rank := by rw [wordsLength,length,shorter]; omega
  rw [minorEval le few length,broadcastIndex,if_neg some,shorter,dims,wordsLength,length,
    show (words i).drop (ns.length - rank) = words (i.drop (ns.length - rank)) from map_drop.symm,
    replicatedInside rest fun n mem => small n (mem_of_mem_drop mem)]

omit [Scalar α] in
theorem broadcastAllReads {ins : List (AffineMap × Ref)} (trails : ∀ p ∈ ins, Trails ns p.1 (u.arrayAt p.2).type)
    (inside : Inside i ns) (small : Small ns) (few : ns.length < wordBound) {xs}
    (read : readAll (words i) (held u ins) = .ok xs) : broadcastAll (words i) (ins.map Prod.snd) u = .ok xs u := by
  induction ins generalizing xs with
  | nil =>
    cases read
    rfl
  | cons p ins ih =>
    obtain ⟨here,trails⟩ := forall_mem_cons.mp trails
    obtain ⟨k,at_,read⟩ := bindOk.mp read
    obtain ⟨x,got,read⟩ := bindOk.mp read
    obtain ⟨xs,later,read⟩ := bindOk.mp read
    cases read
    have one : broadcastAt p.2 (words i) u = .ok x u := by
      have run : broadcastAt p.2 (words i) u =
        ((lift (broadcastIndex (u.arrayAt p.2).type (words i)) : Exec α _) >>= fun idx => load p.2 idx) u := rfl
      rw [run,here.index inside small few,at_]
      exact liftOk.mpr ⟨got,rfl⟩
    rw [map_cons,broadcastAll,bindOfOk one,bindOfOk (ih trails later)]
    rfl

end Reads

def elementPoint (f : List α → Outcome α) (rs : List Ref) (rz : Ref) (idx : List Int64) : Exec α Unit := do
  let args ← broadcastAll idx rs
  store rz idx (← lift (f args))

section Nest

variable {ins : List (AffineMap × Ref)} {n : Nat} {i : List Nat}

theorem pointElement (few : ins.length + 1 < wordBound) (small : ns.length < wordBound)
    (length : i.length = ns.length)
    (ok : point g b (Int64.ofNat ins.length) (ins ++ [(minorOf ns.length ns.length, rz)]) (words i) u = .ok () t) :
    ∃ xs y, readAll (words i) (held u (ins ++ [(minorOf ns.length ns.length, rz)])) = .ok xs ∧
      evalBody g b xs = .ok [y] ∧ store rz (words i) y u = .ok () t := by
  have map : (minorOf ns.length ns.length).eval (words i) = .ok (words i) := by
    rw [minorEval (le_rfl) small length,Nat.sub_self]
    rfl
  obtain ⟨xs,vs,ys,read,kept,body,one,stored⟩ := (pointOk (by simpa using few)).mp ok
  obtain ⟨y,rfl⟩ := length_eq_one_iff.mp one
  simp only [zip_cons_cons,zip_nil_right,storeAll,map] at stored
  obtain ⟨_,same,stored⟩ := Step.read liftOk stored
  cases same
  obtain ⟨_,_,ran,stored⟩ := bindOk.mp stored
  cases stored
  refine ⟨xs ++ vs,y,?_,body,ran⟩
  rw [held,map_append]
  exact readAllAppend.mpr ⟨xs,vs,read,kept,rfl⟩

structure Laid (s : Machine α) (ns : List Nat) (ins : List (AffineMap × Ref)) (rz : Ref) : Prop where
  few : ins.length + 1 < wordBound
  loops : ns.length < wordBound
  small : Small ns
  trails : ∀ p ∈ ins ++ [(minorOf ns.length ns.length, rz)], Trails ns p.1 (s.arrayAt p.2).type
  counted : (s.arrayAt rz).Counted
  valid : rz < s.memory.size

def Computes (g : Graph) (b : BlockId) (s : Machine α) (ns : List Nat) (all : List (AffineMap × Ref))
    (f : List α → Outcome α) (ps : List (AffineMap × Ref)) : Prop :=
  ∀ (i : List Nat) (xs : List α) (y : α), Inside i ns → readAll (words i) (held s all) = .ok xs → evalBody g b xs = .ok [y] →
    ∃ args, readAll (words i) (held s ps) = .ok args ∧ f args = .ok y

namespace Laid

variable (laid : Laid s ns ins rz)

include laid

omit [Scalar α] in
theorem dims : (s.arrayAt rz).type.dims = words ns := by
  obtain ⟨rank,le,same,dims⟩ := laid.trails (_, rz) (mem_append_right _ (mem_singleton_self _))
  have all : rank = ns.length := by simpa [minorOf] using (congrArg (·.results.length) same).symm
  rw [dims,all,Nat.sub_self]
  rfl

omit [Scalar α] in
theorem whole {p : AffineMap × Ref} (mem : p ∈ ins ++ [(minorOf ns.length ns.length, rz)]) (same : p.2 = rz)
    (length : i.length = ns.length) : p.1.eval (words i) = .ok (words i) := by
  obtain ⟨rank,le,map,dims⟩ := laid.trails p mem
  rw [same,laid.dims] at dims
  have all : ns.length = rank := by
    have := congrArg List.length dims
    simp only [wordsLength,length_drop] at this
    omega
  rw [map,minorEval le laid.loops length,all,Nat.sub_self]
  rfl

omit [Scalar α] in
theorem kept {a : NdArray α} (type : a.type = (s.arrayAt rz).type) (r : Ref) :
    ((s.withArray rz a).arrayAt r).type = (s.arrayAt r).type := by
  rw [s.arrayAtWith a laid.valid]
  split
  · rename_i same
    rw [type,same]
  · rfl

/- As long as an element is not written, what is read there is what it was at the start. -/
theorem old {a : NdArray α} (full : (s.arrayAt rz).Full ns) (fullA : a.Full ns) (inside : Inside i ns)
    (still : a.cell ns i = (s.arrayAt rz).cell ns i) {ps}
    (among : ∀ p ∈ ps, p ∈ ins ++ [(minorOf ns.length ns.length, rz)]) :
    readAll (words i) (held (s.withArray rz a) ps) = readAll (words i) (held s ps) := by
  induction ps with
  | nil => rfl
  | cons p ps ih =>
    obtain ⟨here,among⟩ := forall_mem_cons.mp among
    have one : (do ((s.withArray rz a).arrayAt p.2).get (← p.1.eval (words i))) =
        (do (s.arrayAt p.2).get (← p.1.eval (words i)) : Outcome α) := by
      rw [s.arrayAtWith a laid.valid]
      split
      · rename_i same
        rw [laid.whole here same inside.length_eq,same,Outcome.bindOfOk,Outcome.bindOfOk,fullA.get inside,full.get inside,
          still]
      · rfl
    have split (u : Machine α) : readAll (words i) (held u (p :: ps)) =
        (do (u.arrayAt p.2).get (← p.1.eval (words i))) >>= fun x => readAll (words i) (held u ps) >>= fun xs => .ok (x :: xs) := by
      rw [bind_assoc]
      rfl
    rw [split,split,one,ih among]

theorem element {a : NdArray α} (full : (s.arrayAt rz).Full ns) (fullA : a.Full ns) (type : a.type = (s.arrayAt rz).type)
    (inside : Inside i ns) (still : a.cell ns i = (s.arrayAt rz).cell ns i) {ps : List (AffineMap × Ref)}
    (among : ∀ p ∈ ps, p ∈ ins ++ [(minorOf ns.length ns.length, rz)]) {args}
    (reads : readAll (words i) (held s ps) = .ok args) {f y} (computed : f args = .ok y) :
    elementPoint f (ps.map Prod.snd) rz (words i) (s.withArray rz a) = .ok () (s.withArray rz (a.put ns i y)) := by
  rw [← laid.old full fullA inside still among] at reads
  have spread := broadcastAllReads (fun p mem => by rw [laid.kept type]; exact laid.trails p (among p mem)) inside laid.small
    laid.loops reads
  rw [elementPoint,bindOfOk spread,computed]
  exact storeWith laid.valid fullA inside y

theorem follows {f : List α → Outcome α} {ps : List (AffineMap × Ref)}
    (among : ∀ p ∈ ps, p ∈ ins ++ [(minorOf ns.length ns.length, rz)])
    (computes : Computes g b s ns (ins ++ [(minorOf ns.length ns.length, rz)]) f ps)
    (ok : each (words ns) (point g b (Int64.ofNat ins.length) (ins ++ [(minorOf ns.length ns.length, rz)])) s =
      .ok () t) : each (words ns) (elementPoint f (ps.map Prod.snd) rz) s = .ok () t := by
  rw [eachAlong laid.small] at ok ⊢
  have inside (i : List Nat) (mem : i ∈ grid ns) : Inside i ns := memGrid.mp mem
  /- All indices are written, so that each has an element of its own. -/
  have full : (s.arrayAt rz).Full ns := by
    obtain ⟨-,steps⟩ := alongWrites (fun i mem u t ok => by
      obtain ⟨_,_,-,-,stored⟩ := pointElement laid.few laid.loops (inside i mem).length_eq ok
      exact storeWrites stored) laid.valid ok
    refine laid.counted.fullOfPlaces laid.dims laid.small fun i here => ?_
    obtain ⟨u,w,before,ran⟩ := steps i (memGrid.mpr here)
    obtain ⟨type,size,-⟩ := before.same laid.valid
    obtain ⟨_,_,-,-,stored⟩ := pointElement laid.few laid.loops here.length_eq ran
    obtain ⟨p,place,-⟩ := storeOk.mp stored
    exact ⟨_,p,type,size,place⟩
  rw [← s.withArraySelf rz] at ok ⊢
  refine alongInPlace (gridNodup ns) inside (fun i mem a fullA type still t ran => ?_) full rfl (fun _ _ => rfl) ok
  obtain ⟨xs,y,read,body,stored⟩ := pointElement laid.few laid.loops (inside i mem).length_eq ran
  rw [storeWith laid.valid fullA (inside i mem)] at stored
  cases stored
  rw [laid.old full fullA (inside i mem) still fun _ mem => mem] at read
  obtain ⟨args,reads,computed⟩ := computes i xs y (inside i mem) read body
  exact ⟨y,rfl,laid.element full fullA type (inside i mem) still among reads computed⟩

end Laid

end Nest

end Eval

namespace Graph

/-- Numbers of iterations that the operands of a generic operation agree on: an axis that is indexed by a loop is as long as
the loop. -/
structure Agrees (g : Graph) (id : OpId) (extents : List Int64) : Prop where
  few : extents.length < wordBound
  loops : ∀ m ∈ indexingMaps (g.op id), m.numDims = Int64.ofNat extents.length
  axes : ∀ p ∈ (indexingMaps (g.op id)).zip (g.op id).operands, ∀ v ∈ p.2,
    ∀ q ∈ p.1.results.zip (g.typeOf v).dims, ∀ pos, q.1 = .dim pos → entryAt extents pos = .ok q.2

end Graph

namespace Eval

open Box (Inside grid)
open TileLower.AffineMap (minorOf)

variable {α : Type} [Scalar α] {g : Graph} {id : OpId} {b : BlockId} {s t : Machine α} {vs : List Value} {z : Value}
  {ns : List Nat} {extents : List Int64}

theorem agreedExtents (agrees : g.Agrees id extents) (operands : (g.op id).operands = vs.map some) (present : vs ≠ [])
    {es} (ok : loopExtents g (Structured.indexingMaps (g.op id)) (vs.map some) = .ok es) :
    Forall₂ (fun m v => Along extents m.results (g.typeOf v).dims) (Structured.indexingMaps (g.op id)) vs ∧
      es = extents ∧ ∀ x ∈ extents, 0 ≤ x := by
  have axes := agrees.axes
  have loops := agrees.loops
  have ranks := loopExtentsRanks vs ok
  rw [operands] at axes
  generalize Structured.indexingMaps (g.op id) = maps at *
  have along : Forall₂ (fun m v => Along extents m.results (g.typeOf v).dims) maps vs := by
    refine forall₂_iff_zip.mpr ⟨ranks.length_eq,fun {m v} mem => forall₂_iff_zip.mpr ⟨?_,fun {e d} axis pos same => ?_⟩⟩
    · exact (forall₂_iff_zip.mp ranks).2 mem
    · refine axes (m, Option.some v) ?_ v rfl (e, d) axis pos same
      rw [zip_map_right]
      exact mem_map.mpr ⟨(m, v),mem,rfl⟩
  cases maps with
  | nil =>
    cases along
    exact absurd rfl present
  | cons m maps => exact ⟨along,loopExtentsAlong along (loops m (.head _)) agrees.few ok⟩

theorem alongMinor {rank} (le : rank ≤ ns.length) (few : ns.length < wordBound) {dims}
    (along : Along (words ns) (minorOf ns.length rank).results dims) : dims = words (ns.drop (ns.length - rank)) := by
  obtain ⟨length,each⟩ := forall₂_iff_zip.mp along
  have length : rank = dims.length := by simpa [minorOf] using length
  refine ext_getElem (by simp; omega) fun i h1 h2 => ?_
  have there : i < rank := by omega
  have pair : (Affine.Expr.dim (Int64.ofNat ns.length - Int64.ofNat rank + Int64.ofNat i), dims[i]) ∈
      (minorOf ns.length rank).results.zip dims :=
    mem_iff_getElem.mpr ⟨i,by simp [minorOf]; omega,by simp [minorOf]⟩
  have found := each pair _ rfl
  rw [Word.subWords le,Word.addWords,entryAtWords _ (by omega),ofOptionOk,wordsGet,
    getElem?_eq_getElem (by omega)] at found
  simpa [words] using (Option.some.inj found).symm

theorem trailsOf {m : AffineMap} {ty : ValueType} (few : ns.length < wordBound)
    (loops : m.numDims = Int64.ofNat ns.length) (along : Along (words ns) m.results ty.dims)
    (minor : m.isMinorIdentity = .ok true) : Trails ns m ty := by
  obtain ⟨n,rank,le,short,rfl⟩ := ofIsMinorIdentity minor
  obtain rfl : n = ns.length := Word.ofNatInj (short.trans_lt Word.limitSmall) few loops
  exact ⟨rank,le,rfl,alongMinor le few along⟩

omit [Scalar α] in
theorem trailsAll {maps : List AffineMap} {ws : List Value} {rs : List Ref} (few : ns.length < wordBound)
    (loops : ∀ m ∈ maps, m.numDims = Int64.ofNat ns.length) (minor : ∀ m ∈ maps, m.isMinorIdentity = .ok true)
    (along : Forall₂ (fun m v => Along (words ns) m.results (g.typeOf v).dims) maps ws)
    (types : ∀ v ∈ ws, ∀ r, s.env v = some r → (s.arrayAt r).type = g.typeOf v) (bound : ws.map s.env = rs.map some) :
    ∀ p ∈ maps.zip rs, Trails ns p.1 (s.arrayAt p.2).type := by
  induction along generalizing rs with
  | nil => exact nofun
  | cons here _ ih =>
    cases rs with
    | nil => cases bound
    | cons r rs =>
      obtain ⟨boundHere,bound⟩ := cons.inj bound
      obtain ⟨loop,loops⟩ := forall_mem_cons.mp loops
      obtain ⟨one,minor⟩ := forall_mem_cons.mp minor
      obtain ⟨type,types⟩ := forall_mem_cons.mp types
      refine forall_mem_cons.mpr ⟨?_,ih loops minor types bound⟩
      rw [type r boundHere]
      exact trailsOf few loop here one

theorem structuredLaid (generic : (g.op id).kind = Structured.genericKind) (agrees : g.Agrees id extents)
    (operands : (g.op id).operands = (vs ++ [z]).map some)
    (inputs : Structured.numInputs (g.op id) = Int64.ofNat vs.length) (few : vs.length + 1 < wordBound)
    (places : ∀ v ∈ vs ++ [z], (g.typeOf v).isTensor = false)
    (minor : ∀ m ∈ Structured.indexingMaps (g.op id), m.isMinorIdentity = .ok true)
    (identity : ∀ m, (Structured.indexingMaps (g.op id))[vs.length]? = some m → m.isIdentity = .ok true)
    (fits : ∀ v ∈ vs ++ [z], ∀ r, s.env v = some r → (s.arrayAt r).type = g.typeOf v ∧ (s.arrayAt r).Counted ∧
      r < s.memory.size) (ok : structured g id s = .ok () t) :
    ∃ b ns ins rz, (g.op id).region = some b ∧ vs.map s.env = (ins.map Prod.snd).map some ∧ s.env z = some rz ∧
      Laid s ns ins rz ∧ Box.each (words ns) (point g b (Int64.ofNat ins.length)
      (ins ++ [(minorOf ns.length ns.length, rz)])) s = .ok () t := by
  obtain ⟨maps,b,es,rs,indexing,region,ok,bound,points⟩ := structuredPlace places operands ok
  rw [indexingMaps,if_pos generic] at indexing
  cases indexing
  obtain ⟨along,rfl,nonneg⟩ := agreedExtents agrees operands (by simp) ok
  obtain ⟨ns,small,rfl⟩ := wordsOfNonneg nonneg
  have loops := agrees.loops
  have few' : ns.length < wordBound := by simpa using agrees.few
  rw [wordsLength] at loops
  generalize Structured.indexingMaps (g.op id) = maps at *
  have trails := trailsAll few' loops minor along (fun v mem r found => (fits v mem r found).1) bound
  obtain ⟨ms,mz,rfl⟩ : ∃ ms mz, maps = ms ++ [mz] := by
    refine (eq_nil_or_concat' maps).resolve_left fun none => ?_
    rw [none] at along
    simpa using along.length_eq
  rw [map_append] at bound
  obtain ⟨rs,qs,rfl,boundIns,boundOut⟩ := map_eq_append_iff.mp bound.symm
  obtain ⟨rz,rfl,boundZ⟩ := map_eq_singleton_iff.mp boundOut
  have lengthMaps : ms.length = vs.length := by simpa using along.length_eq
  have lengthRefs : rs.length = vs.length := by simpa using congrArg List.length boundIns
  have lengthIns : (ms.zip rs).length = vs.length := by simp [lengthMaps,lengthRefs]
  obtain rfl : mz = minorOf ns.length ns.length := by
    obtain ⟨n,short,rfl⟩ := AffineMap.ofIsIdentity (identity mz (by simp [← lengthMaps]))
    rw [Word.ofNatInj (short.trans_lt Word.limitSmall) few' (loops (minorOf n n) (by simp))]
  rw [zip_append (lengthMaps.trans lengthRefs.symm)] at points trails
  rw [inputs,← lengthIns] at points
  obtain ⟨-,counted,valid⟩ := fits z (by simp) rz boundZ.symm
  refine ⟨b,ns,ms.zip rs,rz,region,?_,boundZ.symm,?_,points⟩
  · rw [map_snd_zip (by omega),boundIns]
  · exact ⟨by rw [lengthIns]; exact few,few',small,trails,counted,valid⟩

def elementOf? (kind : String) : Option (List α → Outcome α) :=
  if kind = identityKind then some identityOf
  else if kind = reluKind then some reluOf
  else if kind = addKind then some sumOf
  else none

theorem elementwiseRun {p f} {rs : List Ref} {q} (verified : verify g (g.op p) = .ok ())
    (known : elementOf? (g.op p).kind = some f) (operands : (g.op p).operands = vs.map some ++ [some z])
    (bound : vs.map s.env = rs.map some) (out : output g p (some z) 0 s = .ok q t) :
    primitive g p s = each (t.arrayAt q).type.dims (elementPoint f rs q) t := by
  have run : elementwise g p f s = each (t.arrayAt q).type.dims (elementPoint f rs q) t := by
    rw [elementwise,bindOfOk (primitiveArraysRun operands bound out)]
    rfl
  rw [← run,primitive,verified]
  refine (bindOfOk (x := lift _) rfl _).trans ?_
  unfold elementOf? at known
  split at known
  · rename_i kind
    cases known
    rw [if_pos kind]
  · rename_i notIdentity
    rw [if_neg notIdentity]
    split at known
    · rename_i kind
      cases known
      rw [if_pos kind]
    · rename_i notRelu
      rw [if_neg notRelu]
      split at known
      · rename_i kind
        cases known
        rw [if_pos kind]
      · cases known

end Eval

end TileLower
