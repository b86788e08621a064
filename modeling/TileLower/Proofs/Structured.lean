import TileLower.Proofs.Nests

/-!
Structured operations on tensors: what such an operation leaves in a machine, given the folds of its nest.
-/
namespace TileLower.Eval

open Outcome List Int64

open Box (Inside grid)

variable {α : Type}

namespace Machine

theorem extArrays {s t : Machine α} (env : s.env = t.env) (size : s.memory.size = t.memory.size)
    (arrays : ∀ r, s.arrayAt r = t.arrayAt r) : s = t := by
  cases s with
  | mk memory env' =>
    cases t with
    | mk memory' env'' =>
      cases env
      have same : memory = memory' := by
        refine Array.ext size fun i h1 h2 => ?_
        simpa [arrayAt,Array.getD,h1,h2] using arrays i
      rw [same]

def bindAll (s : Machine α) (id : OpId) : Nat → List (NdArray α) → Machine α
  | _, [] => s
  | j, a :: as => (s.bindFresh (.result id j) a).bindAll id (j + 1) as

theorem bindAllSize (s : Machine α) (id : OpId) (j : Nat) (as : List (NdArray α)) :
    (s.bindAll id j as).memory.size = s.memory.size + as.length := by
  induction as generalizing s j with
  | nil => rfl
  | cons a as ih =>
    rw [bindAll,ih,bindFreshSize,length_cons]
    omega

theorem bindAllOld {s : Machine α} {r} (old : r < s.memory.size) (id : OpId) (j : Nat) (as : List (NdArray α)) :
    (s.bindAll id j as).arrayAt r = s.arrayAt r := by
  induction as generalizing s j with
  | nil => rfl
  | cons a as ih =>
    rw [bindAll,ih (by simpa using Nat.lt_succ_of_lt old),arrayAtFresh,if_neg (old.ne)]

theorem bindAllNew (s : Machine α) (id : OpId) (j : Nat) (as : List (NdArray α)) (i : Nat) :
    (s.bindAll id j as).arrayAt (s.memory.size + i) = as.getD i default := by
  induction as generalizing s j i with
  | nil => simp [bindAll,arrayAt,Array.getD]
  | cons a as ih =>
    cases i with
    | zero =>
      rw [bindAll,bindAllOld (by simp),arrayAtFresh]
      simp
    | succ i =>
      have later := ih (s.bindFresh (.result id j) a) (j + 1) i
      rw [bindFreshSize,Nat.add_assoc,Nat.add_comm 1 i] at later
      rw [bindAll,later]
      rfl

theorem bindAllOther {v id j} {as : List (NdArray α)} (other : ∀ i, j ≤ i → i < j + as.length → v ≠ .result id i)
    (s : Machine α) :
    (s.bindAll id j as).env v = s.env v := by
  induction as generalizing s j with
  | nil => rfl
  | cons a as ih =>
    rw [length_cons] at other
    rw [bindAll,ih (fun i le lt => other i (by omega) (by omega)),bindFreshEnv,
      if_neg (other j (le_refl j) (by omega))]

theorem bindAllResult (s : Machine α) (id : OpId) (j : Nat) {as : List (NdArray α)} {i} (within : i < as.length) :
    (s.bindAll id j as).env (.result id (j + i)) = some (s.memory.size + i) := by
  induction as generalizing s j i with
  | nil => simp at within
  | cons a as ih =>
    cases i with
    | zero =>
      rw [bindAll,bindAllOther (fun i le _ => by simp; omega)]
      simp
    | succ i =>
      have later := ih (s.bindFresh (.result id j) a) (j + 1) (by simpa using within)
      rw [bindFreshSize] at later
      rw [bindAll,show j + (i + 1) = j + 1 + i by omega,later]
      congr 1
      omega

end Machine

theorem operandArraysOutputs {g : Graph} {id n j} {ws : List Value} {qs : List Ref} {s : Machine α}
    (bound : ws.map s.env = qs.map some) (valid : ∀ q ∈ qs, q < s.memory.size)
    (tensors : ∀ w ∈ ws, (g.typeOf w).isTensor = true) (other : ∀ w ∈ ws, ∀ i, w ≠ .result id i)
    (results : j + ws.length ≤ (g.op id).results.length) (few : n + (g.op id).results.length < wordBound) :
    operandArrays g id (ofNat n) (ofNat (n + j)) (ws.map some) s =
      .ok (range' s.memory.size ws.length) (s.bindAll id j (qs.map s.arrayAt)) := by
  induction ws generalizing s j qs with
  | nil =>
    cases qs with
    | nil => rfl
    | cons => simp at bound
  | cons w ws ih =>
    cases qs with
    | nil => simp at bound
    | cons q qs =>
      obtain ⟨here,rest⟩ := List.cons.inj bound
      obtain ⟨-,valid⟩ := forall_mem_cons.mp valid
      obtain ⟨tensor,tensors⟩ := forall_mem_cons.mp tensors
      obtain ⟨-,other⟩ := forall_mem_cons.mp other
      rw [length_cons] at results
      have past : ¬ ofNat (n + j) < ofNat n := by
        rw [Word.ofNatLtIff (by omega) (by omega)]
        omega
      have number : ofNat (n + j) - ofNat n = ofNat j := by
        rw [Word.subWords (by omega),Nat.add_sub_cancel_left]
      have next : ofNat (n + j) + 1 = ofNat (n + (j + 1)) := Word.addWords (n + j) 1
      have out := outputTensor (g := g) tensor here (show j < (g.op id).results.length by omega) (by omega)
      have later := ih (s := s.bindFresh (.result id j) (s.arrayAt q)) (j := j + 1)
        ((map_congr_left fun w mem => by rw [Machine.bindFreshEnv,if_neg (other w mem j)]).trans rest)
        (fun p mem => by simpa using Nat.lt_succ_of_lt (valid p mem)) tensors other (by omega)
      rw [map_congr_left fun q mem => s.arrayAtOld (valid q mem),Machine.bindFreshSize] at later
      rw [map_cons,operandArrays,if_neg past,number,Step.bindOfOk out,next]
      exact (Step.bindOfOk later _).trans rfl

theorem operandArraysRun {g : Graph} {id n i} {vs ws : List Value} {rs qs : List Ref} {s : Machine α}
    (boundIns : vs.map s.env = rs.map some) (bound : ws.map s.env = qs.map some) (valid : ∀ q ∈ qs, q < s.memory.size)
    (tensors : ∀ w ∈ ws, (g.typeOf w).isTensor = true) (other : ∀ w ∈ ws, ∀ i, w ≠ .result id i)
    (results : ws.length ≤ (g.op id).results.length) (few : n + (g.op id).results.length < wordBound)
    (count : i + vs.length = n) :
    operandArrays g id (ofNat n) (ofNat i) ((vs ++ ws).map some) s =
      .ok (rs ++ range' s.memory.size ws.length) (s.bindAll id 0 (qs.map s.arrayAt)) := by
  induction vs generalizing i rs with
  | nil =>
    cases rs with
    | nil =>
      have outs := operandArraysOutputs (j := 0) bound valid tensors other (by omega) few
      rw [← count]
      rw [← count] at outs
      exact outs
    | cons => simp at boundIns
  | cons v vs ih =>
    cases rs with
    | nil => simp at boundIns
    | cons r rs =>
      obtain ⟨here,rest⟩ := List.cons.inj boundIns
      rw [length_cons] at count
      have before : ofNat i < ofNat n := by
        rw [Word.ofNatLtIff (by omega) (by omega)]
        omega
      have next : ofNat i + 1 = ofNat (i + 1) := Word.addWords i 1
      have later := ih (i := i + 1) rest (by omega)
      rw [cons_append,map_cons,operandArrays,if_pos before,Step.bindOfOk (valueRun here),next]
      exact (Step.bindOfOk later _).trans rfl

theorem Machine.bindAllEnvLength {s s' : Machine α} (env : s.env = s'.env) (size : s.memory.size = s'.memory.size)
    (id : OpId) (j : Nat) {as bs : List (NdArray α)} (length : as.length = bs.length) :
    (s.bindAll id j as).env = (s'.bindAll id j bs).env := by
  induction as generalizing s s' j bs with
  | nil =>
    cases bs with
    | nil => exact env
    | cons => simp at length
  | cons a as ih =>
    cases bs with
    | nil => simp at length
    | cons b bs =>
      refine ih ?_ (by simp [size]) (j + 1) (by simpa using length)
      funext v
      rw [bindFreshEnv,bindFreshEnv,env,size]

theorem Machine.arrayOutside {s : Machine α} {r} (outside : ¬ r < s.memory.size) : s.arrayAt r = default := by
  simp [arrayAt,Array.getD,outside]

variable [Scalar α]

def tabulateAll (as : List (NdArray α)) (ks : List Nat) (c : List Nat → List α) : List (NdArray α) :=
  as.mapIdx fun j a => NdArray.tabulate a.type ks fun k => (c k).getD j Scalar.zero

theorem tabulateAllGet (as : List (NdArray α)) (ks : List Nat) (c : List Nat → List α) {j} (within : j < as.length) :
    (tabulateAll as ks c).getD j default =
      NdArray.tabulate (as.getD j default).type ks fun k => (c k).getD j Scalar.zero := by
  simp [tabulateAll,getD_eq_getElem?_getD,within]

/- The new arrays are the last ones, so a machine that shows tables for them is the one that binds the tables. -/
theorem showsBindAll {s t : Machine α} {id} {as : List (NdArray α)} {oms : List AffineMap}
    (length : oms.length = as.length) {ks c}
    (shows_ : Shows (s.bindAll id 0 as) (oms.zip (range' s.memory.size as.length)) ks c t) :
    t = s.bindAll id 0 (tabulateAll as ks c) := by
  have tables : (tabulateAll as ks c).length = as.length := by simp [tabulateAll]
  have size : t.memory.size = s.memory.size + as.length := by rw [shows_.size,Machine.bindAllSize]
  have places (p : AffineMap × Ref) (mem : p ∈ oms.zip (range' s.memory.size as.length)) :
      ∃ i < as.length, p.2 = s.memory.size + i := by
    obtain ⟨i,within,at_⟩ := mem_range'.mp (of_mem_zip mem).2
    exact ⟨i,within,by rw [at_,Nat.one_mul]⟩
  refine Machine.extArrays (shows_.env.trans (Machine.bindAllEnvLength rfl rfl id 0 tables.symm))
    (by rw [size,Machine.bindAllSize,tables]) fun r => ?_
  by_cases old : r < s.memory.size
  · rw [Machine.bindAllOld old,shows_.other r ?_,Machine.bindAllOld old]
    intro p mem same
    obtain ⟨i,-,at_⟩ := places p mem
    exact absurd (at_ ▸ same ▸ old) (Nat.not_lt.mpr (Nat.le_add_right ..))
  · obtain ⟨i,rfl⟩ := Nat.exists_eq_add_of_le (Nat.not_lt.mp old)
    rw [Machine.bindAllNew]
    by_cases within : i < as.length
    · rw [tabulateAllGet as ks c within]
      have found : (oms.zip (range' s.memory.size as.length))[i]? = some (oms[i], s.memory.size + i) := by
        rw [getElem?_eq_getElem (by simpa [length] using within),getElem_zip]
        simp
      obtain ⟨full,type⟩ := shows_.full _ (mem_of_getElem? found)
      rw [Machine.bindAllNew] at type
      refine full.ext (NdArray.tabulateFull _ (type ▸ full.dims) full.small full.fits) type fun k inside => ?_
      rw [NdArray.tabulateCell _ inside,← shows_.cells k (.inr inside),getD_eq_getElem?_getD,getElem?_map,
        found]
      rfl
    · rw [Machine.arrayOutside fun h => within (Nat.lt_of_add_lt_add_left (size ▸ h)),getD_eq_getElem?_getD,
        getElem?_eq_none (by omega)]
      rfl

structure TensorNest (g : Graph) (id : OpId) (b : BlockId) (ims oms : List AffineMap) (vs ws : List Value)
    (es ks : List Nat) (key : List Nat → List Nat) : Prop where
  maps : indexingMaps (g.op id) = .ok (ims ++ oms)
  region : (g.op id).region = some b
  operands : (g.op id).operands = (vs ++ ws).map some
  count : Structured.numInputs (g.op id) = ofNat vs.length
  inMaps : ims.length = vs.length
  outMaps : oms.length = ws.length
  extents : loopExtents g (ims ++ oms) (g.op id).operands = .ok (words es)
  small : Small es
  tensors : ∀ w ∈ ws, (g.typeOf w).isTensor = true
  other : ∀ w ∈ ws, ∀ i, w ≠ .result id i
  results : (g.op id).results.length = ws.length
  few : vs.length + ws.length < wordBound
  writes : ∀ idx, Inside idx es → ∀ m ∈ oms, m.eval (words idx) = .ok (words (key idx))
  keys : ∀ idx, Inside idx es → (key idx).length = ks.length ∧ Small (key idx)

section Nest

variable {g : Graph} {id : OpId} {b : BlockId} {ims oms : List AffineMap} {vs ws : List Value} {es ks : List Nat}
  {key : List Nat → List Nat} (nest : TensorNest g id b ims oms vs ws es ks key) {s : Machine α} {rs qs : List Ref}
  (boundIns : vs.map s.env = rs.map some) (bound : ws.map s.env = qs.map some) (valid : ∀ r ∈ rs, r < s.memory.size)
  (full : ∀ q ∈ qs, (s.arrayAt q).Full ks)

include nest boundIns bound full in
theorem structuredRun : structured g id s = Box.each (words es) (point g b (ofNat (ims.zip rs).length)
      (ims.zip rs ++ oms.zip (range' s.memory.size ws.length))) (s.bindAll id 0 (qs.map s.arrayAt)) := by
  have lengthIns : vs.length = rs.length := by simpa using congrArg List.length boundIns
  have few : vs.length + (g.op id).results.length < wordBound := nest.results.symm ▸ nest.few
  have arrays := operandArraysRun (i := 0) boundIns bound (fun q mem => fullValid (full q mem)) nest.tensors nest.other
    nest.results.ge few (Nat.zero_add _)
  have count : (ims.zip rs).length = vs.length := by simp [nest.inMaps,lengthIns]
  have split : (ims ++ oms).zip (rs ++ range' s.memory.size ws.length) =
      ims.zip rs ++ oms.zip (range' s.memory.size ws.length) := zip_append (nest.inMaps.trans lengthIns)
  rw [structured,nest.maps,Step.bindOfOk (x := lift _) rfl,nest.region]
  show (lift (loopExtents g (ims ++ oms) (g.op id).operands) >>= _) s = _
  rw [nest.extents,Step.bindOfOk (x := lift _) rfl,nest.count,nest.operands]
  refine (Step.bindOfOk arrays _).trans ?_
  rw [split,count]

include nest boundIns bound valid full in
theorem structuredOk {t} :
    structured g id s = .ok () t ↔ ∃ c, (∀ k, ((grid es).filter (key · = k)).foldlM (fun v idx =>
        nestStep g b ws.length ks (readAll (words idx) (ims.zip (rs.map s.arrayAt))) (key idx) v)
        (qs.map fun q => (s.arrayAt q).cell ks k) = .ok (c k)) ∧
      t = s.bindAll id 0 (tabulateAll (qs.map s.arrayAt) ks c) := by
  have lengthIns : vs.length = rs.length := by simpa using congrArg List.length boundIns
  have length : ws.length = (qs.map s.arrayAt).length := by simpa using congrArg List.length bound
  let u := s.bindAll id 0 (qs.map s.arrayAt)
  let outs := oms.zip (range' s.memory.size ws.length)
  have places (p : AffineMap × Ref) (mem : p ∈ outs) : ∃ j < ws.length, p.2 = s.memory.size + j := by
    obtain ⟨j,within,at_⟩ := mem_range'.mp (of_mem_zip mem).2
    exact ⟨j,within,by rw [at_,Nat.one_mul]⟩
  have seconds : outs.map Prod.snd = range' s.memory.size ws.length := map_snd_zip (by simp [nest.outMaps])
  have heldIns : held u (ims.zip rs) = ims.zip (rs.map s.arrayAt) := by
    rw [zip_map_right]
    refine map_congr_left fun p mem => ?_
    rw [Machine.bindAllOld (valid p.2 (of_mem_zip mem).2)]
    rfl
  have copies (j : Nat) : u.arrayAt (s.memory.size + j) = (qs.map s.arrayAt).getD j default := Machine.bindAllNew ..
  have tuples (k : List Nat) : tuple u outs ks k = qs.map fun q => (s.arrayAt q).cell ks k := by
    have along : tuple u outs ks k = (range' s.memory.size ws.length).map fun r => (u.arrayAt r).cell ks k := by
      rw [← seconds,map_map]
      rfl
    rw [along,range'_eq_map_range,map_map]
    refine ext_getElem (by simpa using length) fun j h1 h2 => ?_
    have within : j < qs.length := by simpa using h2
    simp [copies,getD_eq_getElem?_getD,within]
  have number : outs.length = ws.length := by simp [outs,nest.outMaps]
  have few : (ims.zip rs ++ outs).length < wordBound := by
    have few := nest.few
    rw [length_append,length_zip,number,nest.inMaps,← lengthIns,min_self]
    exact few
  have distinct : (outs.map Prod.snd).Nodup := seconds ▸ nodup_range'
  have apart : ∀ p ∈ ims.zip rs, ∀ q ∈ outs, q.2 ≠ p.2 := by
    intro p hp q hq same
    obtain ⟨j,-,at_⟩ := places q hq
    have below := valid p.2 (of_mem_zip hp).2
    rw [← same,at_] at below
    exact absurd below (Nat.not_lt.mpr (Nat.le_add_right ..))
  have fullOuts : ∀ p ∈ outs, (u.arrayAt p.2).Full ks := by
    intro p mem
    obtain ⟨j,within,at_⟩ := places p mem
    have inRange : j < qs.length := by simpa [length] using within
    rw [at_,copies,getD_eq_getElem _ _ (by simpa using inRange),getElem_map]
    exact full _ (getElem_mem inRange)
  have writes : ∀ idx, Inside idx es → ∀ p ∈ outs, p.1.eval (words idx) = .ok (words (key idx)) :=
    fun idx inside p mem => nest.writes idx inside p.1 (of_mem_zip mem).1
  rw [structuredRun nest boundIns bound full]
  constructor
  · intro ok
    obtain ⟨c,shows_,folds⟩ := nestFollowed nest.small few distinct apart fullOuts writes nest.keys ok
    simp only [heldIns,tuples,number] at folds
    exact ⟨c,folds,showsBindAll (nest.outMaps.trans length) (by rw [← length]; exact shows_)⟩
  · rintro ⟨c,folds,rfl⟩
    obtain ⟨t,ran,shows_⟩ := nestFollows (b := b) (c := c) nest.small few distinct apart fullOuts writes nest.keys
      (by simpa only [heldIns,tuples,number] using folds)
    rw [← showsBindAll (nest.outMaps.trans length) (by rw [← length]; exact shows_)]
    exact ran

end Nest

section Extents

variable {g : Graph}

theorem inferKnown {es ds xs ys pos d x} (found : entryAt xs pos = .ok (ofNat x)) (small : x < wordBound)
    (rest : inferExtents xs es ds = .ok ys) : inferExtents xs (.dim pos :: es) (d :: ds) = .ok ys := by
  rw [inferExtents,found,bindOfOk,if_pos (Word.ofNatNonneg small),rest]

theorem inferUnknown {es} {ds xs ys : List Int64} {pos d : Int64} (found : entryAt xs pos = .ok (-1))
    (rest : inferExtents (xs.set pos.toNatClampNeg d) es ds = .ok ys) :
    inferExtents xs (.dim pos :: es) (d :: ds) = .ok ys := by
  rw [inferExtents,found,bindOfOk,if_neg (by decide),rest]

theorem loopExtentsOf {n} {m₁ m₂ m₃ : AffineMap} {t₁ t₂ t₃ : ValueType} {vs : List Value} {xs ys : List Int64} {es}
    (types : vs.map g.typeOf = [t₁, t₂, t₃]) (dims : listLength m₁.numDims = .ok n) {n₁ n₂ n₃ : List Nat}
    (dims₁ : t₁.dims = words n₁) (dims₂ : t₂.dims = words n₂) (dims₃ : t₃.dims = words n₃)
    (rank₁ : m₁.numResults = n₁.length) (rank₂ : m₂.numResults = n₂.length) (rank₃ : m₃.numResults = n₃.length)
    (first : inferExtents (replicate n (-1)) m₁.results (words n₁) = .ok xs)
    (second : inferExtents xs m₂.results (words n₂) = .ok ys)
    (third : inferExtents ys m₃.results (words n₃) = .ok (words es)) (small : Small es) :
    loopExtents g [m₁, m₂, m₃] (vs.map some) = .ok (words es) := by
  obtain ⟨u,v,w,rfl⟩ := length_eq_three.mp (by simpa using congrArg List.length types)
  obtain ⟨rfl,rfl,rfl⟩ : g.typeOf u = t₁ ∧ g.typeOf v = t₂ ∧ g.typeOf w = t₃ := by simpa using types
  have inferred : inferAll g (replicate n (-1)) 0 [m₁, m₂, m₃] [some u, some v, some w] = .ok (words es) := by
    simp only [inferAll,Graph.operandType,bindOfOk,ValueType.rank,dims₁,dims₂,dims₃,wordsLength,rank₁,rank₂,
      rank₃,ne_eq,not_true_eq_false,if_false,first,second,third]
  have known : (words es).findIdx? (· < 0) = none := by
    refine findIdx?_eq_none_iff.mpr fun x mem => ?_
    obtain ⟨e,inside,rfl⟩ := mem_map.mp mem
    exact decide_eq_false (Word.notNegative (small e inside))
  simp only [loopExtents,length_cons,length_nil,map_cons,map_nil,ne_eq,not_true_eq_false,if_false,
    dims,inferred,bindOfOk,known]

theorem inferAllRanks {xs ys i} {maps : List AffineMap} {vs : List Value} (length : maps.length = vs.length)
    (ok : inferAll g xs i maps (vs.map some) = .ok ys) :
    Forall₂ (fun m v => m.numResults = (g.typeOf v).rank) maps vs := by
  induction maps generalizing vs xs i with
  | nil =>
    rw [length_eq_zero_iff.mp length.symm]
    exact .nil
  | cons m maps ih =>
    cases vs with
    | nil => cases length
    | cons v vs =>
      rw [map_cons,inferAll,Graph.operandType,bindOfOk] at ok
      obtain ⟨rank,ok⟩ := (checkOk fun _ => Outcome.failOk).mp ok
      obtain ⟨zs,-,ok⟩ := bindOk.mp ok
      exact .cons (not_not.mp rank) (ih (by simpa using length) ok)

theorem loopExtentsRanks {maps} (vs : List Value) {ws} (ok : loopExtents g maps (vs.map some) = .ok ws) :
    Forall₂ (fun m v => m.numResults = (g.typeOf v).rank) maps vs := by
  obtain ⟨length,ok⟩ := (checkOk fun _ => Outcome.failOk).mp ok
  have length : maps.length = vs.length := by simpa using length
  cases maps with
  | nil =>
    rw [length_eq_zero_iff.mp length.symm]
    exact .nil
  | cons m maps =>
    obtain ⟨n,-,ok⟩ := bindOk.mp ok
    obtain ⟨xs,inferred,-⟩ := bindOk.mp ok
    exact inferAllRanks length inferred

def Along (extents : List Int64) (es : List Affine.Expr) (dims : List Int64) : Prop :=
  Forall₂ (fun e d => ∀ pos, e = .dim pos → entryAt extents pos = .ok d) es dims

def Towards (extents xs : List Int64) : Prop :=
  xs.length = extents.length ∧ ∀ (i : Nat) (x : Int64), xs[i]? = some x → 0 ≤ x → extents[i]? = some x

theorem Towards.infer {extents xs ys es dims} (towards : Towards extents xs) (along : Along extents es dims)
    (ok : inferExtents xs es dims = .ok ys) : Towards extents ys := by
  induction along generalizing xs with
  | nil =>
    cases ok
    exact towards
  | @cons e d es ds here _ ih =>
    cases e with
    | dim pos =>
      have here := here pos rfl
      rw [inferExtents] at ok
      obtain ⟨x,found,ok⟩ := bindOk.mp ok
      refine ih ?_ ok
      split
      · exact towards
      · refine ⟨by rw [length_set,towards.1],fun i y at_ known => ?_⟩
        rw [getElem?_set] at at_
        split at at_
        · rename_i same
          rw [entryAt,ofOptionOk,entryAt?] at here
          split at here
          · cases here
          · split at at_
            · cases at_
              exact same ▸ here
            · cases at_
        · exact towards.2 i y at_ known
    | const => exact ih towards ok
    | sum => exact ih towards ok
    | scaled => exact ih towards ok

theorem Towards.inferAll {extents xs ys maps} {vs : List Value} {i}
    (along : Forall₂ (fun m v => Along extents m.results (g.typeOf v).dims) maps vs) (towards : Towards extents xs)
    (ok : Eval.inferAll g xs i maps (vs.map some) = .ok ys) : Towards extents ys := by
  induction along generalizing xs i with
  | nil =>
    cases ok
    exact towards
  | cons here _ ih =>
    rw [map_cons,Eval.inferAll,Graph.operandType,bindOfOk] at ok
    obtain ⟨-,ok⟩ := (checkOk fun _ => Outcome.failOk).mp ok
    obtain ⟨zs,inferred,ok⟩ := bindOk.mp ok
    exact ih (towards.infer here inferred) ok

theorem loopExtentsAlong {extents ws : List Int64} {m : AffineMap} {maps} {vs : List Value}
    (along : Forall₂ (fun m v => Along extents m.results (g.typeOf v).dims) (m :: maps) vs)
    (dims : m.numDims = ofNat extents.length) (small : extents.length < wordBound)
    (ok : loopExtents g (m :: maps) (vs.map some) = .ok ws) : ws = extents ∧ ∀ x ∈ extents, 0 ≤ x := by
  obtain ⟨-,ok⟩ := (checkOk fun _ => Outcome.failOk).mp ok
  obtain ⟨n,length,ok⟩ := bindOk.mp ok
  obtain ⟨xs,inferred,ok⟩ := bindOk.mp ok
  have length : n = extents.length := by
    rw [listLength,dims] at length
    split at length
    · rw [Word.toNatOfNat small] at length
      exact (Except.ok.inj length).symm
    · exact absurd length Outcome.abortOk
  have start : Towards extents (replicate n (-1)) := by
    refine ⟨by rw [length_replicate,length],fun i x at_ known => ?_⟩
    rw [getElem?_replicate] at at_
    split at at_
    · cases at_
      exact absurd known (by decide)
    · cases at_
  obtain ⟨same,towards⟩ := start.inferAll along inferred
  split at ok
  · exact absurd ok Outcome.failOk
  · rename_i known
    cases ok
    have known (x : Int64) (mem : x ∈ ws) : 0 ≤ x := by
      simpa [Int64.not_lt] using findIdx?_eq_none_iff.mp known x mem
    have found : ws = extents := by
      refine ext_getElem? fun i => ?_
      cases at_ : ws[i]? with
      | some x => exact (towards i x at_ (known x (mem_of_getElem? at_))).symm
      | none => rw [getElem?_eq_none (same ▸ List.getElem?_eq_none_iff.mp at_)]
    exact ⟨found,found ▸ known⟩

end Extents

end TileLower.Eval
