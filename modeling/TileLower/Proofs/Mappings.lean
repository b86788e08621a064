import TileLower.Proofs.Analyses
import TileLower.Proofs.Primitives
import TileLower.Proofs.Signatures

/-!
Mapping to tile primitives goes through: each rule puts a primitive in the place of an operation or declines, whatever
was mapped before.
-/
namespace TileLower

open Structured Primitive Arith TileLower.Graph List OrderedMap

open Outcome (Yields)

namespace AffineMap

variable {m o : AffineMap}

structure Printable (m : AffineMap) : Prop where
  dims : 0 ≤ m.numDims ∧ m.numDims ≤ lengthLimit
  results : m.results.length < wordBound

theorem Printable.render (printable : m.Printable) : Yields (fun _ => True) m.render := by
  refine .bind (Q := fun _ => True) ?_ fun _ _ => .ok trivial
  rw [listLength,if_pos printable.dims]
  exact .ok trivial

theorem Printable.equal (left : m.Printable) (right : o.Printable) : Yields (fun _ => True) (m.equal o) :=
  .bind left.render fun _ _ => .bind right.render fun _ _ => .ok trivial

theorem Printable.isMinorIdentity (printable : m.Printable) : Yields (fun _ => True) m.isMinorIdentity := by
  unfold AffineMap.isMinorIdentity
  split
  · exact .ok trivial
  · rename_i fits
    have count : 0 ≤ Int64.ofNat m.numResults ∧ Int64.ofNat m.numResults ≤ lengthLimit :=
      ⟨Word.ofNatNonneg printable.results,Int64.le_trans (Int64.not_lt.mp fits) printable.dims.2⟩
    rw [minorIdentity,listLength,if_pos count]
    refine printable.equal ⟨printable.dims,?_⟩
    rw [length_map,length_range,numResults,Word.toNatOfNat printable.results]
    exact printable.results

theorem Printable.isIdentity (printable : m.Printable) : Yields (fun _ => True) m.isIdentity := by
  unfold AffineMap.isIdentity
  split
  · exact printable.isMinorIdentity
  · exact .ok trivial

end AffineMap

theorem Body.hasMatmulMapsYields {op} (printable : ∀ m ∈ indexingMaps op, m.Printable) :
    Yields (fun _ => True) (hasMatmulMaps op) := by
  have equal : ∀ {ms os : List AffineMap}, (∀ m ∈ ms, m.Printable) → (∀ o ∈ os, o.Printable) →
      Yields (fun _ => True) (mapsEqual ms os) := by
    intro ms
    induction ms with
    | nil => exact fun _ _ => .ok trivial
    | cons m ms ih =>
      intro os left right
      cases os with
      | nil => exact .ok trivial
      | cons o os =>
        refine .bind ((left m (.head _)).equal (right o (.head _))) fun same _ => ?_
        cases same with
        | false => exact .ok trivial
        | true => exact ih (fun m mem => left m (.tail _ mem)) fun o mem => right o (.tail _ mem)
  have known : ∀ o ∈ matmulMaps, o.Printable := by
    simp only [matmulMaps,forall_mem_cons]
    exact ⟨⟨by decide,by decide⟩,⟨by decide,by decide⟩,⟨by decide,by decide⟩,nofun⟩
  unfold hasMatmulMaps
  dsimp only
  split
  · exact .ok trivial
  · refine .bind (equal printable known) fun same _ => ?_
    cases same with
    | false => exact .ok trivial
    | true => exact .ok trivial

theorem Structured.allTypesYields {g : Graph} {p vs} (present : ∀ v ∈ vs, ∃ w, v = some w) :
    Yields (fun all => all = true → ∀ v ∈ vs, ∃ w, v = some w ∧ p (g.typeOf w) = true) (allTypes g p vs) := by
  induction vs with
  | nil => exact .ok fun _ => nofun
  | cons v vs ih =>
    obtain ⟨⟨w,rfl⟩,later⟩ := forall_mem_cons.mp present
    unfold allTypes
    dsimp only [operandType]
    rw [Outcome.bindOfOk]
    split
    · rename_i here
      exact (ih later).mono fun _ rest all => forall_mem_cons.mpr ⟨⟨w,rfl,here⟩,rest all⟩
    · exact .ok nofun

namespace ToPrimitive

open Drafting (Ends Stops)
open Blocking (ask askOk nthOk operandsAtOk)

variable {g : Graph} {s : Site} {d : Draft} {K : OpId → Prop}

theorem askEnds {β : Type} {f : Graph → Outcome β} {Q : β → Prop} (yields : Yields Q (f d.graph)) :
    Ends (fun b e => d = e ∧ Q b) (ask f) d := by
  obtain ⟨b,same,holds⟩ := yields
  exact .done (askOk.mpr ⟨same,rfl⟩) ⟨rfl,holds⟩

def kinds : List String :=
  [Primitive.matmulKind, brgemmKind, identityKind, reluKind, addKind]

structure Mapped (K : OpId → Prop) (o : Operation) : Prop where
  kind : o.kind ∈ kinds
  two : 2 ≤ o.operands.length
  operands : ∀ v ∈ o.operands, ∃ w, v = some w ∧ w.Within K

/-- An operation without outputs, of which an addition in the body may come to be the whole body. -/
def Overlooked (g : Graph) (id : OpId) : Prop :=
  outputs (g.op id) = .ok [] ∧ ∃ b, (g.op id).region = some b ∧ (g.block b).args.length = 3 ∧
    ∃ y ∈ (g.block b).ops, ∃ k i, (g.op y).operands = [some (.result k i)] ∧ (g.op k).kind = addFloatKind ∧
      ((g.op k).operands.take 2 = [some (.argument b 0), some (.argument b 1)] ∨
        (g.op k).operands.take 2 = [some (.argument b 1), some (.argument b 0)])

section Rules

variable (steady : Steady g K) (known : K s.op)

include steady known

theorem present : ∀ v ∈ (g.op s.op).operands, ∃ w, v = some w := fun v used => by
  obtain ⟨w,same,-⟩ := steady.operands s.op known v used
  exact ⟨w,same⟩

theorem checkBuffersEnds : Ends (fun _ e => .ofGraph g = e ∧
    ∀ v ∈ (g.op s.op).operands, ∃ w, v = some w ∧ (g.typeOf w).isTensor = false) (checkBuffers s) (.ofGraph g) := by
  refine .bind (askEnds (allTypesYields (present steady known))) ?_
  rintro buffers _ ⟨rfl,plain⟩
  refine .check fun all => ?_
  refine .bind (askEnds (allTypesYields (present steady known))) ?_
  rintro static _ ⟨rfl,-⟩
  refine .guard fun _ => ⟨rfl,fun v used => ?_⟩
  obtain ⟨w,same,type⟩ := plain (not_not.mp all) v used
  exact ⟨w,same,(Bool.not_eq_true' _).mp type⟩

omit steady known in
theorem checkMapsEnds {count i : Int64} {ms : List AffineMap} (printable : ∀ m ∈ ms, m.Printable) :
    Ends (fun _ e => d = e) (checkMaps s count i ms) d := by
  induction ms generalizing i with
  | nil => exact .done rfl rfl
  | cons m ms ih =>
    obtain ⟨here,later⟩ := forall_mem_cons.mp printable
    unfold checkMaps
    split
    · refine .bind (askEnds here.isMinorIdentity) ?_
      rintro _ _ ⟨rfl,-⟩
      exact .check fun _ => ih later
    · refine .bind (askEnds here.isIdentity) ?_
      rintro _ _ ⟨rfl,-⟩
      exact .check fun _ => ih later

omit steady known in
theorem checkElementwiseMapsEnds (printable : ∀ m ∈ indexingMaps (g.op s.op), m.Printable) :
    Ends (fun _ e => .ofGraph g = e) (checkElementwiseMaps s) (.ofGraph g) :=
  .next Drafting.graphRun (.check fun _ => checkMapsEnds printable)

omit known in
theorem isAddBodyYields {b} (inside : ∀ i ∈ (g.block b).ops, K i) :
    Yields (fun adds => adds = true → (g.block b).args.length = 3 ∧
      ∃ y ∈ (g.block b).ops, ∃ k i, (g.op y).operands = [some (.result k i)] ∧ (g.op k).kind = addFloatKind ∧
        ((g.op k).operands.take 2 = [some (.argument b 0), some (.argument b 1)] ∨
          (g.op k).operands.take 2 = [some (.argument b 1), some (.argument b 0)])) (isAddBody g b) := by
  unfold isAddBody
  split
  · rename_i first last ops
    split
    · exact .ok nofun
    · rename_i three
      split
      · rename_i v single
        have mem : last ∈ (g.block b).ops := by simp [ops]
        obtain ⟨w,rfl,within⟩ := steady.operands last (inside last mem) v (single ▸ mem_singleton_self v)
        cases w with
        | argument c i => exact .ok nofun
        | result k i =>
          dsimp only [definingOp]
          rw [Outcome.bindOfOk]
          dsimp only
          split
          · exact .ok nofun
          · rename_i kind
            have kind := not_not.mp kind
            have two := ((steady.regular k within).binary (by rw [kind]; decide)).1
            match operands : (g.op k).operands, two with
            | x :: y :: rest, _ =>
              simp only [operandAt,operands]
              refine .ok fun adds => ⟨not_not.mp three,last,mem,k,i,single,kind,?_⟩
              rw [operands]
              simpa using adds
      · exact .ok nofun
  · exact .ok nofun

variable (within : s.op < g.ops.size)

include within

section Replace

variable (bare : (g.op s.op).results = [])
  (plain : ∀ v ∈ (g.op s.op).operands, ∃ w, v = some w ∧ (g.typeOf w).isTensor = false)

include bare plain

theorem replaceEnds {kind ins out} (among : kind ∈ kinds) (used : ∀ v ∈ ins, v ∈ (g.op s.op).operands)
    (written : out ∈ (g.op s.op).operands) : Lowers (Mapped K) g s.op (replace s kind ins out) := by
  have all : ∀ v ∈ ins ++ [out], v ∈ (g.op s.op).operands := fun v mem => by
    rcases mem_append.mp mem with input | output
    · exact used v input
    · exact mem_singleton.mp output ▸ written
  obtain ⟨w,rfl,buffer⟩ := plain out written
  have made : make kind ins (some w) (.ofGraph g) = .ok g.ops.size
      { Draft.ofGraph g with graph := g.push ⟨kind,ins ++ [some w],[],empty,none,none⟩ } := by
    refine Step.bindOk.mpr ⟨_,_,Drafting.typeOfRun w,?_⟩
    rw [show (Draft.ofGraph g).graph = g from rfl,buffer]
    rfl
  refine .next made (.next Drafting.graphRun ?_)
  dsimp only
  rw [pushNew]
  refine .bind (Q := fun _ e => { Draft.ofGraph g with graph := g.push ⟨kind,ins ++ [some w],[],empty,none,none⟩ } = e ∧
    2 ≤ (ins ++ [some w]).length) (.attempt (verifyAnswers fun v mem => present steady known v (all v mem))
    fun _ ok => ⟨rfl,?_⟩) ?_
  · obtain ⟨want,count,length,-⟩ := verifyCount ok
    rcases countCases count with ⟨-,rfl⟩ | ⟨-,rfl⟩
    · exact Nat.le_of_eq length.symm
    · exact Nat.le_trans (by decide) (Nat.le_of_eq length.symm)
  · rintro _ _ ⟨rfl,two⟩
    refine Supplants.replaceWithNew [] within bare rfl fun o mem => ?_
    obtain rfl := mem_singleton.mp mem
    exact ⟨rfl,among,two,fun v mem => steady.operands s.op known v (all v mem)⟩

theorem replaceAllEnds {kind} (among : kind ∈ kinds) (structured : isStructured (g.op s.op) = true)
    (some : outputs (g.op s.op) ≠ .ok []) : Lowers (Mapped K) g s.op (replaceAll s kind) := by
  obtain ⟨⟨ins,inputs,-⟩,outs,outputs⟩ := (steady.regular s.op known).outputs structured
  obtain ⟨left,right⟩ := operandsMem inputs outputs
  refine .next (operandsAtOk.mpr ⟨⟨inputs,outputs⟩,rfl⟩) ?_
  cases outs with
  | nil => exact absurd outputs some
  | cons out outs =>
    exact .next (nthOk.mpr ⟨rfl,rfl⟩) (replaceEnds steady known within bare plain among left (right out (.head _)))

end Replace

variable (bare : (∀ v ∈ (g.op s.op).operands, ∃ w, v = some w ∧ (g.typeOf w).isTensor = false) → (g.op s.op).results = [])

include bare

theorem namedEnds {kind} (among : kind ∈ kinds) (structured : isStructured (g.op s.op) = true)
    (some : outputs (g.op s.op) ≠ .ok []) : Lowers (Mapped K) g s.op (do checkBuffers s; replaceAll s kind) := by
  refine .bind (checkBuffersEnds steady known) ?_
  rintro _ _ ⟨rfl,plain⟩
  exact replaceAllEnds steady known within (bare plain) plain among structured some

section Generic

variable (generic : (g.op s.op).kind = genericKind)
  (printable : ∀ m ∈ indexingMaps (g.op s.op), m.Printable)

include printable

theorem elementwiseEnds {kind} (among : kind ∈ kinds) (structured : isStructured (g.op s.op) = true)
    (some : outputs (g.op s.op) ≠ .ok []) :
    Lowers (Mapped K) g s.op (do checkBuffers s; checkElementwiseMaps s; replaceAll s kind) := by
  refine .bind (checkBuffersEnds steady known) ?_
  rintro _ _ ⟨rfl,plain⟩
  refine .bind (checkElementwiseMapsEnds printable) ?_
  rintro _ _ rfl
  exact replaceAllEnds steady known within (bare plain) plain among structured some

include generic

theorem genericMatmulEnds : Lowers (Mapped K) g s.op (genericMatmul.draft s) := by
  obtain ⟨⟨ins,inputs,-⟩,outs,outputs⟩ := (steady.regular s.op known).outputs (by rw [isStructured,generic]; decide)
  obtain ⟨left,right⟩ := operandsMem inputs outputs
  refine .bind (Q := fun _ e => .ofGraph g = e) (.next Drafting.graphRun (.guard fun _ => rfl)) ?_
  rintro _ _ rfl
  refine .bind (checkBuffersEnds steady known) ?_
  rintro _ _ ⟨rfl,plain⟩
  refine .bind (Q := fun _ e => .ofGraph g = e) ?_ ?_
  · refine .bind (askEnds (steady.hasMatmulBody known)) ?_
    rintro _ _ ⟨rfl,-⟩
    refine .check fun _ => .bind (askEnds (Body.hasMatmulMapsYields printable)) ?_
    rintro _ _ ⟨rfl,-⟩
    exact .guard fun _ => rfl
  · rintro _ _ rfl
    refine .bind (Q := fun abc e => .ofGraph g = e ∧ ∀ v ∈ [abc.1, abc.2.1, abc.2.2], v ∈ (g.op s.op).operands)
      (.next (operandsAtOk.mpr ⟨⟨inputs,outputs⟩,rfl⟩) ?_) ?_
    · split
      · rename_i a b c parts
        cases parts
        refine .done rfl ⟨rfl,fun v mem => ?_⟩
        rcases mem_cons.mp mem with rfl | mem
        · exact left _ (.head _)
        · rcases mem_cons.mp mem with rfl | mem
          · exact left _ (.tail _ (.head _))
          · exact right v mem
      · exact .declined
    · rintro ⟨a,b,c⟩ _ ⟨rfl,used⟩
      simp only [forall_mem_cons] at used
      refine replaceEnds steady known within (bare plain) plain (by decide) (fun v mem => ?_) used.2.2.1
      rcases mem_cons.mp mem with rfl | mem
      · exact used.1
      · exact mem_singleton.mp mem ▸ used.2.1

theorem identityEnds : Lowers (Mapped K) g s.op (identity.draft s) := by
  have structured : isStructured (g.op s.op) = true := by rw [isStructured,generic]; decide
  obtain ⟨copies,found,-⟩ := steady.hasCopySemantics known
  refine .next (askOk.mpr ⟨found,rfl⟩) (.check fun copied => ?_)
  refine elementwiseEnds steady known within bare printable (by decide) structured fun none => ?_
  obtain rfl : copies = true := not_not.mp copied
  obtain ⟨n,count,none⟩ := Outcome.bindOk.mp none
  have whole := (inputCountOk count).2
  unfold Body.hasCopySemantics at found
  split at found
  · cases found
  · split at found
    · rename_i _ two
      rw [two.2.2.2] at whole
      have drop : ((g.op s.op).operands.drop n).length = 0 := by rw [Except.ok.inj none]; rfl
      rw [length_drop,two.2.2.1,whole] at drop
      exact absurd drop (by decide)
    · cases found

theorem reluEnds : Lowers (Mapped K) g s.op (relu.draft s) := by
  obtain ⟨⟨ins,inputs,-⟩,outs,outputs⟩ := (steady.regular s.op known).outputs (by rw [isStructured,generic]; decide)
  obtain ⟨-,right⟩ := operandsMem inputs outputs
  obtain ⟨source,found,-⟩ := steady.reluSource known
  refine .next (askOk.mpr ⟨found,rfl⟩) ?_
  cases source with
  | none => exact .declined
  | some source =>
    refine .next (operandsAtOk.mpr ⟨⟨inputs,outputs⟩,rfl⟩) ?_
    dsimp only
    split
    · rename_i out
      refine .check fun _ => .bind (checkBuffersEnds steady known) ?_
      rintro _ _ ⟨rfl,plain⟩
      refine .bind (checkElementwiseMapsEnds printable) ?_
      rintro _ _ rfl
      refine replaceEnds steady known within (bare plain) plain (by decide) (fun v mem => ?_)
        (right out (.head _))
      exact mem_singleton.mp mem ▸ reluSourceMem found
    · exact .declined

theorem addEnds (apart : ¬ Overlooked g s.op) : Lowers (Mapped K) g s.op (add.draft s) := by
  have structured : isStructured (g.op s.op) = true := by rw [isStructured,generic]; decide
  refine .bind (Q := fun adds e => .ofGraph g = e ∧ (adds = true → Structured.outputs (g.op s.op) ≠ .ok [])) (askEnds ?_) ?_
  · dsimp only [Draft.ofGraph]
    split
    · exact .ok fun adds => by cases adds
    · rename_i b region
      refine (isAddBodyYields steady (steady.regions s.op known b region)).mono fun _ found adds none => ?_
      exact apart ⟨none,b,region,found adds⟩
  · rintro adds _ ⟨rfl,some⟩
    refine .check fun added => ?_
    exact elementwiseEnds steady known within bare printable (by decide) structured (some (not_not.mp added))

end Generic

theorem rulesEnd {r : Rule} (mem : r ∈ rules) (tried : Greedy.Tried r g s.op)
    (printable : (g.op s.op).kind = genericKind → ∀ m ∈ indexingMaps (g.op s.op), m.Printable)
    (named : (g.op s.op).kind ≠ genericKind → isStructured (g.op s.op) = true →
      Structured.outputs (g.op s.op) ≠ .ok [])
    (apart : (g.op s.op).kind = genericKind → ¬ Overlooked g s.op) : Lowers (Mapped K) g s.op (r.draft s) := by
  simp only [rules,mem_cons,not_mem_nil,or_false] at mem
  have kind : r.root ≠ "" → (g.op s.op).kind = r.root := fun root => (tried.resolve_left root).symm
  have structured (among : r.root ∈ Structured.kinds) (kind : (g.op s.op).kind = r.root) :
      isStructured (g.op s.op) = true := by
    rw [isStructured,kind,contains_iff_mem]
    exact among
  rcases mem with rfl | rfl | rfl | rfl | rfl | rfl | rfl <;> replace kind := kind (by decide)
  · have structured := structured (by decide) kind
    exact namedEnds steady known within bare (by decide) structured (named (by rw [kind]; decide) structured)
  · exact genericMatmulEnds steady known within bare kind (printable kind)
  · have structured := structured (by decide) kind
    exact namedEnds steady known within bare (by decide) structured (named (by rw [kind]; decide) structured)
  · have structured := structured (by decide) kind
    exact namedEnds steady known within bare (by decide) structured (named (by rw [kind]; decide) structured)
  · exact identityEnds steady known within bare kind (printable kind)
  · exact reluEnds steady known within bare kind (printable kind)
  · exact addEnds steady known within bare kind (printable kind) (apart kind)

end Rules

section Runs

open Greedy

def WalkedOrNew (g : Graph) (j : OpId) : Prop := j ∈ g.walkAll ∨ g.ops.size ≤ j

theorem regularBuilt {j} (built : g.Built j) : Regular (g.op j) where
  outputs structured := by
    obtain ⟨n,-,-,inputs,outputs,-⟩ := built.parts structured
    exact ⟨⟨_,inputs,fun v mem => mem_of_mem_take mem⟩,_,outputs⟩
  binary among := by
    have signed : signature? (g.op j).kind = some (2, 1) := by
      have table : ∀ kind ∈ [addFloatKind, addIntKind, mulFloatKind, mulIntKind, maxKind],
        signature? kind = some (2, 1) := by decide
      exact table _ among
    obtain ⟨operands,results⟩ := built.counts (2, 1) signed
    exact ⟨operands.ge,results.ge⟩
  copied kind := (built.counts (2, 0) (kind ▸ by decide)).1.ge
  viewed kind := by
    have signed : signature? (g.op j).kind = some (1, 1) := by rcases kind with kind | kind | kind <;> rw [kind] <;> decide
    obtain ⟨operands,results⟩ := built.counts (1, 1) signed
    exact ⟨operands.ge,results.ge⟩

theorem Mapped.regular {o} (mapped : Mapped K o) : Regular o := by
  have table : ∀ kind ∈ kinds, Structured.kinds.contains kind = false ∧
      kind ∉ [addFloatKind, addIntKind, mulFloatKind, mulIntKind, maxKind] ∧
      kind ≠ Memory.copyKind ∧ kind ≠ Memory.subviewKind ∧ kind ≠ Memory.castKind ∧ kind ≠ Memory.extractSliceKind := by
    decide
  obtain ⟨structured,binary,copied,subview,cast,slice⟩ := table _ mapped.kind
  refine ⟨fun is => ?_,fun among => absurd among binary,fun kind => absurd kind copied,fun kind => ?_⟩
  · rw [isStructured,structured] at is
    cases is
  · rcases kind with kind | kind | kind
    · exact absurd kind subview
    · exact absurd kind cast
    · exact absurd kind slice

variable {h : Graph} (ok : g.verify = .ok ()) (built : ∀ j ∈ g.walkAll, g.Built j) (lowered : Lowered (Mapped (WalkedOrNew g)) g h)

include lowered in
theorem newOp {j} (new : g.ops.size ≤ j) :
    (∃ o block, o.region = none ∧ Mapped (WalkedOrNew g) o ∧ h.op j = { o with block }) ∨ h.op j = default := by
  by_cases inside : j < h.ops.size
  · exact .inl (lowered.new j new inside)
  · exact .inr (opOutside inside)

include ok lowered

theorem sameOp {j} (mem : j ∈ g.walkAll) : ∃ block, h.op j = { g.op j with block } :=
  lowered.old j (walkInside ok mem)

include built in
theorem steadyLowered : Steady h (WalkedOrNew g) where
  body i mem := by
    rcases lowered.listed _ i mem with old | new
    · exact .inl (mem_flatMap.mpr ⟨i,old,.head _⟩)
    · exact .inr new
  regions k kept b region i mem := by
    rcases kept with old | new
    · obtain ⟨block,same⟩ := sameOp ok lowered old
      rw [same] at region
      exact (lowered.listed b i mem).imp_left ((walkListed ok old).2 b region i)
    · rcases newOp lowered new with ⟨o,block,plain,-,same⟩ | same
      · rw [same] at region
        cases plain.symm.trans region
      · rw [same] at region
        cases region
  regular k kept := by
    rcases kept with old | new
    · obtain ⟨block,same⟩ := sameOp ok lowered old
      rw [same]
      have regular := regularBuilt (built k old)
      exact ⟨regular.outputs,regular.binary,regular.copied,regular.viewed⟩
    · rcases newOp lowered new with ⟨o,block,-,mapped,same⟩ | same
      · rw [same]
        have regular := mapped.regular
        exact ⟨regular.outputs,regular.binary,regular.copied,regular.viewed⟩
      · rw [same]
        exact ⟨fun is => absurd is (by decide),fun is => absurd is (by decide),fun is => absurd is (by decide),
          fun is => absurd is (by decide)⟩
  operands k kept v used := by
    rcases kept with old | new
    · obtain ⟨block,same⟩ := sameOp ok lowered old
      rw [same] at used
      obtain ⟨w,here,defined⟩ := operandsDefined ok old v used
      refine ⟨w,here,?_⟩
      cases w with
      | argument b i => trivial
      | result k i => exact .inl defined.1
    · rcases newOp lowered new with ⟨o,block,-,mapped,same⟩ | same
      · rw [same] at used
        exact mapped.operands v used
      · rw [same] at used
        cases used
  arguments k kept b region := by
    rcases kept with old | new
    · obtain ⟨block,same⟩ := sameOp ok lowered old
      rw [same] at region ⊢
      rw [lowered.args]
      exact (built k old).body b region
    · rcases newOp lowered new with ⟨o,block,plain,-,same⟩ | same
      · rw [same] at region
        cases plain.symm.trans region
      · rw [same] at region
        cases region

theorem overlookedBefore {j} (mem : j ∈ g.walkAll) (overlooked : Overlooked h j) : Overlooked g j := by
  obtain ⟨outputs,b,region,three,y,listed,k,i,single,kind,operands⟩ := overlooked
  obtain ⟨block,same⟩ := sameOp ok lowered mem
  rw [same] at outputs region
  have oldY : y ∈ (g.block b).ops := by
    refine (lowered.listed b y listed).resolve_right fun new => ?_
    rcases newOp lowered new with ⟨o,_,-,mapped,same⟩ | same
    · have two := mapped.two
      rw [same] at single
      rw [show o.operands = [some (.result k i)] from single] at two
      exact absurd two (by simp)
    · rw [same] at single
      cases single
  have oldK : k < g.ops.size := by
    by_contra outside
    rcases newOp lowered (Nat.le_of_not_lt outside) with ⟨o,_,-,mapped,same⟩ | same
    · rw [same] at kind
      exact absurd (show o.kind ∈ kinds from mapped.kind) (by rw [show o.kind = _ from kind]; decide)
    · rw [same] at kind
      exact absurd kind (by decide)
  obtain ⟨_,sameY⟩ := sameOp ok lowered ((walkListed ok mem).2 b region y oldY)
  obtain ⟨_,sameK⟩ := lowered.old k oldK
  rw [sameY] at single
  rw [sameK] at kind operands
  rw [lowered.args] at three
  exact ⟨outputs,b,region,three,y,oldY,k,i,single,kind,operands⟩

include built in
theorem ends {j} (mem : j ∈ g.walkAll) (alive : h.isAlive j = true)
    (printable : (g.op j).kind = genericKind → ∀ m ∈ indexingMaps (g.op j), m.Printable)
    (apart : (g.op j).kind = genericKind → ¬ Overlooked g j) {r : Rule} (listed : r ∈ rules)
    (tried : Tried r h j) : Lowers (Mapped (WalkedOrNew g)) h j (r.draft ⟨r.name,j⟩) := by
  obtain ⟨b,home⟩ := Option.isSome_iff_exists.mp alive
  obtain ⟨block,same⟩ := sameOp ok lowered mem
  have structured : isStructured (g.op j) = true := by
    have table : ∀ r ∈ rules, r.root ≠ "" ∧ Structured.kinds.contains r.root = true := by decide
    obtain ⟨root,among⟩ := table r listed
    have kind := tried.resolve_left root
    rw [same] at kind
    rw [isStructured,← among]
    exact congrArg _ kind.symm
  obtain ⟨n,le,count,-,outputs,results⟩ := (built j mem).parts structured
  refine rulesEnd (s := ⟨r.name,j⟩) (steadyLowered ok built lowered) (.inl mem) (blockInside home) (fun plain => ?_)
    listed tried (by rwa [same]) (fun other _ none => ?_) (fun generic overlooked => ?_)
  · rw [same] at plain ⊢
    -- A result belongs to a tensor that is written.
    have none : g.tensorTypes ((g.op j).operands.drop n) = [] := by
      refine filter_eq_nil_iff.mpr fun t among => ?_
      obtain ⟨v,used,type⟩ := mem_filterMap.mp among
      obtain ⟨w,rfl,buffer⟩ := plain v (mem_of_mem_drop used)
      cases type
      obtain ⟨_,here,defined⟩ := operandsDefined ok mem _ (mem_of_mem_drop used)
      cases here
      rw [← lowered.typeOf defined.below,buffer]
      decide
    rw [none] at results
    exact map_eq_nil_iff.mp results
  · rw [same] at other none
    -- An operation with a name has one output.
    have named : ∃ n, namedInputs? (g.op j).kind = some n := by
      have table : ∀ kind ∈ Structured.kinds, kind ≠ genericKind → (namedInputs? kind).isSome = true := by decide
      exact Option.isSome_iff_exists.mp (table _ (contains_iff_mem.mp structured) other)
    obtain ⟨m,named⟩ := named
    obtain ⟨length,count'⟩ := (built j mem).named m named
    have short := (built j mem).short
    have all := Word.ofNatInj (by omega) (by omega) (count.symm.trans count')
    have drop : ((g.op j).operands.drop n).length = 0 := by rw [Except.ok.inj (outputs.symm.trans none)]; rfl
    rw [length_drop] at drop
    omega
  · rw [same] at generic
    exact apart generic (overlookedBefore ok lowered mem overlooked)

end Runs

open Greedy in
/-- The mapping goes through a function of made operations with maps that can be printed, unless it has an addition
without outputs. -/
theorem mapsOrDeclines {σ : Type} (ok : g.verify = .ok ()) (built : ∀ j ∈ g.walkAll, g.Built j)
    (printable : ∀ j ∈ g.walkAll, (g.op j).kind = Structured.genericKind →
      ∀ m ∈ Structured.indexingMaps (g.op j), m.Printable)
    (apart : ∀ j ∈ g.walkAll, (g.op j).kind = Structured.genericKind → ¬ Overlooked g j) (o : Options) (s : σ) :
    (apply (rules.map Pattern.ofRule) o g s).fault = none := by
  refine Lowered.goes (N := Mapped (WalkedOrNew g)) (fun o mapped => ?_) (fun h lowered j mem alive r listed tried => ?_) o s
  · have table : ∀ kind ∈ kinds, ∀ r ∈ rules, r.root ≠ "" ∧ r.root ≠ kind := by decide
    exact table _ mapped.kind
  · exact ends ok built lowered mem alive (printable j mem) (apart j mem) listed tried

def sumOfBuffers (inputs : Int64) : Graph where
  name := "main"
  ops := #[⟨genericKind,[some (.argument 0 0), some (.argument 0 1), some (.argument 0 2)],[],
      (genericAttrs (replicate 3 (.identityOf 2)) [.parallel, .parallel] "").store numInputsAttr
        (.int inputs),some 1,some 0⟩,
    ⟨addFloatKind,[some (.argument 1 0), some (.argument 1 1)],[.ofType (.scalar .f32)],empty,none,some 1⟩,
    ⟨yieldKind,[some (.result 1 0)],[],empty,none,some 1⟩]
  blocks := #[⟨replicate 3 (.ofType (.buffer .f32 [2, 3])),[0],none⟩,
    ⟨replicate 3 (.ofType (.scalar .f32)),[1, 2],some 0⟩]

theorem mapsOrDeclinesSum : (sumOfBuffers 2).verify = .ok () ∧ (∀ j ∈ (sumOfBuffers 2).walkAll, (sumOfBuffers 2).Built j) ∧
    (Greedy.apply (rules.map Greedy.Pattern.ofRule) ⟨10, true⟩ (sumOfBuffers 2) ()).fault = none := by
  have ok : (sumOfBuffers 2).verify = .ok () := by decide +kernel
  have walk : (sumOfBuffers 2).walkAll = [0, 1, 2] := by decide +kernel
  have built : ∀ j ∈ (sumOfBuffers 2).walkAll, (sumOfBuffers 2).Built j := by decide +kernel
  have only {j : OpId} (mem : j ∈ (sumOfBuffers 2).walkAll) (generic : ((sumOfBuffers 2).op j).kind = Structured.genericKind) :
      j = 0 := by
    rw [walk] at mem
    revert j
    decide +kernel
  refine ⟨ok,built,mapsOrDeclines ok built (fun j mem generic m among => ?_) (fun j mem generic overlooked => ?_) ⟨10,true⟩ ()⟩
  · rw [only mem generic] at among
    obtain rfl := List.eq_of_mem_replicate (show m ∈ List.replicate 3 (AffineMap.identityOf 2) from among)
    exact ⟨by decide,by decide⟩
  · rw [only mem generic] at overlooked
    exact absurd overlooked.1 (by decide +kernel)

theorem mappingStopsWithoutOutputs : (sumOfBuffers 3).verify = .ok () ∧
    (∀ j ∈ (sumOfBuffers 3).walkAll, (sumOfBuffers 3).Built j) ∧
    (Greedy.apply (rules.map Greedy.Pattern.ofRule) ⟨10, true⟩ (sumOfBuffers 3) ()).fault.isSome = true := by
  have walk : (sumOfBuffers 3).walkAll = [0, 1, 2] := by decide +kernel
  have built : ∀ j ∈ (sumOfBuffers 3).walkAll, (sumOfBuffers 3).Built j := by decide +kernel
  refine ⟨by decide +kernel,built,Greedy.applyStops (by decide) fun p here => ?_⟩
  have alive : p.graph.isAlive 0 = true := by rw [here]; decide +kernel
  have stops : (Greedy.tryAt 0 (rules.map Greedy.Pattern.ofRule) p).2.fault.isSome = true := by
    have added : Stops (add.draft ⟨add.name,0⟩) (.ofGraph (sumOfBuffers 3)) := ⟨.abort,_,rfl,id⟩
    refine Greedy.tryAtStops ⟨add,by simp [rules],.inr (by rw [here]; rfl),here ▸ added⟩ fun r listed tried => ?_
    rw [here] at tried ⊢
    simp only [rules,List.mem_cons,List.not_mem_nil,or_false] at listed
    rcases listed with rfl | rfl | rfl | rfl | rfl | rfl | rfl
    · exact absurd tried (by unfold Greedy.Tried; decide +kernel)
    · exact .inr (Fault.declinesDeclined ..)
    · exact absurd tried (by unfold Greedy.Tried; decide +kernel)
    · exact absurd tried (by unfold Greedy.Tried; decide +kernel)
    · exact .inr (Fault.declinesDeclined ..)
    · exact .inr (Fault.declinesDeclined ..)
    · exact .inl added
  rw [walk,Greedy.visit,if_pos alive]
  dsimp only
  split
  · rename_i fault
    rw [fault]
    rfl
  · rename_i none
    rw [none] at stops
    cases stops

end ToPrimitive

end TileLower
