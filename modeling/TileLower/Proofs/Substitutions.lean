import TileLower.Proofs.Groupings
import TileLower.Proofs.Zeros

/-!
An operation on buffers with another one in its place that writes the same arrays: `Swap.refinesInPlace`, and
`ToPrimitive.replaceRefines` for primitives.
-/
namespace TileLower.Eval

variable {α : Type} [Scalar α] {g g' : Graph} {id new : OpId} {b : BlockId} {F : Value → ValueType → Nat → Prop}
  {memory : Array (NdArray α)} {args : List Ref}

def View.inPlace (id new : OpId) (n : Nat) (F : Value → ValueType → Nat → Prop) : View where
  rename := renameFrom id 0 []
  live v := v.Below n ∧ ∀ i, v ≠ .result id i
  writable _ := True
  bindable v := ∃ i, v = .result new i
  fits := F
  kept v _ := renameFromNil id 0 v
  only _ _ w _ same := (renameFromNil id 0 w).symm.trans same

namespace Swap

variable (swap : Swap α g g' id b [new] []) (later : g.ops.size ≤ new)
  (uses : ∀ v, some v ∈ (g'.op new).operands → some v ∈ (g.op id).operands)
  (suits : ∀ j ∈ (g.block Graph.body).ops, j ≠ id → Suits α (fun _ => True) F g j)
  (free : ∀ i t n, F (.result new i) t n)
  (fits : ∀ s, Started g memory args s → ∀ v r, s.env v = some r → F v (s.arrayAt r).type (s.arrayAt r).data.size)

include swap uses free in
theorem keptInPlace : Kept α (View.inPlace id new g.ops.size F) g' g' new := by
  obtain ⟨scope,place⟩ := swap.place
  have same : renameFrom id 0 [] = fun v => v := funext (renameFromNil id 0)
  refine {
    kind := rfl
    attrs := rfl
    results := rfl
    operands := by simp [View.inPlace,same]
    live := fun v used => ?_
    types := fun v _ => congrArg g'.typeOf (renameFromNil id 0 v)
    writable := fun _ _ _ _ => trivial
    few := .inr fun _ _ => trivial
    region := rfl
    bodies := fun _ _ _ _ ok => ok
    bindable := fun i => ⟨i,rfl⟩
    filled := fun i _ _ _ => free i _ _
    copied := fun _ i _ _ _ _ _ _ _ => free i _ _
    cast := fun _ _ _ _ _ _ => free 0 _ _ }
  have visible := place.sees swap.formed (uses v used)
  exact ⟨(place.has v visible).below,fun i same => place.fresh swap.formed i (same ▸ visible)⟩

include swap later uses suits free fits

theorem anchoredInPlace
    (step : ∀ pre post, (g.block Graph.body).ops = pre ++ id :: post → ∀ s t, ZeroFill.Passed g memory args pre s →
      Sane (fun _ => True) F s → evalOp g id s = .ok () t → evalOp g' new s = .ok () t) :
    Anchored g g' id [new] [] (fun _ => True) F memory args := by
  intro pre post split first s started ran p s' t agree settled ok
  have before (i : Nat) := swap.unbound suits (fun _ none => absurd trivial none) fits split started ran i
  have agree : Agree (View.inPlace id new g.ops.size F) p s s' :=
    ⟨agree.valid,agree.owned,agree.shaped,agree.held,agree.env⟩
  have settled : Settled (View.inPlace id new g.ops.size F) p s :=
    ⟨settled.holds,settled.valid,settled.own,settled.apart⟩
  have moved := step pre post split s t ⟨first,started,ran⟩ (before 0).1 ok
  obtain ⟨q,_,t',ran',agree',passes,-⟩ := (swap.keptInPlace uses free).evalOp p (.refl p) s s' agree () t moved
  obtain ⟨settled',-⟩ := settled.step passes agree'
  have old : id ≠ new := fun same => by
    obtain ⟨scope,place⟩ := swap.place
    exact Nat.not_lt.mpr later (same ▸ Graph.blockInside (place.block swap.formed))
  have unbound (i : Nat) : t.env (.result id i) = none := by
    rw [passes.env _ fun ⟨k,same⟩ => old (by cases same; rfl)]
    exact (before i).2
  have agree' := agree'.settle
  have agree' : Agree (View.before id [] g.ops.size (fun _ => True) F) _ t t' :=
    ⟨agree'.valid,agree'.owned,agree'.shaped,agree'.held,agree'.env⟩
  have settled' : Settled (View.before id [] g.ops.size (fun _ => True) F) _ t :=
    ⟨settled'.holds,settled'.valid,settled'.own,settled'.apart⟩
  have none : ∀ (i : Nat) (a : NdArray α), ([] : List (NdArray α))[i]? = some a →
      ∃ v, ([] : List Value)[i]? = some v ∧ Gives t' t' v ((fun _ => 0 : Nat → Ref) i) a := by
    simp
  obtain ⟨u,agree',settled',more⟩ := agree'.replace settled' unbound (.refl _ t') none nofun (by simp)
  refine ⟨u,t',?_,agree',settled',fun r r' same => more r r' (passes.le.same r r' same)⟩
  rw [evalEach,Step.bindOfOk ran']
  rfl

theorem refinesInPlace (valid : ∀ r ∈ args, r < memory.size)
    (step : ∀ pre post, (g.block Graph.body).ops = pre ++ id :: post → ∀ s t, ZeroFill.Passed g memory args pre s →
      Sane (fun _ => True) F s → evalOp g id s = .ok () t → evalOp g' new s = .ok () t) : Refines g g' memory args :=
  swap.refines valid suits (fun _ none => absurd trivial none) fits
    (swap.anchoredInPlace later uses suits free fits step)

end Swap

theorem evalEachDistinct {ids : List OpId} {s t : Machine α} (distinct : Distinct s) (ok : evalEach g ids s = .ok () t) :
    Distinct t := by
  induction ids generalizing s with
  | nil =>
    cases ok
    exact distinct
  | cons j ids ih =>
    obtain ⟨_,u,first,rest⟩ := Step.bindOk.mp ok
    exact ih (evalOpDistinct distinct first) rest

section Places

variable {vs : List Value} {rs : List Ref} {s t : Machine α} (places : ∀ v ∈ vs, (g.typeOf v).isTensor = false)

include places

omit [Scalar α] in
/- What is not a tensor is read and written where it is. -/
theorem operandArraysPlace {n i} (ok : operandArrays g id n i (vs.map some) s = .ok rs t) :
    vs.map s.env = rs.map some ∧ t = s := by
  induction vs generalizing i rs with
  | nil =>
    cases ok
    exact ⟨rfl,rfl⟩
  | cons v vs ih =>
    obtain ⟨place,places⟩ := List.forall_mem_cons.mp places
    have written (k : Int64) : output g id (some v) k = (value g (some v) : Exec α Ref) := by simp [output,place]
    rw [List.map_cons,operandArrays,written,ite_self] at ok
    obtain ⟨r,⟨_,same,bound⟩,ok⟩ := Step.read valueOk ok
    cases same
    obtain ⟨qs,_,rest,ok⟩ := Step.bindOk.mp ok
    cases ok
    obtain ⟨later,rfl⟩ := ih places rest
    exact ⟨by rw [List.map_cons,bound,later,List.map_cons],rfl⟩

theorem structuredPlace (operands : (g.op id).operands = vs.map some) (ok : structured g id s = .ok () t) :
    ∃ maps b es rs, indexingMaps (g.op id) = .ok maps ∧ (g.op id).region = some b ∧
      loopExtents g maps (vs.map some) = .ok es ∧ vs.map s.env = rs.map some ∧
      Box.each es (point g b (Structured.numInputs (g.op id)) (maps.zip rs)) s = .ok () t := by
  obtain ⟨maps,b,es,rs,_,indexing,region,extents,ran,points⟩ := structuredSteps ok
  rw [operands] at extents ran
  obtain ⟨bound,rfl⟩ := operandArraysPlace places ran
  exact ⟨maps,b,es,rs,indexing,region,extents,bound,points⟩

end Places

end TileLower.Eval

namespace TileLower.ToPrimitive

open Eval

variable {α : Type} [Scalar α] {g : Graph} {id : OpId} {s : Site} {kind : String} {ins : List Operand} {z : Value} {d e : Draft}
  {memory : Array (NdArray α)} {args : List Ref}

def primitiveOp (kind : String) (ins : List Operand) (z : Value) : Operation :=
  ⟨kind,ins ++ [some z],[],OrderedMap.empty,none,none⟩

theorem replaceOk (place : (g.typeOf z).isTensor = false) (ok : replace s kind ins (some z) (.ofGraph g) = .ok () e) :
    Primitive.verify (g.push (primitiveOp kind ins z)) (primitiveOp kind ins z) = .ok () ∧
      e = { Draft.staged g [primitiveOp kind ins z] with replacements := [(s.op, [])] } := by
  have made : Primitive.make kind ins (some z) (.ofGraph g) =
      .ok g.ops.size { Draft.ofGraph g with graph := g.push (primitiveOp kind ins z) } := by
    rw [Primitive.make,Step.bindOfOk (Drafting.typeOfRun z)]
    simp only [Draft.ofGraph,place,Bool.false_eq_true,if_false]
    rfl
  obtain ⟨_,_,ran,ok⟩ := Step.bindOk.mp ok
  rw [made] at ran
  cases ran
  obtain ⟨_,rfl,ok⟩ := Step.read Drafting.graphOk ok
  obtain ⟨_,verified,ok⟩ := Step.read Site.attemptOk ok
  have new : (g.push (primitiveOp kind ins z)).op g.ops.size = primitiveOp kind ins z := g.pushNew _
  change Primitive.verify _ ((g.push (primitiveOp kind ins z)).op g.ops.size) = _ at verified
  rw [new] at verified
  have replaced := Blocking.replaceWithNewOk (g := g) [] ok
  refine ⟨verified,replaced.trans ?_⟩
  have none : ((g.pushAll [primitiveOp kind ins z]).resultsOf g.ops.size).map some = [] := by
    rw [Graph.resultsOf,show (g.pushAll [primitiveOp kind ins z]).op g.ops.size = _ from new]
    rfl
  simp only [List.nil_append,List.length_nil,Nat.add_zero,none]

theorem going (verified : Primitive.verify g (primitiveOp kind ins z) = .ok ()) : kind ≠ Memory.returnKind := by
  rintro rfl
  obtain ⟨_,count,-⟩ := Primitive.verifyCount verified
  cases count

theorem evalOpPrimitive {new} (verified : Primitive.verify g (g.op new) = .ok ()) :
    evalOp g new = (primitive g new : Exec α Unit) := by
  obtain ⟨want,count,-⟩ := Primitive.verifyCount verified
  have isPrimitive (kind : String) (same : (g.op new).kind = kind) (dialect : dialectOf kind == Primitive.dialect) :
      Primitive.isPrimitive (g.op new) = true := by
    rw [Primitive.isPrimitive,Operation.dialect,same]
    exact dialect
  rcases Primitive.countCases count with ⟨kind | kind,-⟩ | ⟨kind | kind | kind | kind,-⟩ <;>
  · have primitive := isPrimitive _ kind (by decide)
    simp only [evalOp,kind,primitive,Structured.isStructured]
    rfl

theorem replaceRefines (formed : g.WellFormed) (mem : id ∈ g.walkAll) (ready : Prepared g id (g.Seen id) d)
    (verified : Primitive.verify (g.push (primitiveOp kind ins z)) (primitiveOp kind ins z) = .ok ())
    (draft : d = { Draft.staged g [primitiveOp kind ins z] with replacements := [(id, [])] })
    (isStructured : Structured.isStructured (g.op id) = true)
    (uses : ∀ v ∈ ins ++ [some z], v ∈ (g.op id).operands) (declared : ∀ j ∈ (g.block Graph.body).ops, g.Declared j)
    (valid : ∀ r ∈ args, r < memory.size) (counted : CountedArguments memory args) (distinct : args.Nodup)
    (step : ∀ pre post, (g.block Graph.body).ops = pre ++ id :: post → ∀ g' : Graph,
      g'.IsAt g.ops.size (primitiveOp kind ins z) → (∀ v, some v ∈ (g.op id).operands → g'.typeOf v = g.typeOf v) →
      Primitive.verify g' (g'.op g.ops.size) = .ok () → ∀ s t, ZeroFill.Passed g memory args pre s → Distinct s →
      Sane (fun _ => True) (Fits g) s → evalOp g id s = .ok () t → primitive g' g.ops.size s = .ok () t) :
    RefinesBy g d id memory args := by
  obtain ⟨target,vals,ready⟩ := ready
  obtain rfl := ready.unmoved (by rw [draft]; rfl)
  obtain rfl : vals = [] := ready.values (by rw [draft]; rfl)
  obtain ⟨fault,b,swap,stands⟩ := Swap.ofPushed (α := α) ready formed mem (.inl rfl) (.ofStructured isStructured)
    (show d.graph = g.pushAll [primitiveOp kind ins z] by rw [draft]; rfl) (by rw [draft]; rfl)
    (List.forall_mem_singleton.mpr (going verified))
  have here : (d.commit id).graph.IsAt g.ops.size (primitiveOp kind ins z) := ⟨_,_,stands 0 _ rfl⟩
  refine ⟨fault,swap.refinesInPlace (le_rfl) (fun v used => ?_) (fun j mem _ => ?_) (fun i t n has => ?_)
    (fun s started => started.fits counted) valid fun pre post split s t passed sane ok => ?_⟩
  · obtain ⟨_,_,op⟩ := here
    rw [op] at used
    exact uses _ used
  · exact (declared j mem).fitting fun v used => Propagation.operandsHas formed mem used
  · exact absurd has.below (Nat.lt_irrefl _)
  · have types (v : Value) (used : some v ∈ (g.op id).operands) := (swap.operandKnown split used).2.2
    have checked : Primitive.verify (d.commit id).graph ((d.commit id).graph.op g.ops.size) = .ok () := by
      obtain ⟨_,_,op⟩ := here
      refine (Primitive.verifyCongr (by rw [op]) (by rw [op]) fun v used => ?_).trans verified
      rw [types v (uses _ used),g.pushType _ (swap.operandKnown split (uses _ used)).1]
    rw [evalOpPrimitive checked]
    have apart : Distinct s := by
      obtain ⟨first,started,ran⟩ := passed
      exact evalEachDistinct (started.distinct distinct) ran
    exact step pre post split _ here types checked s t passed apart sane ok

end TileLower.ToPrimitive
