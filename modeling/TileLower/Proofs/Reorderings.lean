import TileLower.Proofs.Structured

/-!
Two nests with the same points in another order. If the points that write one element of the outputs do to it what they
did, the outputs hold the same elements in other places.
-/
namespace TileLower

open Outcome List

namespace Box

def sections : List (Option Nat) → List Nat → List (List Nat)
  | some i :: ps, n :: ns => if i < n then (sections ps ns).map (i :: ·) else []
  | none :: ps, n :: ns => (range n).flatMap fun i => (sections ps ns).map (i :: ·)
  | _, _ => [[]]

def Meets : List (Option Nat) → List Nat → Prop
  | some i :: ps, j :: js => j = i ∧ Meets ps js
  | none :: ps, _ :: js => Meets ps js
  | _, _ => True

theorem flatMapOnly {β : Type} {i n : Nat} {f : Nat → List β} (only : ∀ j, j < n → j ≠ i → f j = []) :
    (range n).flatMap f = if i < n then f i else [] := by
  induction n with
  | zero => simp
  | succ n ih =>
    rw [range_succ,flatMap_append,ih fun j below => only j (by omega),flatMap_singleton]
    by_cases here : i = n
    · subst here
      simp
    · rw [only n (by omega) (Ne.symm here),append_nil]
      exact if_congr (by omega) rfl rfl

theorem filterGrid {ps : List (Option Nat)} {ns : List Nat} (length : ps.length = ns.length) {f : List Nat → Bool}
    (meets : ∀ is, Inside is ns → (f is = true ↔ Meets ps is)) : (grid ns).filter f = sections ps ns := by
  induction ns generalizing ps f with
  | nil =>
    cases ps with
    | nil => simp [grid,sections,(meets [] .nil).mpr trivial]
    | cons => simp at length
  | cons n ns ih =>
    cases ps with
    | nil => simp at length
    | cons p ps =>
      have rest {i : Nat} (below : i < n) (same : ∀ js, Meets (p :: ps) (i :: js) ↔ Meets ps js) :
          ((grid ns).map (i :: ·)).filter f = (sections ps ns).map (i :: ·) := by
        rw [filter_map,ih (by simpa using length) fun js inside => ?_]
        exact (meets (i :: js) (.cons below inside)).trans (same js)
      rw [grid,filter_flatMap]
      cases p with
      | none =>
        refine flatMap_congr fun i mem => ?_
        exact rest (mem_range.mp mem) fun js => Iff.rfl
      | some i =>
        rw [flatMapOnly (i := i) fun j below other => ?_,sections]
        · split
          · rename_i below
            exact rest below fun js => and_iff_right rfl
          · rfl
        · rw [filter_map,filter_eq_nil_iff.mpr,map_nil]
          intro js mem found
          exact other ((meets (j :: js) (.cons below (memGrid.mp mem))).mp found).1

end Box

theorem foldlMSteps {ι ν : Type} {f : ν → ι → Outcome ν} {is : List ι} {v w : ν} (ok : is.foldlM f v = .ok w) {i : ι}
    (mem : i ∈ is) : ∃ u x, f u i = .ok x := by
  induction is generalizing v with
  | nil => cases mem
  | cons j is ih =>
    rw [foldlM_cons] at ok
    obtain ⟨u,first,rest⟩ := bindOk.mp ok
    rcases mem_cons.mp mem with rfl | mem
    · exact ⟨v,u,first⟩
    · exact ih rest mem

theorem foldlMPerm {ι ν : Type} {f : ν → ι → Outcome ν} {is js : List ι} (perm : is.Perm js)
    (swap : ∀ i ∈ is, ∀ j ∈ is, ∀ u v w, f u i = .ok v → f v j = .ok w → ∃ x, f u j = .ok x ∧ f x i = .ok w) {u w : ν}
    (ok : is.foldlM f u = .ok w) : js.foldlM f u = .ok w := by
  induction perm generalizing u with
  | nil => exact ok
  | @cons i is js _ ih =>
    rw [foldlM_cons] at ok ⊢
    obtain ⟨v,first,rest⟩ := bindOk.mp ok
    rw [first,bindOfOk]
    exact ih (fun i hi j hj => swap i (.tail _ hi) j (.tail _ hj)) rest
  | swap i j is =>
    simp only [foldlM_cons] at ok ⊢
    obtain ⟨v,first,ok⟩ := bindOk.mp ok
    obtain ⟨w,second,rest⟩ := bindOk.mp ok
    obtain ⟨x,first,second⟩ := swap j (by simp) i (by simp) _ _ _ first second
    rw [first,bindOfOk,second,bindOfOk,rest]
  | trans left _ ih ih' =>
    exact ih' (fun i hi j hj => swap i (left.mem_iff.mpr hi) j (left.mem_iff.mpr hj)) (ih swap ok)

namespace Eval

open Box (Inside grid)

variable {α : Type} [Scalar α]

structure Reorders (es es' ks ks' : List Nat) (key key' p place : List Nat → List Nat) : Prop where
  onto : ∀ y, Inside y es' → ∃ x, Inside x es ∧ p x = y
  keys : ∀ x, Inside x es → key' (p x) = place (key x)
  places : ∀ k, Inside k ks → Inside (place k) ks'
  apart : ∀ k k', Inside k ks → Inside k' ks → place k = place k' → k = k'

structure Holds (s : Machine α) (vs ws : List Value) (rs qs : List Ref) (ks : List Nat) : Prop where
  ins : vs.map s.env = rs.map some
  outs : ws.map s.env = qs.map some
  valid : ∀ r ∈ rs, r < s.memory.size
  full : ∀ q ∈ qs, (s.arrayAt q).Full ks

section Reordered

variable {g g' : Graph} {id id' : OpId} {b b' : BlockId} {ims oms ims' oms' : List AffineMap} {vs ws vs' ws' : List Value}
  {es ks es' ks' : List Nat} {key key' p place : List Nat → List Nat} {s s' t : Machine α} {rs qs rs' qs' : List Ref}

theorem nestStepFollows (body : ∀ xs ys : List α, evalBody g b xs = .ok ys → evalBody g' b' xs = .ok ys) {n : Nat}
    {reads reads' : Outcome (List α)} (same : ∀ xs, reads = .ok xs → reads' = .ok xs) {k k' : List Nat}
    (inside : Inside k ks → Inside k' ks') {v w : List α} (ok : nestStep g b n ks reads k v = .ok w) :
    nestStep g' b' n ks' reads' k' v = .ok w := by
  obtain ⟨⟨xs,read,ran⟩,within,length⟩ := nestStepOk.mp ok
  exact nestStepOk.mpr ⟨⟨xs,same xs read,body _ _ ran⟩,within.imp_right inside,length⟩

omit [Scalar α] in
theorem readAllFollows {idx idx' : List Int64} {ps ps' : List (AffineMap × NdArray α)}
    (each : Forall₂ (fun p p' => ∀ x, (do p.2.get (← p.1.eval idx)) = .ok x →
      (do p'.2.get (← p'.1.eval idx')) = .ok x) ps ps') {xs : List α} (ok : readAll idx ps = .ok xs) :
    readAll idx' ps' = .ok xs := by
  induction each generalizing xs with
  | nil => exact ok
  | @cons p p' ps ps' here _ ih =>
    obtain ⟨i,map,ok⟩ := bindOk.mp ok
    obtain ⟨x,got,ok⟩ := bindOk.mp ok
    obtain ⟨xs,rest,ok⟩ := bindOk.mp ok
    obtain ⟨i',map',got'⟩ := bindOk.mp (here x (bindOk.mpr ⟨i,map,got⟩))
    cases ok
    exact bindOk.mpr ⟨i',map',bindOk.mpr ⟨x,got',bindOk.mpr ⟨xs,ih rest,rfl⟩⟩⟩

omit [Scalar α] in
theorem readAllLength {idx} {ps : List (AffineMap × NdArray α)} {xs : List α} (ok : readAll idx ps = .ok xs) :
    xs.length = ps.length := by
  induction ps generalizing xs with
  | nil =>
    cases ok
    rfl
  | cons p ps ih =>
    obtain ⟨i,-,ok⟩ := bindOk.mp ok
    obtain ⟨x,-,ok⟩ := bindOk.mp ok
    obtain ⟨xs,rest,ok⟩ := bindOk.mp ok
    cases ok
    rw [length_cons,length_cons,ih rest]

theorem structuredReordered (nest : TensorNest g id b ims oms vs ws es ks key)
    (nest' : TensorNest g' id' b' ims' oms' vs' ws' es' ks' key') (reorders : Reorders es es' ks ks' key key' p place)
    (holds : Holds s vs ws rs qs ks) (holds' : Holds s' vs' ws' rs' qs' ks')
    (written : ws = [] → ∀ x, Inside x es → Inside (key x) ks)
    (initial : ∀ k, Inside k ks → qs'.map (fun q => (s'.arrayAt q).cell ks' (place k)) =
      qs.map fun q => (s.arrayAt q).cell ks k)
    (folds : ∀ k, Inside k ks → ∀ v w, ((grid es).filter (key · = k)).foldlM (fun v idx =>
        nestStep g b ws.length ks (readAll (words idx) (ims.zip (rs.map s.arrayAt))) (key idx) v) v = .ok w →
      ((grid es').filter (key' · = place k)).foldlM (fun v idx => nestStep g' b' ws'.length ks'
        (readAll (words idx) (ims'.zip (rs'.map s'.arrayAt))) (key' idx) v) v = .ok w)
    (ok : structured g id s = .ok () t) :
    ∃ c c', t = s.bindAll id 0 (tabulateAll (qs.map s.arrayAt) ks c) ∧
      structured g' id' s' = .ok () (s'.bindAll id' 0 (tabulateAll (qs'.map s'.arrayAt) ks' c')) ∧
      ∀ k, Inside k ks → c' (place k) = c k := by
  obtain ⟨c,all,rfl⟩ := (structuredOk nest holds.ins holds.outs holds.valid holds.full).mp ok
  have table : ∃ c' : List Nat → List α, (∀ k, Inside k ks → c' (place k) = c k) ∧
      ∀ y, (∀ k, Inside k ks → place k ≠ y) → c' y = qs'.map fun q => (s'.arrayAt q).cell ks' y := by
    classical
    refine ⟨fun y => if found : ∃ k,Inside k ks ∧ place k = y then c found.choose
      else qs'.map fun q => (s'.arrayAt q).cell ks' y,fun k inside => ?_,fun y away => ?_⟩
    · have found : ∃ k', Inside k' ks ∧ place k' = place k := ⟨k,inside,rfl⟩
      refine (dif_pos found).trans ?_
      rw [reorders.apart _ _ found.choose_spec.1 inside found.choose_spec.2]
    · exact dif_neg fun ⟨k,inside,here⟩ => away k inside here
  obtain ⟨c',here,away⟩ := table
  refine ⟨c,c',rfl,(structuredOk nest' holds'.ins holds'.outs holds'.valid holds'.full).mpr ⟨c',fun y => ?_,rfl⟩,here⟩
  by_cases found : ∃ k, Inside k ks ∧ place k = y
  · obtain ⟨k,inside,rfl⟩ := found
    rw [here k inside,initial k inside]
    exact folds k inside _ _ (all k)
  · /- No point writes there: it would be a point of the first nest, which writes inside its outputs only. -/
    have none : (grid es').filter (key' · = y) = [] := by
      refine filter_eq_nil_iff.mpr fun z mem same => ?_
      obtain ⟨x,inside,rfl⟩ := reorders.onto z (Box.memGrid.mp mem)
      obtain ⟨_,_,step⟩ := foldlMSteps (all (key x))
        (mem_filter.mpr ⟨Box.memGrid.mpr inside,decide_eq_true rfl⟩)
      obtain ⟨-,within,-⟩ := nestStepOk.mp step
      refine found ⟨key x,within.elim (fun zero => written (length_eq_zero_iff.mp zero) x inside) (·),?_⟩
      exact (reorders.keys x inside).symm.trans (of_decide_eq_true same)
    rw [none,away y fun k inside here => found ⟨k,inside,here⟩]
    rfl

end Reordered

end Eval

end TileLower
