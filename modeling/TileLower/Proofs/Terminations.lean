import Mathlib.Data.Set.Finite.Lattice
import Mathlib.Order.Bounds.Basic
import TileLower.Proofs.Weights

/-!
Propagation comes to an end. Rewrites and the elimination of dead code make the rank of a function less, and there is
a bound for all sequences of them.
-/
namespace TileLower.Propagation

open List DeadCode

variable {g h : Graph} {order : List OpId} {w : OpId → Nat}

inductive Move : Graph × List OpId → Graph × List OpId → Prop where
  | rewrite {g : Graph} {order pre post : List OpId} {id : OpId} {r : Rule} {d : Draft} (split : order = pre ++ id :: post)
      (alive : g.isAlive id = true) (mem : r ∈ rules) (kind : r.root = (g.op id).kind)
      (drafted : r.draft ⟨r.name,id⟩ (.ofGraph g) = .ok () d) (whole : (d.commit id).fault = none) :
      Move (g, order) ((d.commit id).graph, pre ++ (d.created ++ id :: post))
  | takeOut {g : Graph} {order : List OpId} {id : OpId} (mem : id ∈ order) (alive : g.isAlive id = true) :
      Move (g, order) (takeOut g id, order)

theorem Move.less {t : Graph × List OpId} (move : Move (g, order) t) (weighed : Weighed g w order) :
    Drops g w order t.1 t.2 := by
  cases move with
  | rewrite split alive mem kind drafted whole =>
    obtain ⟨b,block⟩ := Option.isSome_iff_exists.mp alive
    exact ruleLess weighed split block whole mem kind drafted
  | takeOut mem alive =>
    obtain ⟨b,block⟩ := Option.isSome_iff_exists.mp alive
    exact takeOutLess weighed block mem

def candidates (g : Graph) (order : List OpId) : List (Graph × List OpId) :=
  (range order.length).flatMap fun i =>
    let id := order.getD i 0
    (takeOut g id, order) :: rules.map fun r =>
      match r.draft ⟨r.name,id⟩ (.ofGraph g) with
      | .ok () d => ((d.commit id).graph, order.take i ++ (d.created ++ order.drop i))
      | .error _ _ => (g, order)

theorem movesFinite (g : Graph) (order : List OpId) : {t | Move (g, order) t}.Finite := by
  refine (finite_toSet (candidates g order)).subset fun t move => ?_
  cases move with
  | @rewrite _ _ pre post id r d split alive mem kind drafted whole =>
    have here : order.getD pre.length 0 = id := by rw [split]; simp
    refine mem_flatMap.mpr ⟨pre.length,mem_range.mpr (by simp [split]),.tail _ ?_⟩
    refine mem_map.mpr ⟨r,mem,?_⟩
    rw [here,drafted]
    simp [split]
  | takeOut mem alive =>
    obtain ⟨i,lt,rfl⟩ := getElem_of_mem mem
    refine mem_flatMap.mpr ⟨i,mem_range.mpr lt,?_⟩
    rw [getD_eq_getElem _ _ lt]
    exact .head _

inductive Moves : Graph × List OpId → Nat → Graph × List OpId → Prop where
  | none {s : Graph × List OpId} : Moves s 0 s
  | next {s t u : Graph × List OpId} {n : Nat} (move : Move s t) (more : Moves t n u) : Moves s (n + 1) u

theorem Moves.last {s t u n} (moves : Moves s n t) (move : Move t u) : Moves s (n + 1) u := by
  induction moves with
  | none => exact .next move .none
  | next first more ih => exact .next first (ih move)

/- By induction on the rank: the next moves are finitely many, and each of them has a bound. -/
theorem movesBounded (weighed : Weighed g w order) : ∃ N, ∀ n t, Moves (g, order) n t → n ≤ N := by
  have all (x : List Nat × Nat) : ∀ g w order, rank g w order = x → Weighed g w order →
      ∃ N, ∀ n t, Moves (g, order) n t → n ≤ N := by
    induction x using lessWellFounded.induction with
    | h x ih =>
      rintro g w order rfl weighed
      have later (t : Graph × List OpId) (move : Move (g, order) t) : ∃ N, ∀ n u, Moves t n u → n ≤ N := by
        obtain ⟨w',weighed',less⟩ := move.less weighed
        exact ih _ less t.1 w' t.2 rfl weighed'
      choose! bound holds using later
      obtain ⟨N,most⟩ := ((movesFinite g order).image bound).bddAbove
      refine ⟨N + 1,fun n t moves => ?_⟩
      cases moves with
      | none => exact Nat.zero_le _
      | next move more =>
        exact Nat.succ_le_succ ((holds _ move _ _ more).trans (most (Set.mem_image_of_mem bound move)))
  exact all _ g w order rfl weighed

/-- Rewrites of a function by some rules, committed one after the other, at operations of the kinds of the rules. -/
inductive Rewrites (rules : List Rule) : Graph → Nat → Graph → Prop where
  | none {g : Graph} : Rewrites rules g 0 g
  | next {g h : Graph} {n : Nat} {id : OpId} {r : Rule} {d : Draft} (mem : r ∈ rules) (here : id ∈ g.walkAll)
      (kind : r.root = (g.op id).kind) (drafted : r.draft ⟨r.name,id⟩ (.ofGraph g) = .ok () d)
      (whole : (d.commit id).fault = none) (more : Rewrites rules (d.commit id).graph n h) : Rewrites rules g (n + 1) h

theorem draftAlive {r : Rule} {id} {d : Draft} (mem : r ∈ rules) (weighed : Weighed g w order) (here : id ∈ order)
    (drafted : r.draft ⟨r.name,id⟩ (.ofGraph g) = .ok () d) (whole : (d.commit id).fault = none) :
    g.isAlive id = true := by
  have listed : Catalogue.Listed r := by
    refine ⟨[],mem_append_right _ ?_⟩
    simp only [rules,mem_cons,not_mem_nil,or_false] at mem
    simp only [Catalogue.untiled,mem_append,mem_cons]
    tauto
  obtain ⟨pre,post,split⟩ := append_of_mem here
  obtain ⟨target,vals,ready⟩ := Catalogue.ready listed (weighed.ordered.sight split) drafted
  by_contra dead
  have none : (d.graph.op id).block = none := by
    rw [ready.old id ready.within]
    exact Option.not_isSome_iff_eq_none.mp dead
  rw [Draft.commit,none] at whole
  cases whole

theorem Rewrites.moves {n} (rewrites : Rewrites rules g n h) (weighed : Weighed g w order) :
    ∃ t, Moves (g, order) n t := by
  induction rewrites generalizing w order with
  | none => exact ⟨_,.none⟩
  | next mem here kind drafted whole more ih =>
    have inside := weighed.ordered.walks here
    obtain ⟨pre,post,split⟩ := append_of_mem inside
    have move := Move.rewrite split (draftAlive mem weighed inside drafted whole) mem kind drafted whole
    obtain ⟨w',weighed',-⟩ := move.less weighed
    obtain ⟨t,moves⟩ := ih weighed'
    exact ⟨t,.next move moves⟩

section Runs

open Greedy

variable {σ : Type} {s : Graph × List OpId}

def Tracked (s : Graph × List OpId) (ids : List OpId) (n : Nat) (g : Graph) : Prop :=
  ∃ w order, Weighed g w order ∧ Moves s n (g, order) ∧ ∀ j ∈ ids, j ∈ order

theorem Tracked.move {ids n} (tracked : Tracked s ids n g)
    (move : ∀ w order, Weighed g w order → (∀ j ∈ ids, j ∈ order) → ∃ order', Move (g, order) (h, order') ∧
      ∀ j ∈ order, j ∈ order') : Tracked s ids (n + 1) h := by
  obtain ⟨w,order,weighed,moves,known⟩ := tracked
  obtain ⟨order',move,more⟩ := move w order weighed known
  obtain ⟨w',weighed',-⟩ := move.less weighed
  exact ⟨w',order',weighed',moves.last move,fun j mem => more j (known j mem)⟩

theorem Tracked.walked {n} (tracked : Tracked s [] n g) : Tracked s g.walkAll n g := by
  obtain ⟨w,order,weighed,moves,-⟩ := tracked
  exact ⟨w,order,weighed,moves,fun j mem => weighed.ordered.walks mem⟩

theorem Tracked.forget {ids n} (tracked : Tracked s ids n g) : Tracked s [] n g := by
  obtain ⟨w,order,weighed,moves,-⟩ := tracked
  exact ⟨w,order,weighed,moves,nofun⟩

theorem passTracked {ids m n} (tracked : Tracked s ids (m + n) g) :
    Tracked s ids (m + (pass ids (g, n)).2) (pass ids (g, n)).1 := by
  refine passKeeps (I := fun g n => Tracked s ids (m + n) g) (fun id mem g n tracked dead => ?_) tracked
  have alive : g.isAlive id = true := by
    simp only [isDead,Bool.and_eq_true] at dead
    exact dead.1.2
  exact tracked.move fun w order weighed known => ⟨order,.takeOut (known id mem) alive,fun _ mem => mem⟩

theorem eliminateTracked {m} (tracked : Tracked s [] m g) :
    Tracked s [] (m + (eliminate g).2) (eliminate g).1 := by
  refine passesKeep (I := fun g n => Tracked s [] (m + n) g) (fun g n tracked => ?_) _ tracked
  obtain ⟨w,order,weighed,moves,-⟩ := tracked
  have known : Tracked s g.walkAll.reverse (m + n) g :=
    ⟨w,order,weighed,moves,fun j mem => weighed.ordered.walks (mem_reverse.mp mem)⟩
  exact (passTracked known).forget

def Accounted (s : Graph × List OpId) (ids : List OpId) : Known := fun g n e broken =>
  broken = true ∨ Tracked s ids (n + e) g

theorem attemptAccounted {among} (sub : ∀ r ∈ among, r ∈ rules) {ids id} (mem : id ∈ ids) {p q : Progress σ}
    (holds : (Accounted s ids).of p) (alive : p.graph.isAlive id = true) {changed}
    (attempted : Attempted among id p changed q) : (Accounted s ids).of q := by
  obtain ⟨attempt,erased,-⟩ := attempted
  cases attempt with
  | nothing graph changes fault =>
    rcases fault with same | broken
    · rw [Known.of,Accounted,graph,changes,erased,same]
      exact holds
    · exact .inl broken
  | broken mem drafted graph broken changes fault => exact .inl fault
  | committed mem' drafted graph whole changes fault applies =>
    rw [Known.of,Accounted,graph,changes,erased,fault]
    refine holds.imp_right fun tracked => ?_
    rw [Nat.add_right_comm]
    have inside := sub _ mem'
    refine tracked.move fun w order weighed known => ?_
    obtain ⟨pre,post,split⟩ := append_of_mem (known id mem)
    refine ⟨_,.rewrite split alive inside (applies.resolve_left fun none => ?_) drafted whole,fun j mem => ?_⟩
    · simp only [rules,mem_cons,not_mem_nil,or_false] at inside
      rcases inside with rfl | rfl | rfl | rfl <;> exact absurd none (by decide)
    · rw [split] at mem
      simp only [mem_append,mem_cons] at mem ⊢
      tauto

theorem applyAccounted {among : List Rule} (sub : ∀ r ∈ among, r ∈ rules) (weighed : Weighed g w order) (o : Options)
    (x : σ) : (Accounted (g, order) []).of (apply (among.map Pattern.ofRule) o g x) := by
  refine applyKeeps (fun p going holds => ?_) (fun _ g n e holds => ?_) (.inr ⟨w,order,weighed,.none,nofun⟩)
  · have visiting : (Accounted (g, order) p.graph.walkAll).of p := holds.imp_right Tracked.walked
    have visited := visitKeeps (I := (Accounted (g, order) p.graph.walkAll).of) (fun id mem p _ holds alive =>
      attemptAccounted sub mem holds alive (tryAtAttempted among id p)) false going visiting
    exact visited.imp_right Tracked.forget
  · refine holds.imp_right fun tracked => ?_
    rw [← Nat.add_assoc]
    exact eliminateTracked tracked

end Runs

open Relayout in
def paddedRows : Graph :=
  straight [.tensor .f32 [2, 1, 2], .tensor .f32 [2, 2], .scalar .f32, .tensor .f32 [3, 1, 2]]
    [convertOp unpackKind (some (.argument 0 0)) (some (.argument 0 1)) (.tensor .f32 [2, 2]) ⟨[1],[],[2]⟩ .kept,
      padOp (some (.result 0 0)) (some (.argument 0 2)) (.tensor .f32 [3, 2]) (some [0, 0]) (some [1, 0]),
      convertOp packKind (some (.result 1 0)) (some (.argument 0 3)) (.tensor .f32 [3, 1, 2]) ⟨[1],[],[2]⟩ .kept,
      ⟨Memory.returnKind,[some (.result 2 0)],[],OrderedMap.empty,none,none⟩] [0, 1, 2, 3]

def commitsAt (r : Rule) (id : OpId) (g : Graph) : Bool := match r.draft ⟨r.name,id⟩ (.ofGraph g) with
  | .ok _ d => (d.commit id).fault.isNone
  | .error _ _ => false

end TileLower.Propagation
