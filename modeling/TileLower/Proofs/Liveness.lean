import TileLower.Proofs.Eliminations
import TileLower.Proofs.WellFormedness

/-!
What the elimination of dead code leaves: the operations that are needed. Main statement: `DeadCode.eliminateExact`.
-/
namespace TileLower

open List

namespace Graph

variable {g : Graph} {b : BlockId}

inductive Under (g : Graph) : BlockId → OpId → Prop where
  | here {b : BlockId} {j : OpId} (listed : j ∈ (g.block b).ops) : Under g b j
  | deeper {b r : BlockId} {p j : OpId} (listed : p ∈ (g.block b).ops) (region : (g.op p).region = some r)
      (inner : Under g r j) : Under g b j

theorem Under.walked {j} (under : g.Under b j) {n visible} (formed : g.Formed n b visible) : j ∈ g.walk n b := by
  induction under generalizing n visible with
  | here listed =>
    cases n with
    | zero => cases formed
    | succ n => exact mem_flatMap.mpr ⟨_,listed,.head _⟩
  | @deeper b r p j listed region inner ih =>
    cases n with
    | zero => cases formed
    | succ n =>
      obtain ⟨pre,post,split⟩ := append_of_mem listed
      have ops := formed.2
      rw [split] at ops
      exact walkRegion split region (ih (ops.at.region r region))

theorem Scope.seen {visible} (scope : g.Scope b visible) {id i} (mem : .result id i ∈ visible) :
    ∃ c around pre p post r, g.Scope c around ∧ (g.block c).ops = pre ++ p :: post ∧
      id ∈ pre ∧ (g.op p).region = some r ∧ ∀ j, g.Under b j → g.Under r j := by
  induction scope with
  | body => cases mem
  | @region b visible pre post p r outer split region ih =>
    rcases seenResult mem with old | ⟨before,-⟩
    · obtain ⟨c,around,pre',q,post',r',scope,split',before,region',under⟩ := ih old
      exact ⟨c,around,pre',q,post',r',scope,split',before,region',
        fun j inner => under j (.deeper (by simp [split]) region inner)⟩
    · exact ⟨b,visible,pre,p,post,r,outer,split,before,region,fun _ inner => inner⟩

theorem At.after (formed : g.WellFormed) {c scope visible j id} (place : g.At c scope j) {i}
    (seen : .result id i ∈ scope) (here : g.Scope b visible) {pre post} (split : (g.block b).ops = pre ++ id :: post) :
    j ∈ post ∨ ∃ p ∈ post, ∃ r, (g.op p).region = some r ∧ g.Under r j := by
  -- Two ways to cut the block at an operation that stands before another one.
  have later {before after : List OpId} {q : OpId} (cut : (g.block b).ops = before ++ q :: after) (early : id ∈ before) :
      q ∈ post := by
    obtain ⟨x,y,rfl⟩ := append_of_mem early
    have once := here.once formed
    rw [split] at once
    rw [split,append_assoc,cons_append] at cut
    obtain ⟨absent,-⟩ := nodup_cons.mp (nodup_middle.mp once)
    obtain ⟨-,-,rfl⟩ := (append_cons_inj_of_notMem (fun mem => absent (mem_append_left _ mem))
      fun mem => absent (mem_append_right _ mem)).mp cut
    exact mem_append_right _ (.head _)
  have sameBlock {d : BlockId} {around : List Value} (there : g.Scope d around) (listed : id ∈ (g.block d).ops) : d = b :=
    Option.some.inj ((there.block formed listed).symm.trans (here.block formed (by simp [split])))
  obtain ⟨around,before,after,outer,cut,rfl⟩ := place
  rcases seenResult seen with old | ⟨early,-⟩
  · obtain ⟨d,_,before',p,after',r,there,cut',early,region,under⟩ := outer.seen old
    obtain rfl := sameBlock there (by simp [cut',early])
    exact .inr ⟨p,later cut' early,r,region,under j (.here (by simp [cut]))⟩
  · obtain rfl := sameBlock outer (by simp [cut,early])
    exact .inl (later cut early)

theorem walkSublist {h : Graph} (ops : ∀ b, (h.block b).ops.Sublist (g.block b).ops)
    (regions : ∀ j, (h.op j).region = (g.op j).region) (n : Nat) (b : BlockId) : (h.walk n b).Sublist (g.walk n b) := by
  induction n generalizing b with
  | zero => exact Sublist.refl _
  | succ n ih =>
    refine ((ops b).flatMap _).trans (Sublist.flatMap_right _ fun id _ => ?_)
    rw [regions id]
    refine Sublist.cons_cons _ ?_
    split
    · exact ih _
    · exact Sublist.refl _

end Graph

open TileLower.Graph

namespace DeadCode

variable {g h : Graph}

inductive Needed (g : Graph) : OpId → Prop where
  | top {j : OpId} (listed : j ∈ (g.block body).ops) (bare : (g.op j).results = []) : Needed g j
  | inner {p j : OpId} {r : BlockId} (outer : Needed g p) (region : (g.op p).region = some r)
      (listed : j ∈ (g.block r).ops) (bare : (g.op j).results = []) : Needed g j
  | used {user j : OpId} {i : Nat} (needed : Needed g user) (operand : some (.result j i) ∈ (g.op user).operands) :
      Needed g j

inductive Opened (g : Graph) : BlockId → Prop where
  | body : Opened g body
  | region {b r : BlockId} {p : OpId} (outer : Opened g b) (listed : p ∈ (g.block b).ops) (needed : Needed g p)
      (region : (g.op p).region = some r) : Opened g r

theorem Opened.scope {b} (opened : Opened g b) : ∃ visible, g.Scope b visible ∧
    ∀ id i, .result id i ∈ visible → ∃ c, Opened g c ∧ id ∈ (g.block c).ops := by
  induction opened with
  | body => exact ⟨[],.body,fun _ _ none => nomatch none⟩
  | @region b r p outer listed needed region ih =>
    obtain ⟨visible,scope,seen⟩ := ih
    obtain ⟨pre,post,split⟩ := append_of_mem listed
    refine ⟨_,.region scope split region,fun id i mem => ?_⟩
    rcases seenResult mem with old | ⟨before,-⟩
    · exact seen id i old
    · exact ⟨b,outer,by simp [split,before]⟩

/- What a needed operation uses is visible to it, so it stands in the same block or in one around it. -/
theorem Needed.opened (formed : g.WellFormed) {j} (needed : Needed g j) : ∃ b, Opened g b ∧ j ∈ (g.block b).ops := by
  induction needed with
  | top listed => exact ⟨body,.body,listed⟩
  | @inner p j r outer region listed bare ih =>
    obtain ⟨b,opened,there⟩ := ih
    exact ⟨r,.region opened there outer region,listed⟩
  | @used user j i needed operand ih =>
    obtain ⟨b,opened,there⟩ := ih
    obtain ⟨visible,scope,seen⟩ := opened.scope
    obtain ⟨pre,post,split⟩ := append_of_mem there
    rcases seenResult (At.sees ⟨visible,pre,post,scope,split,rfl⟩ formed operand) with old | ⟨before,-⟩
    · exact seen j i old
    · exact ⟨b,opened,by simp [split,before]⟩

structure Spares (g h : Graph) : Prop where
  thins : g.Thins h
  formed : h.WellFormed
  needed : ∀ b, ∀ j ∈ (g.block b).ops, Needed g j → j ∈ (h.block b).ops

namespace Spares

variable (spares : Spares g h) (formed : g.WellFormed)

include spares

theorem opened {b} (opened : Opened g b) : ∃ visible, h.Scope b visible := by
  induction opened with
  | body => exact ⟨[],.body⟩
  | @region b r p outer listed needed region ih =>
    obtain ⟨visible,scope⟩ := ih
    obtain ⟨pre,post,split⟩ := append_of_mem (spares.needed b p listed needed)
    obtain ⟨_,same⟩ := spares.thins.ops p
    exact ⟨_,.region scope split (by rw [same,region])⟩

include formed

theorem walked {j} (needed : Needed g j) : j ∈ h.walkAll := by
  obtain ⟨b,opened,listed⟩ := needed.opened formed
  obtain ⟨visible,scope⟩ := spares.opened opened
  obtain ⟨seen,place⟩ := scope.place (spares.needed b j listed needed)
  exact place.walked spares.formed

theorem notNeeded {id} (dead : isDead h id = true) : ¬ Needed g id := by
  obtain ⟨_,same⟩ := spares.thins.ops id
  rw [isDead,Bool.and_eq_true,Bool.and_eq_true] at dead
  obtain ⟨⟨results,-⟩,unused⟩ := dead
  have bare : (g.op id).results ≠ [] := fun none => by simp [same,none] at results
  intro needed
  cases needed with
  | top _ none => exact bare none
  | inner _ _ _ none => exact bare none
  | @used user _ i needed operand =>
    obtain ⟨_,sameUser⟩ := spares.thins.ops user
    have there := spares.walked formed needed
    obtain ⟨_,known,defined⟩ := operandsDefined formed.verify (spares.thins.walked there) _ operand
    cases known
    refine absurd ?_ (Bool.eq_false_iff.mp ((Bool.not_eq_true' _).mp unused))
    refine any_eq_true.mpr ⟨.result id i,mem_map.mpr ⟨i,mem_range.mpr ?_,rfl⟩,
      any_eq_true.mpr ⟨user,there,contains_iff_mem.mpr ?_⟩⟩
    · rw [same]
      exact defined.2
    · rw [sameUser]
      exact operand

theorem takeOut {id} (dead : isDead h id = true) : Spares g (takeOut h id) := by
  refine ⟨spares.thins.takeOut formed.verify dead,?_,fun b j listed needed => ?_⟩
  · unfold DeadCode.takeOut
    split
    · rename_i b block
      exact (eraseSplice spares.formed block dead).wellFormed spares.formed
    · exact spares.formed
  · have kept := spares.needed b j listed needed
    have other : j ≠ id := fun same => spares.notNeeded formed dead (same ▸ needed)
    unfold DeadCode.takeOut
    split
    · rw [eraseBlock]
      split
      · exact (mem_erase_of_ne other).mpr kept
      · exact kept
    · exact kept

omit formed in
theorem needs {j} (needed : Needed h j) : Needed g j := by
  have same (k : OpId) : (h.op k).results = (g.op k).results ∧ (h.op k).region = (g.op k).region ∧
      (h.op k).operands = (g.op k).operands := by
    obtain ⟨_,same⟩ := spares.thins.ops k
    rw [same]
    exact ⟨rfl,rfl,rfl⟩
  induction needed with
  | top listed bare => exact .top ((spares.thins.omits _).subset listed) ((same _).1 ▸ bare)
  | inner _ region listed bare ih =>
    exact .inner ih ((same _).2.1 ▸ region) ((spares.thins.omits _).subset listed) ((same _).1 ▸ bare)
  | used _ operand ih => exact .used ih ((same _).2.2 ▸ operand)

omit formed in
theorem around {b visible} (scope : h.Scope b visible) : ∃ visible, g.Scope b visible := by
  induction scope with
  | body => exact ⟨[],.body⟩
  | @region b visible pre post p r outer split region ih =>
    obtain ⟨visible,scope⟩ := ih
    have listed : p ∈ (g.block b).ops := (spares.thins.omits b).subset (by simp [split])
    obtain ⟨pre,post,split⟩ := append_of_mem listed
    obtain ⟨_,same⟩ := spares.thins.ops p
    exact ⟨_,.region scope split (by rw [← region,same])⟩

theorem same {j} (mem : j ∈ h.walkAll) : h.op j = g.op j := by
  obtain ⟨c,_,visible,pre,post,scope,split,-⟩ := atOfWalk .body mem
  have listed : j ∈ (h.block c).ops := by simp [split]
  obtain ⟨_,scope'⟩ := spares.around scope
  have block := scope.block spares.formed listed
  have block' := scope'.block formed ((spares.thins.omits c).subset listed)
  obtain ⟨e,same⟩ := spares.thins.ops j
  rw [same] at block ⊢
  dsimp only at block
  rw [block,← block']

omit formed in
theorem sublist : h.walkAll.Sublist g.walkAll := by
  rw [walkAll,walkFrom,spares.thins.blocks]
  refine walkSublist (fun b => (spares.thins.omits b).sublist) (fun j => ?_) _ _
  obtain ⟨_,same⟩ := spares.thins.ops j
  rw [same]

end Spares

theorem eliminateSpares (formed : g.WellFormed) : Spares g (eliminate g).1 :=
  eliminateKeeps (fun _ _ dead spares => spares.takeOut formed dead)
    ⟨.refl g,formed,fun _ _ listed _ => listed⟩

/-- The passes over a function, from its first state and count to its last: they end with one that takes out nothing. -/
inductive Ends : Graph × Nat → Graph × Nat → Prop where
  | quiet {g h : Graph} {n : Nat} (passed : pass g.walkAll.reverse (g, n) = (h, n)) : Ends (g, n) (h, n)
  | again {g h : Graph} {n m : Nat} {last : Graph × Nat} (passed : pass g.walkAll.reverse (g, n) = (h, m)) (more : m ≠ n)
      (rest : Ends (h, m) last) : Ends (g, n) last

section Passes

variable {ids : List OpId} {n m : Nat}

theorem passLe : n ≤ (pass ids (g, n)).2 :=
  passKeeps (I := fun _ k => n ≤ k) (fun _ _ _ _ le _ => Nat.le_succ_of_le le) (Nat.le_refl n)

theorem passQuiet : pass ids (g, n) = (h, n) ↔ h = g ∧ ∀ id ∈ ids, isDead g id = false := by
  induction ids generalizing n with
  | nil => exact ⟨fun same => ⟨(congrArg Prod.fst same).symm,by simp⟩,fun both => by rw [both.1,pass]⟩
  | cons id ids ih =>
    rw [pass,forall_mem_cons]
    split
    · rename_i dead
      refine ⟨fun passed => ?_,fun both => absurd dead (Bool.eq_false_iff.mp both.2.1)⟩
      have le : n + 1 ≤ (pass ids (DeadCode.takeOut g id, n + 1)).2 := passLe
      rw [passed] at le
      exact absurd le (Nat.not_succ_le_self n)
    · rename_i alive
      rw [ih]
      simp [alive]

/- The number of operations still in a block bounds what can be taken out. -/
theorem takeOutAlive {all : List OpId} (sound : g.Sound all) {id} (mem : id ∈ all) (dead : isDead g id = true) :
    all.countP (takeOut g id).isAlive + 1 ≤ all.countP g.isAlive := by
  have alive : g.isAlive id = true := by
    rw [isDead,Bool.and_eq_true,Bool.and_eq_true] at dead
    exact dead.1.2
  obtain ⟨b,block⟩ := Option.isSome_iff_exists.mp alive
  have taken : takeOut g id = g.erase b id := by rw [takeOut,block]
  have gone : (takeOut g id).isAlive id = false := by
    rw [taken,isAlive,eraseHere _ _ _ (sound.listed id mem b block)]
    rfl
  have fewer (j : OpId) (here : (takeOut g id).isAlive j = true) : g.isAlive j = true := by
    have other : j ≠ id := fun same => by simp [same,gone] at here
    rwa [taken,isAlive,eraseOther _ _ _ other] at here
  obtain ⟨pre,post,rfl⟩ := append_of_mem mem
  simp only [countP_append,countP_cons,alive,gone]
  have before := countP_mono_left (l := pre) fun j _ => fewer j
  have after := countP_mono_left (l := post) fun j _ => fewer j
  simp only [if_true,Bool.false_eq_true,if_false]
  omega

theorem passAlive {all : List OpId} (among : ∀ j ∈ ids, j ∈ all) (sound : g.Sound all) :
    (pass ids (g, n)).2 + all.countP (pass ids (g, n)).1.isAlive ≤ n + all.countP g.isAlive := by
  induction ids generalizing g n with
  | nil => exact le_rfl
  | cons id ids ih =>
    obtain ⟨mem,later⟩ := forall_mem_cons.mp among
    rw [pass]
    split
    · rename_i dead
      have rest := ih (n := n + 1) later (takeOutSound sound mem dead)
      have fewer := takeOutAlive sound mem dead
      omega
    · exact ih later sound

theorem passesEnd {all : List OpId} {fuel} (among : ∀ j ∈ g.walkAll, j ∈ all) (sound : g.Sound all)
    (enough : all.countP g.isAlive < fuel) : Ends (g, n) (passes fuel (g, n)) := by
  induction fuel generalizing g n with
  | zero => cases enough
  | succ fuel ih =>
    have inside : ∀ j ∈ g.walkAll.reverse, j ∈ all := fun j mem => among j (mem_reverse.mp mem)
    have sound' := passSound (n := n) inside sound
    have count := passAlive (n := n) inside sound
    have le : n ≤ (pass g.walkAll.reverse (g, n)).2 := passLe
    have thins : g.Thins (pass g.walkAll.reverse (g, n)).1 :=
      passKeeps (I := fun h _ => g.Thins h) (fun _ _ _ _ thins dead => thins.takeOut sound.formed.verify dead) (.refl g)
    rw [passes]
    generalize passed : pass g.walkAll.reverse (g, n) = out at sound' count le thins ⊢
    obtain ⟨h,m⟩ := out
    dsimp only at sound' count le thins ⊢
    split
    · rename_i same
      subst same
      exact .quiet passed
    · rename_i more
      exact .again passed more (ih (fun j mem => among j (thins.walked mem)) sound' (by omega))

end Passes

theorem eliminateEnds (formed : g.WellFormed) : Ends (g, 0) (eliminate g) :=
  passesEnd (fun _ mem => mem) formed.sound (Nat.lt_succ_of_le countP_le_length)

theorem Ends.clean {first last : Graph × Nat} (ends : Ends first last) :
    ∀ id ∈ last.1.walkAll, isDead last.1 id = false := by
  induction ends with
  | quiet passed =>
    obtain ⟨rfl,alive⟩ := passQuiet.mp passed
    exact fun id mem => alive id (mem_reverse.mpr mem)
  | again _ _ _ ih => exact ih

theorem eliminateClean (clean : ∀ id ∈ g.walkAll, isDead g id = false) : eliminate g = (g, 0) := by
  have quiet : pass g.walkAll.reverse (g, 0) = (g, 0) :=
    passQuiet.mpr ⟨rfl,fun id mem => clean id (mem_reverse.mp mem)⟩
  rw [eliminate,passes,quiet]
  exact if_pos rfl

theorem neededWithin (formed : h.WellFormed) (clean : ∀ id ∈ h.walkAll, isDead h id = false) {n b visible}
    (inner : h.Formed n b visible) (scope : h.Scope b visible)
    (bare : ∀ j ∈ (h.block b).ops, (h.op j).results = [] → Needed h j) : ∀ j ∈ h.walk n b, Needed h j := by
  induction n generalizing b visible with
  | zero => cases inner
  | succ n ih =>
    -- From the last operation to the first: what uses a result comes after the operation that computes it.
    have rest (post : List OpId) : ∀ pre, (h.block b).ops = pre ++ post → ∀ p ∈ post, Needed h p ∧
        ∀ r, (h.op p).region = some r → ∀ j ∈ h.walk n r, Needed h j := by
      induction post with
      | nil => simp
      | cons id post later =>
        intro pre split
        have after := later (pre ++ [id]) (by rw [split,append_assoc,singleton_append])
        have ops := inner.2
        rw [split] at ops
        have here : Needed h id := by
          have listed : id ∈ (h.block b).ops := by simp [split]
          by_cases none : (h.op id).results = []
          · exact bare id listed none
          · obtain ⟨seen,place⟩ := scope.place listed
            have alive : h.isAlive id = true := by rw [isAlive,place.block formed]; rfl
            have living := clean id (place.walked formed)
            rw [isDead,alive] at living
            simp only [Bool.and_true,Bool.and_eq_false_iff,Bool.not_eq_false',List.isEmpty_iff,none,false_or] at living
            obtain ⟨v,result,used⟩ := any_eq_true.mp living
            obtain ⟨i,-,rfl⟩ := mem_map.mp result
            obtain ⟨user,walked,uses⟩ := any_eq_true.mp used
            have operand : some (.result id i) ∈ (h.op user).operands := contains_iff_mem.mp uses
            obtain ⟨c,around,there⟩ := atOfWalk .body walked
            refine .used ?_ operand
            rcases there.after formed (there.sees formed operand) scope split with mem | ⟨p,mem,r,region,under⟩
            · exact (after user mem).1
            · obtain ⟨x,y,rfl⟩ := append_of_mem mem
              have ops := (opsFormedAppend.mp ops).2.2
              exact (after p mem).2 r region user (under.walked (ops.at.region r region))
        refine forall_mem_cons.mpr ⟨⟨here,fun r region => ?_⟩,after⟩
        exact ih (ops.at.region r region) (.region scope split region) fun j listed bare =>
          .inner here region listed bare
    intro j mem
    obtain ⟨p,listed,mem⟩ := mem_flatMap.mp mem
    obtain ⟨here,under⟩ := rest _ [] rfl p listed
    rcases mem_cons.mp mem with rfl | mem
    · exact here
    · cases region : (h.op p).region with
      | none => rw [region] at mem; cases mem
      | some r =>
        rw [region] at mem
        exact under r region j mem

open Classical in
/-- The elimination of dead code comes to an end, and leaves what is needed: these operations, as they were and in their
order, and no others. A second time there is nothing to take out. -/
theorem eliminateExact (ok : g.verify = .ok ()) (once : g.walkAll.Nodup) : Ends (g, 0) (eliminate g) ∧
    (eliminate g).1.walkAll = g.walkAll.filter (Needed g ·) ∧
    (∀ j ∈ (eliminate g).1.walkAll, (eliminate g).1.op j = g.op j) ∧
    eliminate (eliminate g).1 = ((eliminate g).1, 0) := by
  have formed := wellFormedOfVerify ok once
  have ends := eliminateEnds formed
  have spares := eliminateSpares formed
  refine ⟨ends,?_,fun j mem => spares.same formed mem,eliminateClean ends.clean⟩
  -- Both sides are parts of one list without repetitions, so it is enough that they have the same members.
  refine (once.perm_iff_eq_of_sublist spares.sublist List.filter_sublist).mp ?_
  refine (List.perm_ext_iff_of_nodup (once.sublist spares.sublist) (once.filter _)).mpr fun j => ?_
  rw [List.mem_filter,decide_eq_true_iff]
  refine ⟨fun mem => ⟨spares.thins.walked mem,spares.needs ?_⟩,fun ⟨_,needed⟩ => spares.walked formed needed⟩
  exact neededWithin spares.formed ends.clean spares.formed .body (fun _ => .top) j mem

open Classical in
theorem eliminateExactLittered : littered.verify = .ok () ∧ littered.walkAll.Nodup ∧ Ends (littered, 0) (eliminate littered) ∧
    (eliminate littered).1.walkAll = littered.walkAll.filter (Needed littered ·) ∧
    (∀ j ∈ (eliminate littered).1.walkAll, (eliminate littered).1.op j = littered.op j) ∧
    eliminate (eliminate littered).1 = ((eliminate littered).1, 0) := by
  have ok : littered.verify = .ok () := by decide +kernel
  have once : littered.walkAll.Nodup := by decide +kernel
  exact ⟨ok,once,eliminateExact ok once⟩

def repeated : Graph :=
  Propagation.straight [.tensor .f32 [2]]
    [Propagation.plain Structured.copyKind [.argument 0 0, .argument 0 0] [.tensor .f32 [2]],
      Propagation.plain Memory.returnKind [.argument 0 0] []] [0, 0, 1]

theorem eliminateRepeated : repeated.verify = .ok () ∧ (eliminate repeated).1.walkAll = [0, 1] ∧ ¬ Needed repeated 0 := by
  refine ⟨by decide +kernel,by decide +kernel,fun needed => ?_⟩
  have results : (repeated.op 0).results ≠ [] := by decide
  cases needed with
  | top _ bare => exact results bare
  | inner _ _ _ bare => exact results bare
  | @used user _ i _ operand =>
    match user with
    | 0 => exact absurd operand (by simp [repeated,Propagation.straight,Propagation.plain,Graph.op])
    | 1 => exact absurd operand (by simp [repeated,Propagation.straight,Propagation.plain,Graph.op])
    | _ + 2 => cases operand

end DeadCode

end TileLower
