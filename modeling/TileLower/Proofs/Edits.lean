import Mathlib
import TileLower.Graph.Edit

/-! What a change to a function does to each of its operations and blocks. -/
namespace TileLower.Graph

open List

variable {g : Graph}

theorem opOutside {id} (outside : ¬ id < g.ops.size) : g.op id = default := by
  simp [op,Array.getD,outside]

theorem blockOutside {b} (outside : ¬ b < g.blocks.size) : g.block b = default := by
  simp [block,Array.getD,outside]

theorem typeOfCongr {h : Graph} (results : ∀ id, (h.op id).results = (g.op id).results)
    (args : ∀ b, (h.block b).args = (g.block b).args) (v : Value) : h.typeOf v = g.typeOf v := by
  cases v with
  | result id i => simp only [typeOf,slot,results]
  | argument b i => simp only [typeOf,slot,args]

section Modify

variable (g) (i : OpId) (f : Operation → Operation) (b : BlockId) (k : Block → Block)

@[simp] theorem modifyOpSize : (g.modifyOp i f).ops.size = g.ops.size := by simp [modifyOp]

@[simp] theorem modifyOpBlocks : (g.modifyOp i f).blocks = g.blocks := rfl

@[simp] theorem modifyOpBlock (c : BlockId) : (g.modifyOp i f).block c = g.block c := rfl

theorem modifyOpAt (id : OpId) :
    (g.modifyOp i f).op id = if id = i ∧ id < g.ops.size then f (g.op id) else g.op id := by
  by_cases within : id < g.ops.size
  · simp [modifyOp,op,Array.getD,within,Array.getElem_modify,eq_comm]
  · rw [if_neg fun h => within h.2,opOutside (by simpa using within),opOutside within]

@[simp] theorem modifyBlockSize : (g.modifyBlock b k).blocks.size = g.blocks.size := by simp [modifyBlock]

@[simp] theorem modifyBlockOps : (g.modifyBlock b k).ops = g.ops := rfl

@[simp] theorem modifyBlockOp (id : OpId) : (g.modifyBlock b k).op id = g.op id := rfl

theorem modifyBlockAt (c : BlockId) :
    (g.modifyBlock b k).block c = if c = b ∧ c < g.blocks.size then k (g.block c) else g.block c := by
  by_cases within : c < g.blocks.size
  · simp [modifyBlock,block,Array.getD,within,Array.getElem_modify,eq_comm]
  · rw [if_neg fun h => within h.2,blockOutside (by simpa using within),blockOutside within]

end Modify

theorem modifyAll (g : Graph) (f : Operation → Operation) (ids : List OpId) :
    (ids.foldl (fun h i => h.modifyOp i f) g).blocks = g.blocks ∧
      (ids.foldl (fun h i => h.modifyOp i f) g).ops.size = g.ops.size ∧
      (ids.foldl (fun h i => h.modifyOp i f) g).name = g.name := by
  induction ids generalizing g with
  | nil => exact ⟨rfl,rfl,rfl⟩
  | cons i ids ih =>
    obtain ⟨blocks,size,name⟩ := ih (g.modifyOp i f)
    exact ⟨blocks,size.trans (g.modifyOpSize i f),name⟩

section Place

variable (g) (b : BlockId) (ids : List OpId)

@[simp] theorem placeInBlocks : (g.placeIn b ids).blocks = g.blocks := (g.modifyAll _ ids).1

@[simp] theorem placeInBlock (c : BlockId) : (g.placeIn b ids).block c = g.block c := by
  simp [block]

@[simp] theorem placeInSize : (g.placeIn b ids).ops.size = g.ops.size := (g.modifyAll _ ids).2.1

@[simp] theorem placeInName : (g.placeIn b ids).name = g.name := (g.modifyAll _ ids).2.2

theorem placeInAt (id : OpId) : (g.placeIn b ids).op id =
    if id ∈ ids ∧ id < g.ops.size then { g.op id with block := some b } else g.op id := by
  unfold placeIn
  induction ids generalizing g with
  | nil => simp
  | cons i ids ih =>
    rw [foldl_cons,ih,modifyOpSize,modifyOpAt]
    by_cases within : id < g.ops.size
    · by_cases here : id = i
      · subst here
        simp [within]
      · simp [here]
    · simp [within]

theorem appendAt (id : OpId) : (g.append b ids).op id =
    if id ∈ ids ∧ id < g.ops.size then { g.op id with block := some b } else g.op id :=
  g.placeInAt b ids id

theorem appendBlock (c : BlockId) : (g.append b ids).block c =
    if c = b ∧ c < g.blocks.size then { g.block c with ops := (g.block c).ops ++ ids } else g.block c := by
  rw [append,modifyBlockAt]
  simp

end Place

section Insert

variable (g) (b : BlockId) (anchor : Option OpId) (ids : List OpId)

theorem insertBeforeOp (id : OpId) : (g.insertBefore b anchor ids).op id =
    if id ∈ ids ∧ id < g.ops.size then { g.op id with block := some b } else g.op id :=
  g.placeInAt b ids id

@[simp] theorem insertBeforeName : (g.insertBefore b anchor ids).name = g.name := by
  simp [insertBefore,modifyBlock]

@[simp] theorem insertBeforeSize : (g.insertBefore b anchor ids).ops.size = g.ops.size := by
  simp [insertBefore]

@[simp] theorem insertBeforeBlocks : (g.insertBefore b anchor ids).blocks.size = g.blocks.size := by
  simp [insertBefore]

theorem insertBeforeOther {c} (other : c ≠ b) : (g.insertBefore b anchor ids).block c = g.block c := by
  rw [insertBefore,modifyBlockAt,if_neg fun h => other h.1,placeInBlock]

theorem insertBeforeOwner (c : BlockId) : ((g.insertBefore b anchor ids).block c).owner = (g.block c).owner := by
  rw [insertBefore,modifyBlockAt,placeInBlock]
  split <;> rfl

theorem insertBeforeKeeps {c j} (mem : j ∈ (g.block c).ops) : j ∈ ((g.insertBefore b anchor ids).block c).ops := by
  rw [insertBefore,modifyBlockAt,placeInBlock]
  split
  · simp only [mem_append]
    generalize ((anchor.bind fun a => (g.block b).ops.findIdx? (· == a)).getD (g.block b).ops.length) = pos
    rw [← take_append_drop pos (g.block c).ops,mem_append] at mem
    rcases mem with before | after
    · exact .inl (.inl before)
    · exact .inr after
  · exact mem

theorem insertBeforeArgs (c : BlockId) : ((g.insertBefore b anchor ids).block c).args = (g.block c).args := by
  rw [insertBefore,modifyBlockAt,placeInBlock]
  split <;> rfl

theorem insertBeforeHere {pre post id} (split : (g.block b).ops = pre ++ id :: post) (first : id ∉ pre) :
    ((g.insertBefore b (some id) ids).block b).ops = pre ++ (ids ++ id :: post) := by
  have found : (pre ++ id :: post).findIdx? (· == id) = some pre.length := by
    have none : pre.findIdx? (· == id) = none := findIdx?_eq_none_iff.mpr fun j mem => by
      have other : j ≠ id := fun same => first (same ▸ mem)
      simpa using other
    simp [findIdx?_append,none,findIdx?_cons]
  have within : b < g.blocks.size := by
    by_contra outside
    rw [blockOutside outside] at split
    cases pre <;> cases split
  rw [insertBefore,modifyBlockAt,placeInBlock,if_pos ⟨rfl,by simpa using within⟩]
  simp only [split,Option.bind_some,found,Option.getD_some,take_left,drop_left,append_assoc]

end Insert

section Region

variable (g) {target source : OpId}

@[simp] theorem takeRegionSize : (g.takeRegion target source).ops.size = g.ops.size := by
  unfold takeRegion
  cases (g.op source).region <;> simp [setOwner]

@[simp] theorem takeRegionBlocks : (g.takeRegion target source).blocks.size = g.blocks.size := by
  unfold takeRegion
  cases (g.op source).region <;> simp [setOwner]

@[simp] theorem takeRegionName : (g.takeRegion target source).name = g.name := by
  unfold takeRegion
  cases (g.op source).region <;> rfl

theorem takeRegionOp (id : OpId) : (g.takeRegion target source).op id =
    ((g.modifyOp source fun o => { o with region := none }).modifyOp target
      fun o => { o with region := (g.op source).region }).op id := by
  unfold takeRegion
  cases (g.op source).region <;> rfl

theorem takeRegionOther {id} (notTarget : id ≠ target) (notSource : id ≠ source) :
    (g.takeRegion target source).op id = g.op id := by
  rw [takeRegionOp,modifyOpAt,if_neg fun h => notTarget h.1,modifyOpAt,if_neg fun h => notSource h.1]

theorem takeRegionTarget (within : target < g.ops.size) (apart : target ≠ source) :
    (g.takeRegion target source).op target = { g.op target with region := (g.op source).region } := by
  rw [takeRegionOp,modifyOpAt,if_pos ⟨rfl,by simpa using within⟩,modifyOpAt,if_neg fun h => apart h.1]

theorem takeRegionSource (apart : target ≠ source) :
    (g.takeRegion target source).op source = { g.op source with region := none } := by
  rw [takeRegionOp,modifyOpAt,if_neg fun h => apart h.1.symm,modifyOpAt]
  by_cases within : source < g.ops.size
  · rw [if_pos ⟨rfl,within⟩]
  · rw [if_neg fun h => within h.2,opOutside within]
    rfl

theorem takeRegionOps (c : BlockId) : ((g.takeRegion target source).block c).ops = (g.block c).ops ∧
    ((g.takeRegion target source).block c).args = (g.block c).args := by
  unfold takeRegion
  cases (g.op source).region with
  | none => exact ⟨rfl,rfl⟩
  | some r =>
    simp only [setOwner,modifyBlockAt,modifyOpBlock]
    split <;> exact ⟨rfl,rfl⟩

theorem takeRegionBlock {c} (other : (g.op source).region ≠ some c) :
    (g.takeRegion target source).block c = g.block c := by
  unfold takeRegion
  cases region : (g.op source).region with
  | none => rfl
  | some r =>
    have apart : c ≠ r := fun same => other (same ▸ region)
    dsimp only [setOwner]
    rw [modifyBlockAt,if_neg fun h => apart h.1]
    rfl

theorem takeRegionOwner (c : BlockId) : ((g.takeRegion target source).block c).owner =
    if (g.op source).region = some c ∧ c < g.blocks.size then some target else (g.block c).owner := by
  unfold takeRegion
  cases (g.op source).region with
  | none => rfl
  | some r =>
    dsimp only [setOwner]
    rw [modifyBlockAt]
    by_cases here : c = r ∧ c < g.blocks.size
    · rw [if_pos (by exact here),if_pos ⟨congrArg some here.1.symm,here.2⟩]
    · rw [if_neg (by exact here),if_neg fun h => here ⟨Option.some.inj h.1.symm,h.2⟩]
      rfl

end Region

section Uses

variable (g) (old new : Option Value)

theorem substituteTwice (o : Operation) :
    substituteOperands old new (substituteOperands old new o) = substituteOperands old new o := by
  have once (v : Option Value) : (if (if v = old then new else v) = old then new else if v = old then new else v) =
      if v = old then new else v := by
    by_cases h : v = old
    · simp [h]
    · simp [h]
  simp only [substituteOperands,map_map,Function.comp_def,once]

theorem replaceUsesFold : g.replaceUses old new =
    g.walkAll.foldl (fun h id => h.modifyOp id (substituteOperands old new)) g := by
  simp only [replaceUses,replaceUsesExcept,reduceCtorEq,if_false]

@[simp] theorem replaceUsesBlocks : (g.replaceUses old new).blocks = g.blocks := by
  rw [replaceUsesFold,(g.modifyAll _ _).1]

@[simp] theorem replaceUsesBlock (c : BlockId) : (g.replaceUses old new).block c = g.block c := by
  rw [block,replaceUsesBlocks,block]

@[simp] theorem replaceUsesSize : (g.replaceUses old new).ops.size = g.ops.size := by
  rw [replaceUsesFold,(g.modifyAll _ _).2.1]

@[simp] theorem replaceUsesName : (g.replaceUses old new).name = g.name := by
  rw [replaceUsesFold,(g.modifyAll _ _).2.2]

theorem replaceUsesOp (id : OpId) : (g.replaceUses old new).op id =
    if id ∈ g.walkAll then substituteOperands old new (g.op id) else g.op id := by
  rw [replaceUsesFold]
  generalize g.walkAll = ids
  induction ids generalizing g with
  | nil => simp
  | cons i ids ih =>
    rw [foldl_cons,ih,modifyOpAt]
    by_cases here : id = i
    · subst here
      by_cases within : id < g.ops.size
      · simp [within,substituteTwice]
      · simp [within,opOutside within,show substituteOperands old new default = default from rfl]
    · simp [here]

end Uses

section Erase

variable (g) (b : BlockId) (id : OpId)

@[simp] theorem eraseName : (g.erase b id).name = g.name := by
  unfold erase
  split <;> rfl

@[simp] theorem eraseSize : (g.erase b id).ops.size = g.ops.size := by
  unfold erase
  split <;> simp

@[simp] theorem eraseBlocks : (g.erase b id).blocks.size = g.blocks.size := by
  unfold erase
  split <;> simp

theorem eraseOther {j} (other : j ≠ id) : (g.erase b id).op j = g.op j := by
  unfold erase
  split
  · rw [modifyOpAt,if_neg fun h => other h.1,modifyBlockOp]
  · rfl

theorem eraseResults (j : OpId) : ((g.erase b id).op j).results = (g.op j).results := by
  unfold erase
  split
  · rw [modifyOpAt,modifyBlockOp]
    split <;> rfl
  · rfl

theorem eraseHere (mem : id ∈ (g.block b).ops) : ((g.erase b id).op id).block = none := by
  rw [erase,if_pos (contains_iff_mem.mpr mem),modifyOpAt]
  by_cases within : id < g.ops.size
  · rw [if_pos ⟨rfl,within⟩]
  · rw [if_neg fun h => within h.2,modifyBlockOp,opOutside within]
    rfl

theorem eraseBlock (c : BlockId) : (g.erase b id).block c =
    if c = b then { g.block c with ops := (g.block c).ops.erase id } else g.block c := by
  have gone (not : id ∉ (g.block b).ops) : ({ g.block b with ops := (g.block b).ops.erase id } : Block) = g.block b := by
    rw [erase_of_not_mem not]
  unfold erase
  split
  · rename_i mem
    rw [modifyOpBlock,modifyBlockAt]
    by_cases here : c = b
    · subst here
      by_cases within : c < g.blocks.size
      · simp [within]
      · rw [blockOutside within] at mem
        cases mem
    · simp [here]
  · rename_i not
    by_cases here : c = b
    · subst here
      rw [if_pos rfl,gone (by simpa using not)]
    · rw [if_neg here]

end Erase

theorem walkCongr {h : Graph} (ops : ∀ b, (h.block b).ops = (g.block b).ops)
    (regions : ∀ id, (h.op id).region = (g.op id).region) (n : Nat) (b : BlockId) : h.walk n b = g.walk n b := by
  induction n generalizing b with
  | zero => rfl
  | succ n ih => simp only [walk,ops,regions,ih]

theorem walkAllCongr {h : Graph} (ops : ∀ b, (h.block b).ops = (g.block b).ops)
    (regions : ∀ id, (h.op id).region = (g.op id).region) (size : h.blocks.size = g.blocks.size) :
    h.walkAll = g.walkAll := by
  rw [walkAll,walkFrom,size,walkCongr ops regions]
  rfl

end TileLower.Graph
