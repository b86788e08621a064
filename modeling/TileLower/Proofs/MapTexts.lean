import TileLower.Analysis.Body
import TileLower.Proofs.Arrays

/-!
Maps are compared by their texts. A text of bare dimensions belongs to one map only, so a map that is found to be a minor
identity is one.
-/
namespace TileLower

open Outcome List Structured Word

open TileLower.Affine (Expr)

section Pieces

theorem cutAt {c : Char} {xs ys us vs : List Char} (left : c ∉ xs) (right : c ∉ ys)
    (same : xs ++ c :: us = ys ++ c :: vs) : xs = ys ∧ us = vs := by
  induction xs generalizing ys with
  | nil =>
    cases ys with
    | nil => exact ⟨rfl,(cons.inj same).2⟩
    | cons y ys => exact absurd ((cons.inj same).1 ▸ .head _) right
  | cons x xs ih =>
    cases ys with
    | nil => exact absurd ((cons.inj same).1 ▸ .head _) left
    | cons y ys =>
      obtain ⟨rfl,rest⟩ := cons.inj same
      obtain ⟨rfl,rfl⟩ := ih (fun mem => left (.tail _ mem))
        (fun mem => right (.tail _ mem)) rest
      exact ⟨rfl,rfl⟩

theorem piecesInj {ps qs : List (List Char)} (left : ∀ p ∈ ps, p ≠ [] ∧ ',' ∉ p) (right : ∀ q ∈ qs, q ≠ [] ∧ ',' ∉ q)
    (same : [',', ' '].intercalate ps = [',', ' '].intercalate qs) : ps = qs := by
  induction ps generalizing qs with
  | nil =>
    cases qs with
    | nil => rfl
    | cons q qs =>
      obtain ⟨some_,-⟩ := right q (.head _)
      cases qs with
      | nil => exact absurd (by simpa using same.symm) some_
      | cons => simp [intercalate_cons_cons] at same
  | cons p ps ih =>
    obtain ⟨⟨someP,cleanP⟩,left⟩ := forall_mem_cons.mp left
    cases qs with
    | nil =>
      cases ps with
      | nil => exact absurd (by simpa using same) someP
      | cons => simp [intercalate_cons_cons] at same
    | cons q qs =>
      obtain ⟨⟨-,cleanQ⟩,others⟩ := forall_mem_cons.mp right
      cases ps with
      | nil =>
        cases qs with
        | nil => simpa using same
        | cons =>
          rw [intercalate_singleton,intercalate_cons_cons] at same
          exact absurd (same ▸ by simp) cleanP
      | cons p' ps =>
        cases qs with
        | nil =>
          rw [intercalate_singleton,intercalate_cons_cons] at same
          exact absurd (same ▸ by simp) cleanQ
        | cons q' qs =>
          simp only [intercalate_cons_cons,append_assoc,cons_append,nil_append] at same
          obtain ⟨rfl,rest⟩ := cutAt cleanP cleanQ same
          have tail : p' :: ps = q' :: qs := ih left others (cons.inj rest).2
          rw [tail]

theorem memIntercalate {c} {sep : List Char} {ps} (mem : c ∈ sep.intercalate ps) : c ∈ sep ∨ ∃ p ∈ ps, c ∈ p := by
  induction ps with
  | nil => simp at mem
  | cons p ps ih =>
    cases ps with
    | nil => exact .inr ⟨p,.head _,by simpa using mem⟩
    | cons q qs =>
      rw [intercalate_cons_cons,mem_append,mem_append] at mem
      rcases mem with (here | between) | later
      · exact .inr ⟨p,.head _,here⟩
      · exact .inl between
      · exact (ih later).imp_right fun ⟨r,inside,there⟩ => ⟨r,.tail _ inside,there⟩

end Pieces

theorem showIntChars {x} {c : Char} (mem : c ∈ (Text.showInt x).toList) : c = '-' ∨ c.isDigit = true := by
  rw [Text.showInt,Int.toString_eq_repr,Int.repr_eq_if] at mem
  split at mem
  · rw [Nat.toList_repr] at mem
    exact .inr (Nat.isDigit_of_mem_toDigits (by decide) (by decide) mem)
  · rw [String.toList_append,Nat.toList_repr,mem_append] at mem
    rcases mem with sign | digit
    · exact .inl (by simpa using sign)
    · exact .inr (Nat.isDigit_of_mem_toDigits (by decide) (by decide) digit)

theorem showIntInj {x y} (same : Text.showInt x = Text.showInt y) : x = y := by
  rw [Text.showInt,Text.showInt,Int.toString_eq_repr,Int.toString_eq_repr] at same
  exact Int64.toInt_inj.mp (Int.repr_injective same)

namespace Affine.Expr

theorem renderClean (e : Expr) : e.render.toList ≠ [] ∧ ',' ∉ e.render.toList := by
  have number (x : Int64) : ',' ∉ (Text.showInt x).toList := fun mem => by
    rcases showIntChars mem with minus | digit
    · exact absurd minus (by decide)
    · exact absurd digit (by decide)
  induction e with
  | dim pos => exact ⟨by simp [render],by simp [render,number]⟩
  | const x =>
    have some_ : (Text.showInt x).toList ≠ [] := by
      rw [Text.showInt,Int.toString_eq_repr,Int.repr_eq_if]
      split <;> simp
    exact ⟨some_,number x⟩
  | sum x y ihx ihy => exact ⟨by simp [render],by simp [render,ihx.2,ihy.2]⟩
  | scaled x c ih =>
    refine ⟨by simp [render],?_⟩
    rw [render]
    split <;> simp [number,ih.2]

theorem ofDimText {e : Expr} {pos} (same : e.render = (dim pos).render) : e = dim pos := by
  have among {c : Char} (mem : c ∈ e.render.toList) : c = 'd' ∨ c = '-' ∨ c.isDigit = true := by
    rw [same,render,String.toList_append,mem_append] at mem
    exact mem.imp (by simp) showIntChars
  cases e with
  | dim pos' =>
    have same : Text.showInt pos' = Text.showInt pos := by simpa [render] using same
    rw [showIntInj same]
  | const x =>
    have first : 'd' ∈ (Text.showInt x).toList := by
      have same : Text.showInt x = "d" ++ Text.showInt pos := same
      rw [same]
      simp
    rcases showIntChars first with minus | digit
    · exact absurd minus (by decide)
    · exact absurd digit (by decide)
  | sum x y =>
    have plus : '+' ∈ (sum x y).render.toList := by simp [render]
    exact absurd (among plus) (by decide)
  | scaled x c =>
    have times : '*' ∈ (scaled x c).render.toList := by simp [render]
    exact absurd (among times) (by decide)

theorem ofDimTexts {es fs : List Expr} (dims : ∀ e ∈ fs, ∃ pos, e = dim pos)
    (same : es.map render = fs.map render) : es = fs := by
  induction es generalizing fs with
  | nil => exact (map_eq_nil_iff.mp same.symm).symm
  | cons e es ih =>
    cases fs with
    | nil => cases same
    | cons f fs =>
      obtain ⟨⟨pos,rfl⟩,others⟩ := forall_mem_cons.mp dims
      obtain ⟨here,rest⟩ := cons.inj same
      rw [ofDimText here,ih others rest]

end Affine.Expr

namespace AffineMap

theorem dimNamesPieces (n : Nat) : (dimNames n).toList =
    [',', ' '].intercalate ((range n).map fun i => 'd' :: Nat.toDigits 10 i) := by
  rw [dimNames,String.toList_intercalate,map_map]
  congr 1
  refine map_congr_left fun i _ => ?_
  simp [Nat.toString_eq_repr,Nat.toList_repr]

theorem namePiece {c : Char} {i} (mem : c ∈ 'd' :: Nat.toDigits 10 i) : c = 'd' ∨ c.isDigit = true :=
  (mem_cons.mp mem).imp_right fun digit => Nat.isDigit_of_mem_toDigits (by decide) (by decide) digit

theorem dimNamesClean (n : Nat) : ')' ∉ (dimNames n).toList := by
  rw [dimNamesPieces]
  intro mem
  rcases memIntercalate mem with between | ⟨p,inside,here⟩
  · exact absurd between (by decide)
  · obtain ⟨i,-,rfl⟩ := mem_map.mp inside
    exact absurd (namePiece here) (by decide)

theorem dimNamesInj {n k} (same : dimNames n = dimNames k) : n = k := by
  have same := congrArg String.toList same
  rw [dimNamesPieces,dimNamesPieces] at same
  have clean (n : Nat) : ∀ p ∈ (range n).map fun i => 'd' :: Nat.toDigits 10 i, p ≠ [] ∧ ',' ∉ p := by
    intro p mem
    obtain ⟨i,-,rfl⟩ := mem_map.mp mem
    exact ⟨by simp,fun comma => absurd (namePiece comma) (by decide)⟩
  simpa using congrArg length (piecesInj (clean n) (clean k) same)

theorem listLengthOk {x n} (ok : listLength x = .ok n) : x = Int64.ofNat n ∧ n ≤ lengthLimit.toNatClampNeg := by
  rw [listLength] at ok
  split at ok
  · rename_i range
    obtain ⟨k,lt,rfl⟩ := existsOfNonneg range.1
    rw [leLimit lt] at range
    rw [toNatOfNat lt] at ok
    cases ok
    exact ⟨rfl,range.2⟩
  · exact absurd ok abortOk

theorem renderOk {m : AffineMap} {text : String} (ok : m.render = .ok text) : ∃ n, m.numDims = Int64.ofNat n ∧
    n ≤ lengthLimit.toNatClampNeg ∧ text.toList = '(' :: ((dimNames n).toList ++ ')' :: (" -> (".toList ++
      ([',', ' '].intercalate (m.results.map fun e => e.render.toList) ++ [')']))) := by
  obtain ⟨n,length,same⟩ := bindOk.mp ok
  cases same
  obtain ⟨dims,le⟩ := listLengthOk length
  refine ⟨n,dims,le,?_⟩
  simp [String.toList_intercalate,Function.comp_def]

theorem equalOk {m o : AffineMap} (ok : m.equal o = .ok true) :
    m.numDims = o.numDims ∧ m.results.map Expr.render = o.results.map Expr.render := by
  obtain ⟨a,textM,ok⟩ := bindOk.mp ok
  obtain ⟨b,textO,ok⟩ := bindOk.mp ok
  have same : a = b := by simpa using Except.ok.inj ok
  subst same
  obtain ⟨n,dimsM,-,charsM⟩ := renderOk textM
  obtain ⟨k,dimsO,-,charsO⟩ := renderOk textO
  obtain ⟨names,rest⟩ := cutAt (dimNamesClean n) (dimNamesClean k) (cons.inj (charsM.symm.trans charsO)).2
  obtain rfl := dimNamesInj (String.toList_inj.mp names)
  have pieces := append_cancel_right (append_cancel_left rest)
  have clean (es : List Expr) : ∀ p ∈ es.map fun e => e.render.toList, p ≠ [] ∧ ',' ∉ p := by
    intro p mem
    obtain ⟨e,-,rfl⟩ := mem_map.mp mem
    exact e.renderClean
  have texts := piecesInj (clean _) (clean _) pieces
  refine ⟨dimsM.trans dimsO.symm,map_injective_iff.mpr (fun _ _ => String.toList_inj.mp) ?_⟩
  rwa [map_map,map_map]

theorem ofText {m o : AffineMap} (dims : ∀ e ∈ o.results, ∃ pos, e = .dim pos) (ok : m.equal o = .ok true) : m = o := by
  obtain ⟨numDims,texts⟩ := equalOk ok
  have results := Expr.ofDimTexts dims texts
  cases m
  cases numDims
  cases results
  rfl

theorem ofIsMinorIdentity {m : AffineMap} (ok : m.isMinorIdentity = .ok true) :
    ∃ loops rank, rank ≤ loops ∧ loops ≤ lengthLimit.toNatClampNeg ∧ m = minorOf loops rank := by
  rw [isMinorIdentity] at ok
  split at ok
  · cases ok
  · rename_i within
    obtain ⟨o,made,equal⟩ := bindOk.mp ok
    obtain ⟨rank,length,same⟩ := bindOk.mp made
    cases same
    have same := ofText (fun e mem => by
      obtain ⟨i,-,rfl⟩ := mem_map.mp mem
      exact ⟨_,rfl⟩) equal
    obtain ⟨a,text,-⟩ := bindOk.mp equal
    obtain ⟨loops,dims,le,-⟩ := renderOk text
    obtain ⟨count,short⟩ := listLengthOk length
    rw [dims,count,ofNatLtIff (le.trans_lt limitSmall) (short.trans_lt limitSmall)] at within
    refine ⟨loops,rank,Nat.not_lt.mp within,le,?_⟩
    rw [same,dims,count]
    rfl

theorem ofIsIdentity {m : AffineMap} (ok : m.isIdentity = .ok true) :
    ∃ loops, loops ≤ lengthLimit.toNatClampNeg ∧ m = minorOf loops loops := by
  rw [isIdentity] at ok
  split at ok
  · rename_i count
    obtain ⟨loops,rank,le,short,rfl⟩ := ofIsMinorIdentity ok
    have limit := limitSmall
    have ranks : (minorOf loops rank).numResults = rank := by simp [numResults,minorOf]
    rw [ranks] at count
    have same : rank = loops := ofNatInj (by omega) (by omega) count
    exact ⟨loops,short,by rw [same]⟩
  · cases ok

theorem minorEval {loops rank} (le : rank ≤ loops) (small : loops < wordBound) {idx : List Nat}
    (length : idx.length = loops) : (minorOf loops rank).eval (words idx) = .ok (words (idx.drop (loops - rank))) := by
  have each (is : List Nat) (inside : ∀ i ∈ is, i < rank) : evalAll (words idx)
      (is.map fun i => .dim (Int64.ofNat loops - Int64.ofNat rank + Int64.ofNat i)) =
        .ok (words (is.map fun i => idx.getD (loops - rank + i) 0)) := by
    induction is with
    | nil => rfl
    | cons i is ih =>
      obtain ⟨here,later⟩ := forall_mem_cons.mp inside
      have place : Int64.ofNat loops - Int64.ofNat rank + Int64.ofNat i = Int64.ofNat (loops - rank + i) := by
        rw [subWords le,addWords]
      have within : loops - rank + i < idx.length := by omega
      have found : entryAt (words idx) (Int64.ofNat (loops - rank + i)) = .ok (Int64.ofNat (idx.getD (loops - rank + i) 0)) := by
        rw [entryAtWords _ (by omega),wordsGet,getElem?_eq_getElem within,getD_eq_getElem _ _ within]
        rfl
      simp only [map_cons,evalAll,Expr.eval,place,found,bindOfOk,ih later]
      rfl
  rw [eval,minorOf,each _ fun i mem => mem_range.mp mem]
  congr 2
  refine ext_getElem (by simp; omega) fun i h1 h2 => ?_
  have within : loops - rank + i < idx.length := by simp at h1; omega
  simp [within]

end AffineMap

theorem Body.mapsEqualOk {ms os : List AffineMap} (length : ms.length = os.length)
    (dims : ∀ o ∈ os, ∀ e ∈ o.results, ∃ pos, e = .dim pos) (ok : mapsEqual ms os = .ok true) : ms = os := by
  induction ms generalizing os with
  | nil => exact (length_eq_zero_iff.mp length.symm).symm
  | cons m ms ih =>
    cases os with
    | nil => cases length
    | cons o os =>
      obtain ⟨here,others⟩ := forall_mem_cons.mp dims
      obtain ⟨same,equal,ok⟩ := bindOk.mp ok
      cases same with
      | false => cases ok
      | true => rw [AffineMap.ofText here equal,ih (by simpa using length) others ok]

theorem Body.ofHasMatmulMaps {op} (ok : hasMatmulMaps op = .ok true) :
    indexingMaps op = matmulMaps ∧ iteratorTypes op = matmulIterators := by
  rw [hasMatmulMaps] at ok
  split at ok
  · cases ok
  · rename_i length
    obtain ⟨same,equal,ok⟩ := bindOk.mp ok
    cases same with
    | false => cases ok
    | true =>
      have dims : ∀ o ∈ matmulMaps, ∀ e ∈ o.results, ∃ pos, e = .dim pos := by
        simp [matmulMaps]
      exact ⟨mapsEqualOk (not_not.mp length) dims equal,by simpa using Except.ok.inj ok⟩

end TileLower
