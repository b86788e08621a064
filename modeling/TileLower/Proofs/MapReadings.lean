import TileLower.Proofs.Compositions

/-!
What a text of a map says. Sums are printed without brackets, so that expressions with the same text may be grouped in
different ways; read from left to right the text still has one value.
-/
namespace TileLower

open List

open TileLower.Affine (Expr)

namespace Affine

/-- The pieces of the text of an expression. A factor is one piece with its sign of multiplication. -/
inductive Token where
  | dim (pos : Int64)
  | number (value : Int64)
  | plus
  | times (factor : Int64)
  | opening
  | closing

namespace Token

def text : Token → List Char
  | .dim pos => 'd' :: (Text.showInt pos).toList
  | .number value => (Text.showInt value).toList
  | .plus => [' ', '+', ' ']
  | .times factor => ' ' :: '*' :: ' ' :: (Text.showInt factor).toList
  | .opening => ['(']
  | .closing => [')']

/-- A number stands at the beginning of a term only, so that it does not run into one before it. -/
def Follows : Token → Token → Prop
  | .plus, _ => True
  | .opening, _ => True
  | _, .number _ => False
  | _, _ => True

def numeral (c : Char) : Bool := c == '-' || c.isDigit

theorem showNumeral {value} : ∀ c ∈ (Text.showInt value).toList, numeral c = true := fun c mem => by
  simpa [numeral] using showIntChars mem

theorem showFirst (value : Int64) : ∃ c cs, (Text.showInt value).toList = c :: cs ∧ numeral c = true := by
  obtain ⟨some_,-⟩ := (Expr.const value).renderClean
  obtain ⟨c,cs,same⟩ := exists_cons_of_ne_nil some_
  exact ⟨c,cs,same,showNumeral c (same ▸ mem_cons_self ..)⟩

def NoNumeral (cs : List Char) : Prop := cs.takeWhile numeral = []

theorem numberCut {x y us vs} (left : NoNumeral us) (right : NoNumeral vs)
    (same : (Text.showInt x).toList ++ us = (Text.showInt y).toList ++ vs) : x = y ∧ us = vs := by
  have first := congrArg (takeWhile numeral) same
  rw [takeWhile_append_of_pos showNumeral,takeWhile_append_of_pos showNumeral,left,right,append_nil,
    append_nil] at first
  rw [first] at same
  exact ⟨showIntInj (String.toList_inj.mp first),append_cancel_left same⟩

theorem stopsAfter {t} {ts : List Token} (chain : (t :: ts).IsChain Follows)
    (ends : ∀ value, ¬ Follows t (.number value)) : NoNumeral (ts.flatMap text) := by
  cases ts with
  | nil => rfl
  | cons u ts =>
    have follows := (isChain_cons_cons.mp chain).1
    cases u with
    | number value => exact absurd follows (ends value)
    | _ => rfl

def leading : List Char → Nat
  | 'd' :: _ => 0
  | ' ' :: '+' :: _ => 1
  | ' ' :: _ => 2
  | '(' :: _ => 3
  | ')' :: _ => 4
  | _ => 5

def sort : Token → Nat
  | .dim _ => 0
  | .plus => 1
  | .times _ => 2
  | .opening => 3
  | .closing => 4
  | .number _ => 5

theorem leadingText (t : Token) (rest : List Char) : leading (t.text ++ rest) = t.sort := by
  cases t with
  | number value =>
    obtain ⟨c,cs,shown,first⟩ := showFirst value
    rw [text,shown,cons_append]
    unfold leading
    split <;> simp_all [numeral,sort]
  | _ => rfl

theorem chainAppend {u} {ts us : List Token} (left : ts.IsChain Follows) (right : (u :: us).IsChain Follows)
    (sign : ∀ value, u ≠ .number value) : (ts ++ u :: us).IsChain Follows := by
  refine isChain_append.mpr ⟨left,right,fun t _ w mem => ?_⟩
  cases mem
  cases u with
  | number value => exact absurd rfl (sign value)
  | _ => cases t <;> trivial

theorem textCut {t u : Token} {ts us : List Token} (left : (t :: ts).IsChain Follows) (right : (u :: us).IsChain Follows)
    (same : t.text ++ ts.flatMap text = u.text ++ us.flatMap text) : t = u ∧ ts.flatMap text = us.flatMap text := by
  have sorts : t.sort = u.sort := by rw [← leadingText t,← leadingText u,same]
  cases t with
  | dim x =>
    cases u with
    | dim y =>
      obtain ⟨rfl,rest⟩ := numberCut (stopsAfter left fun _ => id) (stopsAfter right fun _ => id) (List.cons.inj same).2
      exact ⟨rfl,rest⟩
    | _ => cases sorts
  | number x =>
    cases u with
    | number y =>
      obtain ⟨rfl,rest⟩ := numberCut (stopsAfter left fun _ => id) (stopsAfter right fun _ => id) same
      exact ⟨rfl,rest⟩
    | _ => cases sorts
  | times x =>
    cases u with
    | times y =>
      have same : [' ', '*', ' '] ++ ((Text.showInt x).toList ++ _) = [' ', '*', ' '] ++ _ := same
      obtain ⟨rfl,rest⟩ := numberCut (stopsAfter left fun _ => id) (stopsAfter right fun _ => id)
        (append_cancel_left same)
      exact ⟨rfl,rest⟩
    | _ => cases sorts
  | plus =>
    cases u with
    | plus => exact ⟨rfl,append_cancel_left same⟩
    | _ => cases sorts
  | opening =>
    cases u with
    | opening => exact ⟨rfl,append_cancel_left same⟩
    | _ => cases sorts
  | closing =>
    cases u with
    | closing => exact ⟨rfl,append_cancel_left same⟩
    | _ => cases sorts

theorem textInj {ts us : List Token} (left : ts.IsChain Follows) (right : us.IsChain Follows)
    (same : ts.flatMap text = us.flatMap text) : ts = us := by
  have nonempty (t : Token) : t.text ≠ [] := by
    cases t with
    | number value =>
      obtain ⟨c,cs,shown,-⟩ := showFirst value
      simp [text,shown]
    | _ => exact nofun
  induction ts generalizing us with
  | nil =>
    cases us with
    | nil => rfl
    | cons u us => exact absurd (append_eq_nil_iff.mp same.symm).1 (nonempty u)
  | cons t ts ih =>
    cases us with
    | nil => exact absurd (append_eq_nil_iff.mp same).1 (nonempty t)
    | cons u us =>
      obtain ⟨rfl,rest⟩ := textCut left right same
      rw [ih (isChain_cons.mp left).2 (isChain_cons.mp right).2 rest]

end Token

namespace Expr

def tokens : Expr → List Token
  | .dim pos => [.dim pos]
  | .const value => [.number value]
  | .sum x y => x.tokens ++ .plus :: y.tokens
  | .scaled x c => (if x.isSum then .opening :: x.tokens ++ [.closing] else x.tokens) ++ [.times c]

theorem renderTokens (e : Expr) : e.render.toList = e.tokens.flatMap Token.text := by
  induction e with
  | dim pos => simp [render,tokens,Token.text]
  | const value => simp [render,tokens,Token.text]
  | sum x y ihx ihy => simp [render,tokens,Token.text,ihx,ihy]
  | scaled x c ih =>
    rw [render,tokens]
    split <;> simp [Token.text,ih]

theorem tokensFollow (e : Expr) : e.tokens.IsChain Token.Follows := by
  induction e with
  | dim pos => exact .singleton _
  | const value => exact .singleton _
  | sum x y ihx ihy => exact Token.chainAppend ihx (isChain_cons.mpr ⟨fun _ _ => trivial,ihy⟩) nofun
  | scaled x c ih =>
    rw [tokens]
    split
    · have inner := Token.chainAppend ih (.singleton Token.closing) nofun
      exact Token.chainAppend (isChain_cons.mpr ⟨fun _ _ => trivial,inner⟩) (.singleton (Token.times c)) nofun
    · exact Token.chainAppend ih (.singleton (Token.times c)) nofun

theorem tokensOfText {x y : Expr} (same : x.render = y.render) : x.tokens = y.tokens :=
  Token.textInj x.tokensFollow y.tokensFollow (by rw [← renderTokens,← renderTokens,same])

/-- The value of a text, read from left to right. Open brackets keep the sums before them. -/
def read (dims : List Int64) : List Token → List Int64 → Int64 → Int64 → Outcome Int64
  | [], _, total, term => .ok (total + term)
  | .dim pos :: ts, outer, total, _ => do read dims ts outer total (← entryAt dims pos)
  | .number value :: ts, outer, total, _ => read dims ts outer total value
  | .plus :: ts, outer, total, term => read dims ts outer (total + term) 0
  | .times c :: ts, outer, total, term => read dims ts outer total (term * c)
  | .opening :: ts, outer, total, _ => read dims ts (total :: outer) 0 0
  | .closing :: ts, total' :: outer, total, term => read dims ts outer total' (total + term)
  | .closing :: _, [], _, _ => Outcome.abort

variable {dims : List Int64} {e x y : Expr}

/- A term that is no sum becomes the term that is read. A sum leaves its last term to be read on, and the terms before it
are in the total. -/
theorem readOk {v} (ok : e.eval dims = .ok v) (ts : List Token) (outer : List Int64) (total term : Int64) :
    ∃ total' term', total' + term' = total + v ∧ (e.isSum = false → total' = total ∧ term' = v) ∧
      read dims (e.tokens ++ ts) outer total term = read dims ts outer total' term' := by
  induction e generalizing ts outer total term v with
  | dim pos =>
    refine ⟨total,v,rfl,fun _ => ⟨rfl,rfl⟩,?_⟩
    rw [tokens,singleton_append,read,show entryAt dims pos = .ok v from ok,Outcome.bindOfOk]
  | const value =>
    cases ok
    exact ⟨total,value,rfl,fun _ => ⟨rfl,rfl⟩,rfl⟩
  | sum x y ihx ihy =>
    obtain ⟨a,left,ok⟩ := Outcome.bindOk.mp ok
    obtain ⟨b,right,same⟩ := Outcome.bindOk.mp ok
    cases same
    obtain ⟨total₁,term₁,sum₁,-,read₁⟩ := ihx left (.plus :: y.tokens ++ ts) outer total term
    obtain ⟨total₂,term₂,sum₂,-,read₂⟩ := ihy right ts outer (total₁ + term₁) 0
    refine ⟨total₂,term₂,by rw [sum₂,sum₁,Int64.add_assoc],nofun,?_⟩
    rw [tokens,append_assoc,read₁,cons_append,read,read₂]
  | scaled x c ih =>
    obtain ⟨a,inner,same⟩ := Outcome.bindOk.mp ok
    cases same
    refine ⟨total,a * c,rfl,fun _ => ⟨rfl,rfl⟩,?_⟩
    rw [tokens]
    split
    · obtain ⟨total',term',sum,-,reads⟩ := ih inner (.closing :: .times c :: ts) (total :: outer) 0 0
      have value : total' + term' = a := by rw [sum,Int64.zero_add]
      simp only [cons_append,append_assoc,nil_append,read,reads,value]
    · rename_i single
      obtain ⟨total',term',-,same,reads⟩ := ih inner (.times c :: ts) outer total term
      obtain ⟨rfl,rfl⟩ := same (by simpa using single)
      rw [append_assoc,singleton_append,reads,read]

theorem readText {v} (ok : e.eval dims = .ok v) : read dims e.tokens [] 0 0 = .ok v := by
  obtain ⟨total,term,sum,-,reads⟩ := readOk ok [] [] 0 0
  rw [← append_nil e.tokens,reads,read,sum,Int64.zero_add]

theorem evalOfText (same : x.render = y.render) {v w} (left : x.eval dims = .ok v) (right : y.eval dims = .ok w) :
    v = w :=
  Except.ok.inj ((readText left).symm.trans (tokensOfText same ▸ readText right))

end Expr
end Affine

namespace AffineMap

theorem evalOfTexts {es fs : List Expr} {x} (same : es.map Expr.render = fs.map Expr.render) {ys zs}
    (left : evalAll x es = .ok ys) (right : evalAll x fs = .ok zs) : ys = zs := by
  rw [evalAllOk] at left right
  induction left generalizing fs zs with
  | nil =>
    obtain rfl := map_eq_nil_iff.mp same.symm
    cases right
    rfl
  | cons here _ ih =>
    cases right with
    | nil => cases same
    | cons there right =>
      obtain ⟨first,rest⟩ := List.cons.inj same
      rw [Expr.evalOfText first here there,ih rest right]

/-- Equality of maps by their texts is sound. Maps with one text have the same numbers of dimensions and results and the
same values at every vector with all the dimensions that they read, however their sums are grouped. A map that is found
to be a minor identity reads exactly the last dimensions. -/
theorem equalSound (m : AffineMap) :
    (∀ o, m.equal o = .ok true → m.numDims = o.numDims ∧ m.numResults = o.numResults ∧
      ∀ x : List Int64, (∀ e ∈ m.results ++ o.results, e.Within (Int64.ofNat x.length)) →
        ∃ ys, m.eval x = .ok ys ∧ o.eval x = .ok ys) ∧
    (m.isMinorIdentity = .ok true → ∀ (i : Nat) (e : Expr), m.results[i]? = some e →
      e = .dim (m.numDims - Int64.ofNat m.numResults + Int64.ofNat i)) := by
  refine ⟨fun o ok => ?_,fun ok i e found => ?_⟩
  · obtain ⟨dims,texts⟩ := equalOk ok
    refine ⟨dims,by simpa [numResults] using congrArg List.length texts,fun x within => ?_⟩
    obtain ⟨left,right⟩ := List.forall_mem_append.mp within
    obtain ⟨ys,left⟩ := Outcome.allSucceed fun e mem => Expr.withinEval (left e mem)
    obtain ⟨zs,right⟩ := Outcome.allSucceed fun e mem => Expr.withinEval (right e mem)
    have left := evalAllOk.mpr left
    have right := evalAllOk.mpr right
    exact ⟨ys,left,evalOfTexts texts left right ▸ right⟩
  · obtain ⟨loops,rank,-,-,rfl⟩ := ofIsMinorIdentity ok
    obtain ⟨inside,rfl⟩ := List.getElem?_eq_some_iff.mp found
    simp [minorOf,numResults]

/- A sum grouped to the left and to the right, under a negative factor, and the last two of three loops. -/
theorem equalSoundRegrouped :
    (∃ ys, eval ⟨2, [.scaled (.sum (.sum (.dim 0) (.dim 1)) (.const (-1))) (-2)]⟩ [5, 7] = .ok ys ∧
      eval ⟨2, [.scaled (.sum (.dim 0) (.sum (.dim 1) (.const (-1)))) (-2)]⟩ [5, 7] = .ok ys) ∧
      ∀ e, (⟨3, [.dim 1, .dim 2]⟩ : AffineMap).results[1]? = some e → e = .dim 2 := by
  have ok : equal ⟨2,[.scaled (.sum (.sum (.dim 0) (.dim 1)) (.const (-1))) (-2)]⟩
      ⟨2,[.scaled (.sum (.dim 0) (.sum (.dim 1) (.const (-1)))) (-2)]⟩ = .ok true := by decide
  obtain ⟨-,-,values⟩ := (equalSound _).1 _ ok
  exact ⟨values [5, 7] (by simp [Expr.Within]),fun e found => ((equalSound _).2 (by decide) 1 e found).trans (by decide)⟩

end AffineMap
end TileLower
