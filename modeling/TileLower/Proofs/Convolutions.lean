import TileLower.Proofs.Blockings
import TileLower.Proofs.Bodies

/-!
Blocked convolutions: one nest of nine loops, in which the terms of each element of the output are added in another
order. Main statement: `Blocking.convRefines`.
-/
namespace TileLower.Blocking

open List

open Box (Inside grid)
open Eval

/-- How a convolution orders its loops and the axes of its operands. The loops run through images `n`, channels `k` and
positions `(p, q)` of the output, channels `c` of the image and positions `(r, s)` in the filter. -/
structure Form where
  rule : List Int64 → Rule
  kind : String
  loops : List Nat
  point : {β : Type} → (n k p q c r s : β) → List β
  image : {β : Type} → (n c h w : β) → List β
  filter : {β : Type} → (k c r s : β) → List β
  left : Int64 → Int64 → AffineMap
  right : AffineMap
  imageLayout : Int64 → Layout
  filterLayout : Int64 → Int64 → Layout

def channelsFirst : Form where
  rule := convNchwFchw
  kind := Structured.convNchwFchwKind
  loops := [0, 1, 2, 3, 4, 5, 6]
  point n k p q c r s := [n, k, p, q, c, r, s]
  image n c h w := [n, c, h, w]
  filter k c r s := [k, c, r, s]
  left sh sw := ⟨7,[.dim 0, .dim 4, convIndex 2 5 sh 1, convIndex 3 6 sw 1]⟩
  right := ⟨7,[.dim 1, .dim 4, .dim 5, .dim 6]⟩
  imageLayout := .nchwc
  filterLayout := .kcrsck

def channelsLast : Form where
  rule := convNhwcHwcf
  kind := Structured.convNhwcHwcfKind
  loops := [0, 3, 1, 2, 6, 4, 5]
  point n k p q c r s := [n, p, q, k, r, s, c]
  image n c h w := [n, h, w, c]
  filter k c r s := [r, s, c, k]
  left sh sw := ⟨7,[.dim 0, convIndex 1 4 sh 1, convIndex 2 5 sw 1, .dim 6]⟩
  right := ⟨7,[.dim 4, .dim 5, .dim 6, .dim 3]⟩
  imageLayout := .nkpqk
  filterLayout := .rsckToKcrsck

abbrev outputMap : AffineMap := ⟨7,[.dim 0, .dim 1, .dim 2, .dim 3]⟩

abbrev imageMap (sh sw : Int64) : AffineMap :=
  ⟨9,[.dim 0, .dim 5, ((Affine.Expr.dim 2).mul sh).add (.dim 6), ((Affine.Expr.dim 3).mul sw).add (.dim 7), .dim 8]⟩

abbrev windowMap : AffineMap := ⟨9,[.dim 1, .dim 5, .dim 6, .dim 7, .dim 8, .dim 4]⟩

abbrev sumMap : AffineMap := ⟨9,[.dim 0, .dim 1, .dim 2, .dim 3, .dim 4]⟩

-- With a stride of zero the image is indexed by the place in the window alone, so its extent is the one that counts.
abbrev taps (stride : Int64) (whole window : Nat) : Nat := if stride = 0 then whole else window

theorem windowCases (a b s : Int64) : s = 0 ∧ ((Affine.Expr.dim a).mul s).add (.dim b) = .dim b ∨
    s ≠ 0 ∧ ∃ x y, ((Affine.Expr.dim a).mul s).add (.dim b) = .sum x y := by
  unfold Affine.Expr.mul
  split
  · rename_i one
    exact .inr ⟨one ▸ by decide,_,_,rfl⟩
  · split
    · exact .inl ⟨‹_›,rfl⟩
    · exact .inr ⟨‹_›,_,_,rfl⟩

theorem windowEval (ds : List Int64) {a b x y} (s : Int64) (first : entryAt ds a = .ok x)
    (second : entryAt ds b = .ok y) : (((Affine.Expr.dim a).mul s).add (.dim b)).eval ds = .ok (x * s + y) := by
  unfold Affine.Expr.mul
  split
  · rename_i one
    subst one
    simp [Affine.Expr.add,Affine.Expr.eval,first,second]
  · split
    · rename_i zero
      subst zero
      simp [Affine.Expr.add,Affine.Expr.eval,second]
    · simp [Affine.Expr.add,Affine.Expr.eval,first,second]

theorem setEntry {xs : List Int64} {pos x : Int64} (found : entryAt xs pos = .ok x) : xs.set pos.toNatClampNeg x = xs := by
  have at_ := Outcome.ofOptionOk.mp found
  rw [entryAt?] at at_
  split at at_
  · cases at_
  · obtain ⟨inside,value⟩ := List.getElem?_eq_some_iff.mp at_
    rw [← value,set_getElem_self]

/- A window with stride zero gives its loop in the filter the extent of the axis, any other gives it none. -/
theorem inferWindow {es} {ds xs ys : List Int64} {a b d : Int64} (s : Int64) (found : entryAt xs b = .ok (-1))
    (rest : inferExtents (xs.set b.toNatClampNeg (if s = 0 then d else -1)) es ds = .ok ys) :
    inferExtents xs (((Affine.Expr.dim a).mul s).add (.dim b) :: es) (d :: ds) = .ok ys := by
  rcases windowCases a b s with ⟨zero,window⟩ | ⟨other,x,y,window⟩
  · rw [if_pos zero] at rest
    rw [window]
    exact inferUnknown found rest
  · rw [if_neg other,setEntry found] at rest
    rw [window]
    exact rest

theorem inferRest {es} {ds xs ys : List Int64} {pos : Int64} {h e} {c : Prop} [Decidable c] (small : h < wordBound)
    (found : entryAt xs pos = .ok (if c then Int64.ofNat h else -1))
    (rest : inferExtents (xs.set pos.toNatClampNeg (Int64.ofNat (if c then h else e))) es ds = .ok ys) :
    inferExtents xs (.dim pos :: es) (Int64.ofNat e :: ds) = .ok ys := by
  by_cases known : c
  · rw [if_pos known] at found rest
    rw [setEntry found] at rest
    exact inferKnown found small rest
  · rw [if_neg known] at found rest
    exact inferUnknown found rest

def Form.toBlocked (F : Form) (t u : Nat) (i : List Nat) : List Nat :=
  match pick F.loops i with
  | [n, k, p, q, c, r, s] => [n, k / u, p, q, k % u, c / t, r, s, c % t]
  | _ => []

def Form.ofBlocked (F : Form) (t u : Nat) : List Nat → List Nat
  | [n, a, p, q, k, b, r, s, c] => F.point n (a * u + k) p q (b * t + c) r s
  | _ => []

section Forms

variable {F : Form} (form : F = channelsFirst ∨ F = channelsLast)

include form

theorem imageBlocked {N C H W t} {T : Tiling (F.image N C H W).length} (small : t < wordBound)
    (describes : (F.imageLayout (Int64.ofNat t)).Describes T) :
    (∀ n c h w, T.blocked (F.image n c h w) = [n, c / t, h, w, c % t]) ∧
      T.packed (F.image N C H W) = [N, (C + t - 1) / t, H, W, t] ∧ (T.Divides (F.image N C H W) → t ∣ C) := by
  have smallTile : Small [t] := by simpa [Small] using small
  rcases form with rfl | rfl
  · obtain ⟨inner,tiles,order⟩ := describes.parts (show 4 < wordBound by decide) [1] [t] [] (by decide) smallTile
      (by decide) rfl
    have order : T.order = [0, 1, 2, 3] := order
    refine ⟨?_,?_,fun divides => ?_⟩
    · simp [Tiling.blocked,Tiling.tile,inner,tiles,order,channelsFirst,idxOf_cons]
    · simp [Tiling.packed,Tiling.tile,inner,tiles,order,channelsFirst,idxOf_cons]
    · simpa [Tiling.tile,inner,tiles,channelsFirst] using divides 1
  · obtain ⟨inner,tiles,order⟩ := describes.parts (show 4 < wordBound by decide) [3] [t] [0, 3, 1, 2] (by decide)
      smallTile (by decide) rfl
    have order : T.order = [0, 3, 1, 2] := order
    refine ⟨?_,?_,fun divides => ?_⟩
    · simp [Tiling.blocked,Tiling.tile,inner,tiles,order,channelsLast,idxOf_cons]
    · simp [Tiling.packed,Tiling.tile,inner,tiles,order,channelsLast,idxOf_cons]
    · simpa [Tiling.tile,inner,tiles,channelsLast] using divides 3

theorem filterBlocked {K C R S t u} {T : Tiling (F.filter K C R S).length} (small : Small [t, u])
    (describes : (F.filterLayout (Int64.ofNat t) (Int64.ofNat u)).Describes T) :
    (∀ k c r s, T.blocked (F.filter k c r s) = [k / u, c / t, r, s, c % t, k % u]) ∧
      T.packed (F.filter K C R S) = [(K + u - 1) / u, (C + t - 1) / t, R, S, t, u] ∧
      (T.Divides (F.filter K C R S) → u ∣ K) := by
  rcases form with rfl | rfl
  · obtain ⟨inner,tiles,order⟩ := describes.parts (show 4 < wordBound by decide) [1, 0] [t, u] [] (by decide) small
      (by decide) rfl
    have order : T.order = [0, 1, 2, 3] := order
    refine ⟨?_,?_,fun divides => ?_⟩
    · simp [Tiling.blocked,Tiling.tile,inner,tiles,order,channelsFirst,idxOf_cons]
    · simp [Tiling.packed,Tiling.tile,inner,tiles,order,channelsFirst,idxOf_cons]
    · simpa [Tiling.tile,inner,tiles,channelsFirst,idxOf_cons] using divides 0
  · obtain ⟨inner,tiles,order⟩ := describes.parts (show 4 < wordBound by decide) [2, 3] [t, u] [3, 2, 0, 1] (by decide)
      small (by decide) rfl
    have order : T.order = [3, 2, 0, 1] := order
    refine ⟨?_,?_,fun divides => ?_⟩
    · simp [Tiling.blocked,Tiling.tile,inner,tiles,order,channelsLast,idxOf_cons]
    · simp [Tiling.packed,Tiling.tile,inner,tiles,order,channelsLast,idxOf_cons]
    · simpa [Tiling.tile,inner,tiles,channelsLast,idxOf_cons] using divides 3

theorem smallImage {n c h w} : Small (F.image n c h w) ↔
    n < wordBound ∧ c < wordBound ∧ h < wordBound ∧ w < wordBound := by
  rcases form with rfl | rfl <;> simp only [channelsFirst,channelsLast,Small,forall_mem_cons,not_mem_nil] <;>
    tauto

theorem smallFilter {k c r s} : Small (F.filter k c r s) ↔
    k < wordBound ∧ c < wordBound ∧ r < wordBound ∧ s < wordBound := by
  rcases form with rfl | rfl <;> simp only [channelsFirst,channelsLast,Small,forall_mem_cons,not_mem_nil] <;>
    tauto

theorem smallPoint {n k p q c r s} : Small (F.point n k p q c r s) ↔ n < wordBound ∧ k < wordBound ∧ p < wordBound ∧
    q < wordBound ∧ c < wordBound ∧ r < wordBound ∧ s < wordBound := by
  rcases form with rfl | rfl <;> simp only [channelsFirst,channelsLast,Small,forall_mem_cons,not_mem_nil] <;>
    tauto

theorem insidePoint {i N K P Q C R S} : Inside i (F.point N K P Q C R S) ↔
    ∃ n k p q c r s, i = F.point n k p q c r s ∧ n < N ∧ k < K ∧ p < P ∧ q < Q ∧ c < C ∧ r < R ∧ s < S := by
  rcases form with rfl | rfl
  · constructor
    · rintro (_ | ⟨hn,_ | ⟨hk,_ | ⟨hp,_ | ⟨hq,_ | ⟨hc,_ | ⟨hr,_ | ⟨hs,⟨⟩⟩⟩⟩⟩⟩⟩⟩)
      exact ⟨_,_,_,_,_,_,_,rfl,hn,hk,hp,hq,hc,hr,hs⟩
    · rintro ⟨n,k,p,q,c,r,s,rfl,hn,hk,hp,hq,hc,hr,hs⟩
      exact .cons hn (.cons hk (.cons hp (.cons hq (.cons hc (.cons hr (.cons hs .nil))))))
  · constructor
    · rintro (_ | ⟨hn,_ | ⟨hp,_ | ⟨hq,_ | ⟨hk,_ | ⟨hr,_ | ⟨hs,_ | ⟨hc,⟨⟩⟩⟩⟩⟩⟩⟩⟩)
      exact ⟨_,_,_,_,_,_,_,rfl,hn,hk,hp,hq,hc,hr,hs⟩
    · rintro ⟨n,k,p,q,c,r,s,rfl,hn,hk,hp,hq,hc,hr,hs⟩
      exact .cons hn (.cons hp (.cons hq (.cons hk (.cons hr (.cons hs (.cons hc .nil))))))

theorem insideImage {x N C H W} (inside : Inside x (F.image N C H W)) :
    ∃ n c h w, x = F.image n c h w ∧ n < N ∧ c < C ∧ h < H ∧ w < W := by
  rcases form with rfl | rfl
  · rcases inside with _ | ⟨hn,_ | ⟨hc,_ | ⟨hh,_ | ⟨hw,⟨⟩⟩⟩⟩⟩
    exact ⟨_,_,_,_,rfl,hn,hc,hh,hw⟩
  · rcases inside with _ | ⟨hn,_ | ⟨hh,_ | ⟨hw,_ | ⟨hc,⟨⟩⟩⟩⟩⟩
    exact ⟨_,_,_,_,rfl,hn,hc,hh,hw⟩

theorem convExtents {g : Graph} {vs : List Value} {tx ty tz : ValueType} (types : vs.map g.typeOf = [tx, ty, tz])
    {N C H W K C' R S N' K' P Q} (dimsX : tx.dims = words (F.image N C H W)) (dimsY : ty.dims = words (F.filter K C' R S))
    (dimsZ : tz.dims = words (F.image N' K' P Q)) (sh sw : Int64) (smallH : H < wordBound) (smallW : W < wordBound)
    (small : Small (F.point N K P Q C (taps sh H R) (taps sw W S))) :
    loopExtents g [F.left sh sw, F.right, outputMap] (vs.map some) =
      .ok (words (F.point N K P Q C (taps sh H R) (taps sw W S))) := by
  obtain ⟨hn,hk,-,-,hc,-,-⟩ := (smallPoint form).mp small
  rcases form with rfl | rfl
  · exact loopExtentsOf (n := 7) types rfl dimsX dimsY dimsZ rfl rfl rfl
      (inferUnknown rfl (inferUnknown rfl (inferWindow sh rfl (inferWindow sw rfl rfl))))
      (inferUnknown rfl (inferKnown rfl hc (inferRest smallH rfl (inferRest smallW rfl rfl))))
      (inferKnown rfl hn (inferKnown rfl hk (inferUnknown rfl (inferUnknown rfl rfl)))) small
  · exact loopExtentsOf (n := 7) types rfl dimsX dimsY dimsZ rfl rfl rfl
      (inferUnknown rfl (inferWindow sh rfl (inferWindow sw rfl (inferUnknown rfl rfl))))
      (inferRest smallH rfl (inferRest smallW rfl (inferKnown rfl hc (inferUnknown rfl rfl))))
      (inferKnown rfl hn (inferUnknown rfl (inferUnknown rfl (inferKnown rfl hk rfl)))) small

theorem imageOfRank {ns : List Nat} (rank : ns.length = 4) : ∃ n c h w, ns = F.image n c h w := by
  obtain ⟨a,b,c,d,rfl⟩ := length_eq_four.mp rank
  rcases form with rfl | rfl
  exacts [⟨a,b,c,d,rfl⟩,⟨a,d,b,c,rfl⟩]

theorem filterOfRank {ns : List Nat} (rank : ns.length = 4) : ∃ k c r s, ns = F.filter k c r s := by
  obtain ⟨a,b,c,d,rfl⟩ := length_eq_four.mp rank
  rcases form with rfl | rfl
  exacts [⟨a,b,c,d,rfl⟩,⟨d,c,a,b,rfl⟩]

theorem formMaps {op : Operation} (kind : op.kind = F.kind) {sh sw}
    (strides : Structured.strides op = [sh, sw]) (unit : ∀ e ∈ Structured.dilations op, e = 1) {maps}
    (found : indexingMaps op = .ok maps) : maps = [F.left sh sw, F.right, outputMap] := by
  have window {f : Window → List AffineMap} (found : (do .ok (f (← windowOf op)) : Outcome (List AffineMap)) = .ok maps) :
      maps = f ⟨sh,sw,1,1⟩ := by
    obtain ⟨w,at_,found⟩ := Outcome.bindOk.mp found
    rw [windowOf,strides] at at_
    revert unit
    split at at_
    · rename_i same dilations
      obtain ⟨rfl,rfl,-⟩ : sh = _ ∧ sw = _ ∧ [] = _ := by simpa using same
      cases at_
      cases found
      intro unit
      rw [dilations,forall_mem_cons,forall_mem_cons] at unit
      rw [unit.1,unit.2.1]
    · cases at_
  rcases form with rfl | rfl
  · rw [indexingMaps,kind] at found
    exact window found
  · rw [indexingMaps,kind] at found
    exact window found

end Forms

theorem convBlockedExtents {g : Graph} {vs : List Value} {tx ty tz : ValueType} (types : vs.map g.typeOf = [tx, ty, tz])
    {N B H W t A B' R S t' u N' A' P Q u'} (dimsX : tx.dims = words [N, B, H, W, t])
    (dimsY : ty.dims = words [A, B', R, S, t', u]) (dimsZ : tz.dims = words [N', A', P, Q, u']) (sh sw : Int64)
    (smallH : H < wordBound) (smallW : W < wordBound)
    (small : Small [N, A, P, Q, u, B, taps sh H R, taps sw W S, t]) :
    loopExtents g (convMaps sh sw) (vs.map some) =
      .ok (words [N, A, P, Q, u, B, taps sh H R, taps sw W S, t]) := by
  obtain ⟨hn,ha,-,-,hu,hb,-,-,ht⟩ : N < wordBound ∧ A < wordBound ∧ P < wordBound ∧ Q < wordBound ∧ u < wordBound ∧
      B < wordBound ∧ _ ∧ _ ∧ t < wordBound := by
    simpa only [Small,mem_cons,not_mem_nil,or_false,forall_eq_or_imp,forall_eq] using small
  exact loopExtentsOf (n := 9) types rfl dimsX dimsY dimsZ rfl rfl rfl
    (inferUnknown rfl (inferUnknown rfl (inferWindow sh rfl (inferWindow sw rfl (inferUnknown rfl rfl)))))
    (inferUnknown rfl (inferKnown rfl hb (inferRest smallH rfl (inferRest smallW rfl
      (inferKnown rfl ht (inferUnknown rfl rfl))))))
    (inferKnown rfl hn (inferKnown rfl ha (inferUnknown rfl (inferUnknown rfl (inferKnown rfl hu rfl))))) small

section Loops

variable {F : Form} (form : F = channelsFirst ∨ F = channelsLast)

include form

theorem pointBlocked (t u n k p q c r s : Nat) :
    F.toBlocked t u (F.point n k p q c r s) = [n, k / u, p, q, k % u, c / t, r, s, c % t] := by
  rcases form with rfl | rfl <;> rfl

theorem pointWrites (n k p q c r s : Nat) : pick [0, 1, 2, 3] (F.point n k p q c r s) = F.image n k p q ∧
      outputMap.eval (words (F.point n k p q c r s)) =
      .ok (words (F.image n k p q)) := by
  rcases form with rfl | rfl <;> exact ⟨rfl,rfl⟩

theorem imageWords {β : Type} {n c h w n' c' h' w' : β} (same : F.image n c h w = F.image n' c' h' w') :
    n = n' ∧ c = c' ∧ h = h' ∧ w = w' := by
  rcases form with rfl | rfl <;> simp only [channelsFirst,channelsLast,cons.injEq] at same <;> tauto

theorem pointBack {t u N K P Q C R S} (posT : 0 < t) (posU : 0 < u) (dividesC : t ∣ C) (dividesK : u ∣ K) {i}
    (inside : Inside i (F.point N K P Q C R S)) :
    Inside (F.toBlocked t u i) [N, (K + u - 1) / u, P, Q, u, (C + t - 1) / t, R, S, t] ∧
      F.ofBlocked t u (F.toBlocked t u i) = i := by
  obtain ⟨n,k,p,q,c,r,s,rfl,hn,hk,hp,hq,hc,hr,hs⟩ := (insidePoint form).mp inside
  rw [pointBlocked form]
  have outer {a b e : Nat} (pos : 0 < e) (divides : e ∣ b) (lt : a < b) : a / e < (b + e - 1) / e := by
    rw [Nat.div_lt_iff_lt_mul pos,Tiling.wholeTiles pos divides]
    exact lt
  refine ⟨.cons hn (.cons (outer posU dividesK hk) (.cons hp (.cons hq (.cons (Nat.mod_lt k posU)
    (.cons (outer posT dividesC hc) (.cons hr (.cons hs (.cons (Nat.mod_lt c posT) .nil)))))))),?_⟩
  rw [Form.ofBlocked,Nat.div_add_mod',Nat.div_add_mod']

theorem pointOn {t u N K P Q C R S} (dividesC : t ∣ C) (dividesK : u ∣ K) {i}
    (inside : Inside i [N, (K + u - 1) / u, P, Q, u, (C + t - 1) / t, R, S, t]) :
    Inside (F.ofBlocked t u i) (F.point N K P Q C R S) ∧ F.toBlocked t u (F.ofBlocked t u i) = i := by
  rcases inside with _ | ⟨hn,_ | ⟨ha,_ | ⟨hp,_ | ⟨hq,_ | ⟨hk,_ | ⟨hb,_ | ⟨hr,_ | ⟨hs,_ | ⟨hc,⟨⟩⟩⟩⟩⟩⟩⟩⟩⟩⟩
  have parts {a k e : Nat} (lt : k < e) : (a * e + k) / e = a ∧ (a * e + k) % e = k := by
    rw [Nat.mul_comm,Nat.mul_add_div ((Nat.zero_le k).trans_lt lt),Nat.div_eq_of_lt lt,Nat.add_zero,
      Nat.mul_add_mod,Nat.mod_eq_of_lt lt]
    exact ⟨rfl,rfl⟩
  have outer {a b k e : Nat} (divides : e ∣ b) (lt : k < e) (below : a < (b + e - 1) / e) : a * e + k < b := by
    have pos := (Nat.zero_le k).trans_lt lt
    rw [← Tiling.wholeTiles pos divides,← Nat.div_lt_iff_lt_mul pos,(parts lt).1]
    exact below
  rw [Form.ofBlocked,pointBlocked form,(parts hk).1,(parts hk).2,(parts hc).1,(parts hc).2]
  exact ⟨(insidePoint form).mpr ⟨_,_,_,_,_,_,_,rfl,hn,outer dividesK hk ha,hp,hq,outer dividesC hc hb,hr,hs⟩,
    rfl⟩

theorem leftEval (sh sw : Int64) (n k p q c r s : Nat) : (F.left sh sw).eval (words (F.point n k p q c r s)) =
    .ok (F.image (Int64.ofNat n) (Int64.ofNat c) (Int64.ofNat p * sh + Int64.ofNat r)
      (Int64.ofNat q * sw + Int64.ofNat s)) := by
  rcases form with rfl | rfl
  · have rows := windowEval (words [n, k, p, q, c, r, s]) (a := 2) (b := 5) sh rfl rfl
    have columns := windowEval (words [n, k, p, q, c, r, s]) (a := 3) (b := 6) sw rfl rfl
    change AffineMap.evalAll (words [n, k, p, q, c, r, s]) [.dim 0, .dim 4, ((Affine.Expr.dim 2).mul sh).add (.dim 5),
      ((Affine.Expr.dim 3).mul sw).add (.dim 6)] = _
    simp only [AffineMap.evalAll,rows,columns]
    rfl
  · have rows := windowEval (words [n, p, q, k, r, s, c]) (a := 1) (b := 4) sh rfl rfl
    have columns := windowEval (words [n, p, q, k, r, s, c]) (a := 2) (b := 5) sw rfl rfl
    change AffineMap.evalAll (words [n, p, q, k, r, s, c]) [.dim 0, ((Affine.Expr.dim 1).mul sh).add (.dim 4),
      ((Affine.Expr.dim 2).mul sw).add (.dim 5), .dim 6] = _
    simp only [AffineMap.evalAll,rows,columns]
    rfl

theorem rightEval (n k p q c r s : Nat) :
    F.right.eval (words (F.point n k p q c r s)) = .ok (words (F.filter k c r s)) := by
  rcases form with rfl | rfl <;> rfl

variable {g : Graph} {id : OpId} {x y z : Value} {t u : Nat} {tx ty tz : ValueType} {N C H W K C' R S N' K' P Q : Nat}
  {X : Tiling (F.image N C H W).length} {Y : Tiling (F.filter K C' R S).length} {Z : Tiling (F.image N' K' P Q).length}
  (smallT : t < wordBound) (smallU : u < wordBound)
  (tiledX : TiledAs (F.imageLayout (Int64.ofNat t)) (g.typeOf x) tx (F.image N C H W) X)
  (tiledY : TiledAs (F.filterLayout (Int64.ofNat t) (Int64.ofNat u)) (g.typeOf y) ty (F.filter K C' R S) Y)
  (tiledZ : TiledAs (F.imageLayout (Int64.ofNat u)) (g.typeOf z) tz (F.image N' K' P Q) Z) (sh sw : Int64)

include smallT smallU tiledX tiledY tiledZ

theorem convLoops : Loops X Y Z [g.typeOf x, g.typeOf y, g.typeOf z] [tx, ty, tz] (F.left sh sw) F.right
    outputMap (imageMap sh sw) windowMap sumMap (F.point N K P Q C (taps sh H R) (taps sw W S))
    [N, (K + u - 1) / u, P, Q, u, (C + t - 1) / t, taps sh H R, taps sw W S, t]
    (pick [0, 1, 2, 3]) (pick [0, 1, 2, 3, 4]) (F.toBlocked t u) := by
  obtain ⟨blockedX,packedX,dividesC⟩ := imageBlocked form smallT tiledX.describes
  obtain ⟨blockedY,packedY,dividesK⟩ := filterBlocked form (by simp [Small,smallT,smallU]) tiledY.describes
  obtain ⟨blockedZ,packedZ,-⟩ := imageBlocked form smallU tiledZ.describes
  have dimsX := tiledX.blockedDims
  have dimsY := tiledY.blockedDims
  have dimsZ := tiledZ.blockedDims
  have packedSmallX := X.packedSmall tiledX.rounds
  have packedSmallY := Y.packedSmall tiledY.rounds
  rw [packedX] at dimsX packedSmallX
  rw [packedY] at dimsY packedSmallY
  rw [packedZ] at dimsZ
  obtain ⟨hN,hC,hH,hW⟩ := (smallImage form).mp tiledX.small
  obtain ⟨hK,-,hR,hS⟩ := (smallFilter form).mp tiledY.small
  obtain ⟨-,-,hP,hQ⟩ := (smallImage form).mp tiledZ.small
  have rows : taps sh H R < wordBound := by unfold taps; split <;> assumption
  have columns : taps sw W S < wordBound := by unfold taps; split <;> assumption
  have small := (smallPoint form).mpr ⟨hN,hK,hP,hQ,hC,rows,columns⟩
  have small' : Small [N, (K + u - 1) / u, P, Q, u, (C + t - 1) / t, taps sh H R, taps sw W S, t] := by
    simp only [Small,forall_mem_cons] at packedSmallX packedSmallY ⊢
    exact ⟨hN,packedSmallY.1,hP,hQ,smallU,packedSmallX.2.1,rows,columns,smallT,nofun⟩
  refine {
    small := small
    small' := small'
    extents := fun g vs types => convExtents form types tiledX.flatDims tiledY.flatDims tiledZ.flatDims sh sw hH hW small
    extents' := fun g vs types => convBlockedExtents types dimsX dimsY dimsZ sh sw hH hW small'
    writes := fun i inside => ?_
    writes' := fun i inside => ?_
    left := fun i inside e within same => ?_
    right := fun i inside e within same => ?_
    onto := fun i inside => ?_
    keys := fun i inside => ?_ }
  · obtain ⟨n,k,p,q,c,r,s,rfl,hn,hk,hp,hq,-⟩ := (insidePoint form).mp inside
    rw [(pointWrites form n k p q c r s).1]
    refine ⟨(pointWrites form n k p q c r s).2,by rcases form with rfl | rfl <;> rfl,?_⟩
    exact (smallImage form).mpr ⟨hn.trans hN,hk.trans hK,hp.trans hP,hq.trans hQ⟩
  · have smallI := NdArray.insideSmall inside small'
    rcases inside with _ | ⟨-,_ | ⟨-,_ | ⟨-,_ | ⟨-,_ | ⟨-,_ | ⟨-,_ | ⟨-,_ | ⟨-,_ | ⟨-,⟨⟩⟩⟩⟩⟩⟩⟩⟩⟩⟩
    simp only [Small,forall_mem_cons] at smallI
    rw [packedZ]
    refine ⟨rfl,rfl,?_⟩
    simp only [pick,Small,map_cons,map_nil,forall_mem_cons]
    exact ⟨smallI.1,smallI.2.1,smallI.2.2.1,smallI.2.2.2.1,smallI.2.2.2.2.1,nofun⟩
  · obtain ⟨n,k,p,q,c,r,s,rfl,hn,-,-,-,hc,-⟩ := (insidePoint form).mp inside
    obtain ⟨n',c',h,w,rfl,hn',hc',-⟩ := insideImage form within
    have spelled : words (F.image n' c' h w) =
        F.image (Int64.ofNat n') (Int64.ofNat c') (Int64.ofNat h) (Int64.ofNat w) := by
      rcases form with rfl | rfl <;> rfl
    rw [leftEval form,spelled] at same
    obtain ⟨sameN,sameC,row,column⟩ := imageWords form (Except.ok.inj same)
    obtain rfl := Word.ofNatInj (hn.trans hN) (hn'.trans hN) sameN
    obtain rfl := Word.ofNatInj (hc.trans hC) (hc'.trans hC) sameC
    rw [pointBlocked form,blockedX]
    have rows := windowEval (words [n, k / u, p, q, k % u, c / t, r, s, c % t]) (a := 2) (b := 6) sh rfl rfl
    have columns := windowEval (words [n, k / u, p, q, k % u, c / t, r, s, c % t]) (a := 3) (b := 7) sw rfl rfl
    simp only [AffineMap.eval,AffineMap.evalAll,rows,columns,row,column]
    rfl
  · obtain ⟨n,k,p,q,c,r,s,rfl,-,hk,-,-,hc,hr,hs⟩ := (insidePoint form).mp inside
    rw [rightEval form] at same
    obtain rfl := wordsInj ((smallFilter form).mpr ⟨hk.trans hK,hc.trans hC,hr.trans rows,hs.trans columns⟩)
      (NdArray.insideSmall within tiledY.small) (Except.ok.inj same)
    rw [pointBlocked form,blockedY]
    rfl
  · exact ⟨_,pointOn form (dividesC tiledX.whole) (dividesK tiledY.whole) inside⟩
  · obtain ⟨n,k,p,q,c,r,s,rfl,-⟩ := (insidePoint form).mp inside
    rw [pointBlocked form,(pointWrites form n k p q c r s).1,blockedZ]
    rfl

variable {α : Type} [Scalar α] [Scalar.Summable α] {b : BlockId} {mul add yield : OpId} (posT : 0 < t) (posU : 0 < u)

include posT posU

/- Here the terms of an element are not in the order in which they were, but its sum is the same. -/
theorem convContracts (region : (g.op id).region = some b) (adds : g.MulAdds b mul add yield)
    (fits : ∀ ns ∈ [F.image N C H W, F.filter K C' R S, F.image N' K' P Q], ns.prod < wordBound) :
    Contracts α g id x y z (F.imageLayout (Int64.ofNat t)) (F.filterLayout (Int64.ofNat t) (Int64.ofNat u))
      (F.imageLayout (Int64.ofNat u)) tx ty tz (F.left sh sw) F.right outputMap
      (imageMap sh sw) windowMap sumMap X Y Z (F.point N K P Q C (taps sh H R) (taps sw W S))
      [N, (K + u - 1) / u, P, Q, u, (C + t - 1) / t, taps sh H R, taps sw W S, t]
      (pick [0, 1, 2, 3]) (pick [0, 1, 2, 3, 4]) (F.toBlocked t u) where
  left := tiledX
  right := tiledY
  out := tiledZ
  fits := fits
  loops := convLoops form smallT smallU tiledX tiledY tiledZ sh sw
  folds c body k inside reads two v w ok := by
    obtain rfl := Option.some.inj (region.symm.trans body)
    obtain ⟨-,-,dividesC⟩ := imageBlocked form smallT tiledX.describes
    obtain ⟨-,-,dividesK⟩ := filterBlocked form (by simp [Small,smallT,smallU]) tiledY.describes
    have dividesC := dividesC tiledX.whole
    have dividesK := dividesK tiledY.whole
    obtain ⟨is,order,within,perm⟩ := (convLoops form smallT smallU tiledX tiledY tiledZ sh sw).permuted
      (fun i here => pointBack form posT posU dividesC dividesK here) (fun i here => pointOn form dividesC dividesK here) inside
    exact ⟨is,order,within,foldlMPerm perm (fun _ _ _ _ _ _ _ => mulAddsSwap adds two) ok⟩

end Loops

section Rewrite

variable {α : Type} [Scalar α] [Scalar.Summable α] {F : Form} {g : Graph} {id : OpId} {b : BlockId} {mul add yield : OpId}
  {tc tk : Int64} {d : Draft} {memory : Array (NdArray α)} {args : List Ref}

theorem blockConvOk {s : Site} {image output filter}
    (ok : blockConv s [tc, tk] image filter output (.ofGraph g) = .ok () d) :
    (0 < tc ∧ 0 < tk) ∧ Structured.hasTensorSemantics g (g.op s.op) = .ok true ∧
      (∀ e ∈ Structured.dilations (g.op s.op), e = 1) ∧ ∃ sh sw, Structured.strides (g.op s.op) = [sh, sw] ∧
      blockWith s (image tc) (filter tc tk) (output tk) (convMaps sh sw) convIterators (.ofGraph g) = .ok () d := by
  obtain ⟨_,⟨-,positive⟩,ok⟩ := Step.read checkTilesOk ok
  obtain ⟨_,⟨-,tensors⟩,ok⟩ := Step.read checkOperandsOk ok
  obtain ⟨_,rfl,ok⟩ := Step.read Drafting.graphOk ok
  obtain ⟨unit,ok⟩ := Site.checkOk.mp ok
  have unit : ∀ e ∈ Structured.dilations (g.op s.op), e = 1 := by
    simpa [Draft.ofGraph] using unit
  refine ⟨by simpa using positive,tensors,unit,?_⟩
  generalize same : Structured.strides _ = strides at ok
  rcases strides with _ | ⟨sh,_ | ⟨sw,_ | _⟩⟩
  · exact absurd ok Site.declineOk
  · exact absurd ok Site.declineOk
  · exact ⟨sh,sw,same,ok⟩
  · exact absurd ok Site.declineOk

theorem convBlocked (form : F = channelsFirst ∨ F = channelsLast) (formed : g.WellFormed) (mem : id ∈ g.walkAll)
    (kind : (g.op id).kind = F.kind) (region : (g.op id).region = some b) (adds : g.MulAdds b mul add yield)
    (eligible : Eligible g id [F.imageLayout tc, F.filterLayout tc tk, F.imageLayout tk])
    (drafted : (F.rule [tc, tk]).draft ⟨(F.rule [tc, tk]).name,id⟩ (.ofGraph g) = .ok () d)
    (valid : ∀ r ∈ args, r < memory.size) (made : MadeArguments memory args) : RefinesBy g d id memory args := by
  obtain ⟨b',scope,place⟩ := Graph.atOfWalk .body mem
  have drafted : blockConv ⟨(F.rule [tc, tk]).name,id⟩ [tc, tk] F.imageLayout F.filterLayout F.imageLayout (.ofGraph g) =
      .ok () d := by
    rcases form with rfl | rfl <;> exact drafted
  have ready := blockConvReady (formed.sightOf mem) drafted
  obtain ⟨positive,tensors,unit,sh,sw,strides,drafted⟩ := blockConvOk drafted
  obtain ⟨x,y,z,tx,ty,tz,blocks⟩ := blockWithOk eligible.two eligible.shapes.length_eq
    (fun v used => (place.uses formed used).below) tensors drafted
  obtain ⟨t,smallT,posT,rfl⟩ := Word.existsOfPos positive.1
  obtain ⟨u,smallU,posU,rfl⟩ := Word.existsOfPos positive.2
  have isConv : Structured.isStructured (g.op id) = true ∧ (evalOp g id : Exec α Unit) = structured g id := by
    simp only [evalOp,Structured.isStructured,kind]
    rcases form with rfl | rfl <;> exact ⟨rfl,rfl⟩
  have four : (F.left sh sw).numResults = 4 ∧ F.right.numResults = 4 := by
    rcases form with rfl | rfl <;> exact ⟨rfl,rfl⟩
  refine contractionRefines blocks formed mem ready isConv.1 isConv.2
    (fun maps found => formMaps form kind strides unit found) eligible
    (by simp only [List.forall_mem_cons,four]; decide) ?_ valid made
  intro nx ny nz X Y Z tiledX tiledY tiledZ rankX rankY rankZ fits
  obtain ⟨N,C,H,W,rfl⟩ := imageOfRank form (rankX.trans four.1)
  obtain ⟨K,C',R,S,rfl⟩ := filterOfRank form (rankY.trans four.2)
  obtain ⟨N',K',P,Q,rfl⟩ := imageOfRank form rankZ
  exact ⟨_,_,_,_,_,convContracts form smallT smallU tiledX tiledY tiledZ sh sw posT posU region adds fits⟩

/-- A convolution that is blocked does what it did, if sums do not depend on the order of their terms. -/
theorem convRefines (form : F = channelsFirst ∨ F = channelsLast) (ok : g.verify = .ok ()) (once : g.walkAll.Nodup)
    (mem : id ∈ g.walkAll) (kind : (g.op id).kind = F.kind) (two : Structured.numInputs (g.op id) = 2)
    (region : (g.op id).region = some b) (adds : g.MulAdds b mul add yield)
    (shapes : List.Forall₂ (fun v l => ∀ a, v = some a → Blockable l (g.typeOf a)) (g.op id).operands
      [F.imageLayout tc, F.filterLayout tc tk, F.imageLayout tk])
    (declared : ∀ j ∈ (g.block Graph.body).ops, g.Declared j)
    (drafted : (F.rule [tc, tk]).draft ⟨(F.rule [tc, tk]).name, id⟩ (.ofGraph g) = .ok () d)
    (valid : ∀ r ∈ args, r < memory.size) (made : MadeArguments memory args) :
    (d.commit id).fault = none ∧ Refines g (d.commit id).graph memory args :=
  convBlocked form (Graph.wellFormedOfVerify ok once) mem kind region adds ⟨two,by rw [region]; rfl,shapes,declared⟩ drafted
    valid made

end Rewrite

def convolving (kind : String) (strides : List Int64) := computing kind (Structured.convAttrs (some strides) none)

def strided : Graph :=
  convolving Structured.convNhwcHwcfKind [1, 2] [.tensor .f32 [1, 3, 3, 2], .tensor .f32 [2, 1, 2, 4],
    .tensor .f32 [1, 2, 2, 4]] [] (.argument 0 0) [0, 1]

theorem convRefinesStrided : strided.verify = .ok () ∧ strided.walkAll.Nodup ∧ strided.MulAdds 1 2 3 4 ∧
    ∃ d, (convNhwcHwcf [1, 2]).draft ⟨(convNhwcHwcf [1, 2]).name, 0⟩ (.ofGraph strided) = .ok () d ∧
      (d.commit 0).fault = none ∧ Refines strided (d.commit 0).graph
        #[(⟨.tensor .f32 [1, 3, 3, 2], #[1, 2, 3, 4, 5, 6, 7, 8, 9, 1, 2, 3, 4, 5, 6, 7, 8, 9]⟩ : NdArray Int),
          ⟨.tensor .f32 [2, 1, 2, 4], #[1, 2, 3, 4, 5, 6, 7, 8, 9, 1, 2, 3, 4, 5, 6, 7]⟩,
          ⟨.tensor .f32 [1, 2, 2, 4], #[1, 1, 1, 1, 1, 1, 1, 1, 1, 1, 1, 1, 1, 1, 1, 1]⟩] [0, 1, 2] := by
  have ok : strided.verify = .ok () := by decide +kernel
  have once : strided.walkAll.Nodup := by decide +kernel
  have adds : strided.MulAdds 1 2 3 4 := by constructor <;> decide +kernel
  obtain ⟨d,drafted⟩ := draftedOf (convNhwcHwcf [1, 2]) 0 strided (by decide +kernel)
  refine ⟨ok,once,adds,d,drafted,convRefines (F := channelsLast) (.inr rfl) ok once (by decide +kernel) rfl rfl rfl adds
    ?_ (by decide +kernel) drafted (by decide) (by decide +kernel)⟩
  refine .cons ?_ (.cons ?_ (.cons ?_ .nil)) <;> rintro _ ⟨⟩ <;> decide +kernel

theorem convolutionsChange :
    beforeThen returned ((convNchwFchw [2, 2]).committed 0)
      (convolving Structured.convNchwFchwKind [1, 1] [.tensor .f32 [1, 2, 1, 1],
      .tensor .f32 [2, 2, 1, 1], .tensor .f32 [1, 2, 1, 1]] [] (.argument 0 0) [0, 0, 1])
      [#[1, 2], #[1, 2, 3, 4], #[1, 2]] = some ([#[6, 13]], none) ∧
    beforeThen returned ((convNchwFchw [7, 1]).committed 0)
      (convolving Structured.convNchwFchwKind [1, 1] [.tensor .f32 [1, Int64.maxValue, 0, 0],
      .tensor .f32 [0, Int64.maxValue, 0, 0], .tensor .f32 [1, 0, 0, 0]] [] (.argument 0 0) [0, 1]) [#[], #[], #[]] =
      some ([#[]], none) ∧
    beforeThen returned ((convNchwFchw [2, 2]).committed 0) (convolving Structured.convNchwFchwKind [1, 1]
      [.tensor .f32 [1, 4294967296, 4294967296, 1], .tensor .f32 [2, 4294967296, 0, 1], .tensor .f32 [1, 2, 0, 1]] []
      (.argument 0 0) [0, 1]) [#[], #[], #[]] = some ([#[]], none) ∧
    beforeThen returned ((convNchwFchw [2, 2]).committed 1)
      (convolving Structured.convNchwFchwKind [1, 1] [.tensor .f32 [1],
      .tensor .f32 [2, 2, 0, 1], .tensor .f32 [1, 2, 0, 1]] [Propagation.plain Memory.castKind [.argument 0 0]
        [.tensor .f32 [1, 2, 1, 1]]] (.result 0 0) [0, 1, 2]) [#[1], #[], #[]] = some ([#[]], none) ∧
    beforeThen returned ((convNchwFchw [2, 2]).committed 1)
      (convolving Structured.convNchwFchwKind [1, 1] [.tensor .f32 [1],
      .tensor .f32 [2, 2, 0, 1], .tensor .f32 [1, 2, 0, 1]] [Propagation.plain Structured.copyKind
        [.argument 0 0, .argument 0 0] [.tensor .f32 [1, 2, 1, 1]]] (.result 0 0) [0, 1, 2]) [#[1], #[], #[]] =
      some ([#[]], none) := by
  refine ⟨?_,?_,?_,?_,?_⟩ <;> decide +kernel

end TileLower.Blocking
