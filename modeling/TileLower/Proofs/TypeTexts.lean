import TileLower.Proofs.MapTexts
import TileLower.ValueType.Reader

/-!
Types and their texts. The written form is a canonical one. Main statement: `ValueType.writtenFormCanonical`.
-/
namespace TileLower

open Outcome List

namespace Text

theorem digitValueOf {c : Char} (digit : c.isDigit = true) : digitValue? c = some (c.toNat - '0'.toNat) := by
  rw [digitValue?,if_pos]
  simpa [Char.isDigit,Char.le_def] using digit

theorem digitsValueOf {cs : List Char} (digits : ∀ c ∈ cs, c.isDigit = true) (acc : Nat) :
    digitsValue? acc cs = some (Nat.ofDigitChars 10 cs acc) := by
  induction cs generalizing acc with
  | nil => rfl
  | cons c cs ih =>
    obtain ⟨here,later⟩ := forall_mem_cons.mp digits
    rw [digitsValue?,digitValueOf here,Option.bind_some,ih later,Nat.ofDigitChars_cons]

theorem signedNumber (n : Nat) : signed? (Nat.toDigits 10 n) = some (n : Int) := by
  have digits : ∀ c ∈ Nat.toDigits 10 n, c.isDigit = true := fun c =>
    Nat.isDigit_of_mem_toDigits (by decide) (by decide)
  have value : natural? (Nat.toDigits 10 n) = some n := by
    rw [natural?,digitsValueOf digits,Nat.ofDigitChars_ten_toDigits]
    exact Nat.toDigits_ne_nil
  rw [signed?,value]
  · rfl
  all_goals
    intro cs same
    exact absurd (digits _ (same ▸ mem_cons_self ..)) (by decide)

theorem int64Shown {d : Int64} (nonneg : 0 ≤ d) : int64? (showInt d).toList = some d := by
  obtain ⟨n,small,rfl⟩ := Word.existsOfNonneg nonneg
  have value := Word.toIntOfNat small
  have shown : (showInt (Int64.ofNat n)).toList = Nat.toDigits 10 n := by
    rw [showInt,value,Int.toString_eq_repr,Int.repr_eq_if,if_pos (Int.natCast_nonneg n),Nat.toList_repr,Int.toNat_natCast]
  rw [int64?,shown,signedNumber,Option.bind_some,if_pos,← value,Int64.ofInt_toInt]
  rw [← value]
  exact ⟨Int64.minValue_le_toInt _,Int64.toInt_le _⟩

section Splitting

variable {sep : Char} {piece rest : List Char}

theorem splitFilled (cs : List Char) : splitChars sep cs ≠ [] := by
  unfold splitChars
  split
  · simp
  · split
    · simp
    · split <;> simp

theorem splitPiece (clean : sep ∉ piece) : splitChars sep (piece ++ sep :: rest) = piece :: splitChars sep rest := by
  induction piece with
  | nil =>
    cases found : splitChars sep rest with
    | nil => exact absurd found (splitFilled rest)
    | cons p ps => simp [splitChars,found]
  | cons c piece ih =>
    obtain ⟨other,clean⟩ := not_or.mp (mt mem_cons.mpr clean)
    rw [cons_append,splitChars,ih clean]
    exact if_neg (Ne.symm other)

theorem splitLast (clean : sep ∉ piece) : splitChars sep piece = [piece] := by
  induction piece with
  | nil => rfl
  | cons c piece ih =>
    obtain ⟨other,clean⟩ := not_or.mp (mt mem_cons.mpr clean)
    rw [splitChars,ih clean]
    exact if_neg (Ne.symm other)

theorem splitPieces {pieces : List (List Char)} (clean : ∀ p ∈ pieces, sep ∉ p) (last : sep ∉ piece) :
    splitChars sep ((pieces.map (· ++ [sep])).flatten ++ piece) = pieces ++ [piece] := by
  induction pieces with
  | nil => exact splitLast last
  | cons p pieces ih =>
    obtain ⟨here,later⟩ := forall_mem_cons.mp clean
    simp [splitPiece here,ih later]

end Splitting

/- Characters that are seen: all written forms have only these. -/
def Seen (c : Char) : Prop := 32 < c.toNat ∧ c.toNat < 127

instance (c : Char) : Decidable (Seen c) := inferInstanceAs (Decidable (32 < c.toNat ∧ c.toNat < 127))

theorem Seen.notBlank {c : Char} (seen : Seen c) : isBlank c = false := by
  obtain ⟨low,high⟩ := seen
  simp only [isBlank,Bool.or_eq_false_iff,Bool.and_eq_false_iff,beq_eq_false_iff_ne,decide_eq_false_iff_not]
  omega

theorem Seen.ofDigit {c : Char} (digit : c.isDigit = true) : Seen c := by
  have range : 48 ≤ c.toNat ∧ c.toNat ≤ 57 := by
    simpa [Char.isDigit,UInt32.le_iff_toNat_le] using digit
  exact ⟨by omega,by omega⟩

theorem trimSeen {cs : List Char} (seen : ∀ c ∈ cs, Seen c) : trimChars cs = cs := by
  have same {cs : List Char} (seen : ∀ c ∈ cs, Seen c) : cs.dropWhile isBlank = cs := by
    cases cs with
    | nil => rfl
    | cons c cs => rw [dropWhile_cons_of_neg (by simp [(seen c (.head _)).notBlank])]
  rw [trimChars,same seen,same fun c mem => seen c (mem_reverse.mp mem),reverse_reverse]

end Text

namespace ElementType

def named : List ElementType := [.i1, .i32, .i64, .ui32, .ui64, .bf16, .f32, .f64]

theorem ofNameIff {s : String} {e : ElementType} : ofName? s = some e ↔ e ∈ named ∧ s = e.name := by
  constructor
  · intro found
    unfold ofName? at found
    split at found <;> first | cases found; decide | cases found
  · rintro ⟨mem,rfl⟩
    revert e
    decide

end ElementType

namespace ValueType

open Text

inductive Formed : ValueType → Prop where
  | index : Formed index
  | scalar {e} (named : e ∈ ElementType.named) : Formed (scalar e)
  | tensor {e dims} (named : e ∈ ElementType.named) (extents : ∀ d ∈ dims, 0 ≤ d ∨ d = dynamicSize) : Formed (tensor e dims)
  | buffer {e dims} (named : e ∈ ElementType.named) (extents : ∀ d ∈ dims, 0 ≤ d ∨ d = dynamicSize) : Formed (buffer e dims)

def dimText (d : Int64) : List Char := if d = dynamicSize then ['?'] else (showInt d).toList

theorem showDimsText (t : ValueType) :
    t.showDims.toList = ((t.dims.map dimText).map (· ++ ['x'])).flatten ++ t.element.name.toList := by
  rw [showDims,String.toList_append,String.toList_join,flatMap_map,map_map,flatMap]
  congr 3
  funext d
  rw [Function.comp,showDim,dimText]
  split
  · rfl
  · rw [String.toList_append]
    rfl

theorem nameChars (e : ElementType) {c : Char} (mem : c ∈ e.name.toList) : c ≠ 'x' ∧ Seen c := by
  have all : e.name.toList.all (fun c => decide (c ≠ 'x' ∧ Seen c)) = true := by cases e <;> decide
  exact of_decide_eq_true (all_eq_true.mp all c mem)

theorem dimTextSeen {d : Int64} {c : Char} (mem : c ∈ dimText d) : c ≠ 'x' ∧ Seen c := by
  rw [dimText] at mem
  split at mem
  · exact mem_singleton.mp mem ▸ by decide
  · rcases showIntChars mem with rfl | digit
    · decide
    · exact ⟨fun is => absurd (is ▸ digit) (by decide),.ofDigit digit⟩

theorem showDimsSeen (t : ValueType) : ∀ c ∈ t.showDims.toList, Seen c := by
  intro c mem
  rw [showDimsText,mem_append] at mem
  rcases mem with dim | name
  · simp only [map_map,mem_flatten,mem_map,Function.comp] at dim
    obtain ⟨_,⟨d,-,rfl⟩,mem⟩ := dim
    rcases mem_append.mp mem with digit | mark
    · exact (dimTextSeen digit).2
    · exact mem_singleton.mp mark ▸ by decide
  · exact (nameChars t.element name).2

theorem readDimsWritten (text : List Char) {dims : List Int64} (extents : ∀ d ∈ dims, 0 ≤ d ∨ d = dynamicSize) :
    readDims text (dims.map dimText) = .ok dims := by
  induction dims with
  | nil => rfl
  | cons d dims ih =>
    obtain ⟨here,later⟩ := forall_mem_cons.mp extents
    have read : readDim text (dimText d) = .ok d := by
      rcases here with nonneg | rfl
      · have known : d ≠ dynamicSize := fun is => absurd (is ▸ nonneg) (by decide)
        have digits : (showInt d).toList ≠ ['?'] := fun is => by
          rcases showIntChars (is ▸ mem_singleton_self '?') with sign | digit
          · exact absurd sign (by decide)
          · exact absurd digit (by decide)
        rw [readDim,dimText,if_neg known,if_neg digits,int64Shown nonneg]
        exact if_neg (Int64.not_lt.mpr nonneg)
      · rfl
    rw [map_cons,readDims,read,bindOfOk,ih later]
    rfl

theorem readShapeWritten (text : List Char) (kind : TypeKind) {t : ValueType} (named : t.element ∈ ElementType.named)
    (extents : ∀ d ∈ t.dims, 0 ≤ d ∨ d = dynamicSize) :
    readShape text kind (t.showDims.toList ++ ['>']) = .ok (t.withKind kind) := by
  have split : splitChars 'x' t.showDims.toList = t.dims.map dimText ++ [t.element.name.toList] := by
    rw [showDimsText,splitPieces]
    · intro p mem
      obtain ⟨d,-,rfl⟩ := mem_map.mp mem
      exact fun mem => (dimTextSeen mem).1 rfl
    · exact fun mem => (nameChars t.element mem).1 rfl
  rw [readShape,if_pos getLast?_concat,dropLast_concat,split]
  simp only [getLastD_concat,dropLast_concat,String.ofList_toList]
  rw [ElementType.ofNameIff.mpr ⟨named,rfl⟩]
  simp only [readDimsWritten text extents,bindOfOk]
  rfl

theorem closedOther {text : List Char} {s : String} (closed : '>' ∈ text) (bare : '>' ∉ s.toList) :
    String.ofList text ≠ s := fun is => bare (by rwa [← is,String.toList_ofList])

theorem parseOpened {opening : String} {kind : TypeKind} {t : ValueType} (seen : ∀ c ∈ opening.toList, Seen c)
    (opens : ∀ rest, openings.find? (fun o => o.1.isPrefixOf (opening.toList ++ rest)) = some (opening.toList, kind))
    (named : t.element ∈ ElementType.named) (extents : ∀ d ∈ t.dims, 0 ≤ d ∨ d = dynamicSize) :
    parse (opening ++ t.showDims ++ ">") = .ok (t.withKind kind) := by
  have text : (opening ++ t.showDims ++ ">").toList = opening.toList ++ (t.showDims.toList ++ ['>']) := by simp
  have closed : '>' ∈ opening.toList ++ (t.showDims.toList ++ ['>']) := by simp
  have trimmed : trimChars (opening.toList ++ (t.showDims.toList ++ ['>'])) =
      opening.toList ++ (t.showDims.toList ++ ['>']) := by
    refine trimSeen fun c mem => ?_
    simp only [mem_append,mem_singleton] at mem
    rcases mem with first | dims | rfl
    · exact seen c first
    · exact showDimsSeen t c dims
    · decide
  rw [parse,text,trimmed,parseChars]
  have other := closedOther closed (s := "index") (by decide)
  have unnamed : ElementType.ofName? (String.ofList (opening.toList ++ (t.showDims.toList ++ ['>']))) = none :=
    Option.eq_none_iff_forall_ne_some.mpr fun e is =>
      closedOther closed (by cases e <;> decide) (ElementType.ofNameIff.mp is).2
  simp only [if_neg other,unnamed,opens,drop_left]
  exact readShapeWritten _ kind named extents

theorem parseWritten {t : ValueType} (formed : t.Formed) : parse t.render = .ok t := by
  cases formed with
  | index => decide +kernel
  | scalar named =>
    rename_i e
    revert e
    decide +kernel
  | tensor named extents =>
    have seen : "tensor<".toList.all (fun c => decide (Seen c)) = true := by decide
    exact parseOpened (by simpa using seen) (fun _ => rfl) named extents
  | buffer named extents =>
    have seen : "memref<".toList.all (fun c => decide (Seen c)) = true := by decide
    exact parseOpened (by simpa using seen) (fun _ => rfl) named extents

theorem readDimsExtents {text : List Char} {fields : List (List Char)} {dims : List Int64}
    (ok : readDims text fields = .ok dims) : ∀ d ∈ dims, 0 ≤ d ∨ d = dynamicSize := by
  induction fields generalizing dims with
  | nil =>
    cases ok
    exact nofun
  | cons field fields ih =>
    obtain ⟨d,here,ok⟩ := bindOk.mp ok
    obtain ⟨ds,later,ok⟩ := bindOk.mp ok
    cases ok
    refine forall_mem_cons.mpr ⟨?_,ih later⟩
    unfold readDim at here
    split at here
    · cases here
      exact .inr rfl
    · split at here
      · split at here
        · exact absurd here failOk
        · cases here
          exact .inl (Int64.not_lt.mp ‹_›)
      · exact absurd here failOk

theorem readShapeOk {text rest : List Char} {kind : TypeKind} {t : ValueType} (ok : readShape text kind rest = .ok t) :
    t.kind = kind ∧ t.element ∈ ElementType.named ∧ ∀ d ∈ t.dims, 0 ≤ d ∨ d = dynamicSize := by
  unfold readShape at ok
  split at ok
  · dsimp only at ok
    split at ok
    · exact absurd ok failOk
    · rename_i e found
      obtain ⟨dims,read,ok⟩ := bindOk.mp ok
      cases ok
      exact ⟨rfl,(ElementType.ofNameIff.mp found).1,readDimsExtents read⟩
  · exact absurd ok failOk

theorem parseFormed {s : String} {t : ValueType} (ok : parse s = .ok t) : t.Formed := by
  unfold parse parseChars at ok
  dsimp only at ok
  split at ok
  · cases ok
    exact .index
  · split at ok
    · rename_i e found
      cases ok
      exact .scalar (ElementType.ofNameIff.mp found).1
    · split at ok
      · rename_i opening kind found
        obtain ⟨kind,e,dims⟩ := t
        obtain ⟨rfl,named,extents⟩ := readShapeOk ok
        have opens := mem_of_find?_eq_some found
        simp only [openings,mem_cons,Prod.mk.injEq,not_mem_nil,or_false] at opens
        rcases opens with ⟨-,rfl⟩ | ⟨-,rfl⟩
        · exact .tensor named extents
        · exact .buffer named extents
      · exact absurd ok failOk

theorem writtenInj {t u : ValueType} (formed : t.Formed) (formed' : u.Formed) (same : t.render = u.render) : t = u :=
  Except.ok.inj ((parseWritten formed).symm.trans (same ▸ parseWritten formed'))

/-- Types are read back from what they are written as; only types that can be written are read, and texts stand for the
same type exactly if the written forms of what they stand for are the same. -/
theorem writtenFormCanonical :
    (∀ t : ValueType, t.Formed → parse t.render = .ok t) ∧
      (∀ s t, parse s = .ok t → t.Formed ∧ parse t.render = .ok t) ∧
      ∀ s s' t t', parse s = .ok t → parse s' = .ok t' → (t = t' ↔ t.render = t'.render) := by
  refine ⟨fun _ => parseWritten,fun s t ok => ?_,fun s s' t t' ok ok' => ?_⟩
  · exact ⟨parseFormed ok,parseWritten (parseFormed ok)⟩
  · exact ⟨congrArg render,writtenInj (parseFormed ok) (parseFormed ok')⟩

theorem writtenFormUntidy : (tensor .bf16 [dynamicSize, 7]).Formed ∧
    parse " tensor<?x+007xbf16>\n" = .ok (tensor .bf16 [dynamicSize, 7]) ∧
    parse "tensor<?x7xbf16>" = .ok (tensor .bf16 [dynamicSize, 7]) := by
  have read : parse " tensor<?x+007xbf16>\n" = .ok (tensor .bf16 [dynamicSize, 7]) := by decide +kernel
  have written : (tensor .bf16 [dynamicSize, 7]).render = "tensor<?x7xbf16>" := by decide +kernel
  obtain ⟨formed,back⟩ := writtenFormCanonical.2.1 _ _ read
  exact ⟨formed,read,written ▸ back⟩

end ValueType

end TileLower
