import TileLower.Graph.Dump
import TileLower.Proofs.Drafts

/-!
The document of a function, made by a walk of its own, gives the text of the function when it is written out. Main
statement: `Graph.documentPrints`.
-/
namespace TileLower

open List

open TileLower.Graph (Piece Namer Labels Labelling indent)

/- The text of a document: names, types and kinds are those of the document. Attributes have another form there, so
their text is taken from the function. -/
namespace Document

def Typed.pieces (v : Typed) : List Piece := [.name v.name, .text (": " ++ v.type)]

def headPieces (kind : String) (operands : List String) (results : List Typed) (attrs : Attributes) : List Piece :=
  let left := if results.isEmpty then [] else Piece.commas (results.map fun r => [.name r.name]) ++ [.text " = "]
  let attrs := if attrs.render = "" then "" else " " ++ attrs.render
  let types := if results.isEmpty then "" else " : " ++ ", ".intercalate (results.map Typed.type)
  left ++ .text (kind ++ "(") :: Piece.commas (operands.map fun o => [.name o]) ++ [.text (")" ++ attrs ++ types)]

mutual

def Op.pieces (g : Graph) (depth : Nat) (id : OpId) : Op → List Piece
  | .mk kind operands results _ region =>
    .text (indent depth) :: headPieces kind operands results (g.op id).attrs ++
      match region with
      | none => [.text "\n"]
      | some r => .text " \x7b\n" :: r.pieces g depth ((g.op id).region.getD default) ++ [.text (indent depth ++ "\x7d\n")]

def Block.pieces (g : Graph) (depth : Nat) (b : BlockId) : Block → List Piece
  | .mk args ops =>
    (if args.isEmpty then [] else .text (indent depth ++ "^bb(") :: Piece.commas (args.map Typed.pieces) ++ [.text "):\n"]) ++
      match ops with
      | none => []
      | some ops => opsPieces g (depth + 1) (g.block b).ops ops

def opsPieces (g : Graph) (depth : Nat) (ids : List OpId) : List Op → List Piece
  | [] => []
  | op :: ops => op.pieces g depth (ids.headD default) ++ opsPieces g depth ids.tail ops

end

def pieces (g : Graph) (d : Document) : List Piece :=
  .text ("func @" ++ d.name ++ "(") :: Piece.commas ((d.args.getD []).map Typed.pieces) ++
    .text ") \x7b\n" :: opsPieces g 1 (g.block Graph.body).ops (d.ops.getD []) ++ [.text "\x7d\n"]

end Document

def Attribute.Shown : Attribute → Prop
  | .maps ms => ∀ m ∈ ms, 0 ≤ m.numDims ∧ m.numDims ≤ lengthLimit
  | _ => True

instance : DecidablePred Attribute.Shown
  | .maps ms => inferInstanceAs (Decidable (∀ m ∈ ms, 0 ≤ m.numDims ∧ m.numDims ≤ lengthLimit))
  | .int _ | .ints _ | .text _ | .texts _ | .float _ | .bool _ | .iterators _ | .type _ | .none => isTrue trivial

namespace Graph

variable {g : Graph} {n : Namer} {l : Labels}

structure Abreast (n : Namer) (l : Labels) : Prop where
  unique : n.unique = l.unique
  names : ∀ v, n.lookup v = l.given.load? v

def Gives {β : Type} (m : Labelling β) (l : Labels) (x : β) (n : Namer) : Prop :=
  ∃ l', m l = .ok (x, l') ∧ Abreast n l'

theorem bindRun {β γ : Type} {m : Labelling β} {x : β} {l' : Labels} (run : m l = .ok (x, l')) (f : β → Labelling γ) :
    (m >>= f) l = f x l' := by
  simp only [Bind.bind,StateT.bind,run,Except.bind]

theorem Gives.bind {β γ : Type} {m : Labelling β} {f : β → Labelling γ} {x : β} {y : γ} {n' : Namer}
    (first : Gives m l x n) (rest : ∀ {l'}, Abreast n l' → Gives (f x) l' y n') : Gives (m >>= f) l y n' := by
  obtain ⟨l',run,abreast⟩ := first
  obtain ⟨l'',run',abreast'⟩ := rest abreast
  exact ⟨l'',(bindRun run f).trans run',abreast'⟩

theorem Gives.done {β : Type} (abreast : Abreast n l) (x : β) : Gives (pure x) l x n := ⟨l,rfl,abreast⟩

def typed (g : Graph) (names : List String) (vs : List Value) : List Document.Typed :=
  names.zipWith (fun name v => ⟨name,(g.typeOf v).render⟩) vs

theorem defineGives (abreast : Abreast n l) (v : Value) :
    Gives (Labels.define g v) l ⟨(n.define g v).1,(g.typeOf v).render⟩ (n.define g v).2 := by
  obtain ⟨names,unique⟩ := n
  obtain ⟨given,_⟩ := l
  obtain ⟨rfl,same⟩ := abreast
  refine ⟨⟨given.store v ("%" ++ (unique.name (g.slot v).name).1),_⟩,rfl,rfl,fun w => ?_⟩
  rw [OrderedMap.loadStore,← same]
  by_cases here : w = v
  · simp [Namer.define,Namer.lookup,here]
  · simp [Namer.define,Namer.lookup,here,Ne.symm here]

theorem defineAllGives (abreast : Abreast n l) (vs : List Value) :
    Gives (vs.mapM (Labels.define g)) l (g.typed (n.defineAll g vs).1 vs) (n.defineAll g vs).2 := by
  induction vs generalizing n l with
  | nil => exact .done abreast []
  | cons v vs ih =>
    rw [mapM_cons]
    exact (defineGives abreast v).bind fun abreast => (ih abreast).bind fun abreast => .done abreast _

theorem operandGives (abreast : Abreast n l) {v : Option Value} (present : v.isSome) :
    Gives (Labels.ofOperand g v) l (n.operand g v).1 (n.operand g v).2 := by
  obtain ⟨v,rfl⟩ := Option.isSome_iff_exists.mp present
  cases found : n.lookup v with
  | some name =>
    refine ⟨l,?_,?_⟩
    · simp only [Labels.ofOperand,← abreast.names,found,Namer.operand]
    · simpa only [Namer.operand,found] using abreast
  | none =>
    obtain ⟨l',run,abreast'⟩ := defineGives (g := g) abreast v
    refine ⟨l',?_,?_⟩
    · simp only [Labels.ofOperand,← abreast.names,found,Namer.operand,run]
      rfl
    · simpa only [Namer.operand,found] using abreast'

theorem operandsGive (abreast : Abreast n l) {vs : List (Option Value)} (present : ∀ v ∈ vs, v.isSome) :
    Gives (vs.mapM (Labels.ofOperand g)) l (n.operands g vs).1 (n.operands g vs).2 := by
  induction vs generalizing n l with
  | nil => exact .done abreast []
  | cons v vs ih =>
    obtain ⟨here,later⟩ := forall_mem_cons.mp present
    rw [mapM_cons]
    exact (operandGives abreast here).bind fun abreast => (ih abreast later).bind fun abreast => .done abreast _

theorem defineAllLength (vs : List Value) (n : Namer) : (n.defineAll g vs).1.length = vs.length := by
  induction vs generalizing n with
  | nil => rfl
  | cons v vs ih => exact congrArg (· + 1) (ih _)

theorem operandPieces {vs : List (Option Value)} (present : ∀ v ∈ vs, v.isSome) (n : Namer) :
    vs.zipWith (fun v name => [operandPiece v name]) (n.operands g vs).1 = (n.operands g vs).1.map fun o => [.name o] := by
  induction vs generalizing n with
  | nil => rfl
  | cons v vs ih =>
    obtain ⟨here,later⟩ := forall_mem_cons.mp present
    have first (name : String) : operandPiece v name = .name name := if_pos here
    simp only [Namer.operands,zipWith_cons_cons,map_cons,first,ih later]

theorem emptyCongr {β γ : Type} {xs : List β} {ys : List γ} (length : xs.length = ys.length) : xs.isEmpty = ys.isEmpty := by
  cases xs <;> cases ys <;> simp_all

section Typed

variable {names : List String} {vs : List Value} (length : names.length = vs.length)

include length

theorem typedLength : (g.typed names vs).length = names.length := by
  simp [typed,length]

theorem typedNames {β : Type} (f : String → β) : (g.typed names vs).map (fun t => f t.name) = names.map f := by
  rw [typed,map_zipWith]
  refine ext_getElem (by simp [length]) fun i _ _ => ?_
  simp

theorem typedTypes : (g.typed names vs).map Document.Typed.type = (vs.map g.typeOf).map ValueType.render := by
  rw [typed,map_zipWith]
  refine ext_getElem (by simp [length]) fun i _ _ => ?_
  simp

end Typed

/-- An operation that can be documented: all operands are there, and maps among the attributes have a text. -/
structure Tellable (g : Graph) (id : OpId) : Prop where
  present : ∀ v ∈ (g.op id).operands, v.isSome
  shown : ∀ e ∈ (g.op id).attrs.entries, e.2.Shown

instance (g : Graph) (id : OpId) : Decidable (g.Tellable id) :=
  decidable_of_iff (_ ∧ _) ⟨fun h => ⟨h.1,h.2⟩,fun h => ⟨h.present,h.shown⟩⟩

theorem Tellable.settings {id : OpId} (tellable : g.Tellable id) : ∃ ss, settings (g.op id).attrs = .ok ss := by
  refine Outcome.mapMSucceeds fun e mem => ?_
  obtain ⟨name,a⟩ := e
  suffices given : ∃ j, attributeJson a = .ok j by
    obtain ⟨j,given⟩ := given
    exact ⟨⟨name,j⟩,by rw [given]; rfl⟩
  cases a with
  | maps ms =>
    have each : ∀ m ∈ ms, ∃ s, AffineMap.render m = .ok s := fun m within => by
      rw [AffineMap.render,listLength,if_pos (tellable.shown _ mem m within)]
      exact ⟨_,rfl⟩
    obtain ⟨ss,given⟩ := Outcome.mapMSucceeds each
    exact ⟨_,by rw [attributeJson,given]; rfl⟩
  | _ => exact ⟨_,rfl⟩

theorem headPrinted {id : OpId} (tellable : g.Tellable id) (n : Namer) :
    (g.printHead id n).1 = Document.headPieces (g.op id).kind (n.operands g (g.op id).operands).1
      (g.typed ((n.operands g (g.op id).operands).2.defineAll g (g.resultsOf id)).1 (g.resultsOf id)) (g.op id).attrs := by
  have length := defineAllLength (g := g) (g.resultsOf id) (n.operands g (g.op id).operands).2
  simp only [printHead,Document.headPieces,emptyCongr (typedLength length),typedNames length (fun s => [Piece.name s]),
    typedTypes length,resultTypes,operandPieces tellable.present,map_map]
  rfl

def Spells {β : Type} (m : Labelling β) (l : Labels) (pieces : β → List Piece) (r : List Piece × Namer) : Prop :=
  ∃ x, Gives m l x r.2 ∧ pieces x = r.1

theorem Gives.spells {β γ : Type} {m : Labelling β} {f : β → Labelling γ} {x : β} {pieces : γ → List Piece}
    {r : List Piece × Namer} (first : Gives m l x n) (rest : ∀ {l'}, Abreast n l' → Spells (f x) l' pieces r) :
    Spells (m >>= f) l pieces r := by
  obtain ⟨l',run,abreast⟩ := first
  obtain ⟨y,⟨l'',run',abreast'⟩,spelled⟩ := rest abreast
  exact ⟨y,⟨l'',(bindRun run f).trans run',abreast'⟩,spelled⟩

section Regions

variable {region : BlockId → Labelling Document.Block} {print : Nat → BlockId → Namer → List Piece × Namer} {depth : Nat}

theorem opSpells {id : OpId} (tellable : g.Tellable id) (abreast : Abreast n l)
    (inner : ∀ b, (g.op id).region = some b → ∀ {n l}, Abreast n l →
      Spells (region b) l (Document.Block.pieces g depth b) (print depth b n)) :
    Spells (documentOp g region id) l (Document.Op.pieces g depth id) (printOp g print depth id n) := by
  obtain ⟨ss,settings⟩ := tellable.settings
  have lifted {l : Labels} (abreast : Abreast (g.printHead id n).2 l) :
      Gives (StateT.lift (Graph.settings (g.op id).attrs)) l ss (g.printHead id n).2 := ⟨l,by rw [settings]; rfl,abreast⟩
  refine (operandsGive abreast tellable.present).spells fun abreast => ?_
  refine (defineAllGives abreast (g.resultsOf id)).spells fun abreast => (lifted abreast).spells fun abreast => ?_
  unfold printOp
  cases found : (g.op id).region with
  | none =>
    refine ⟨_,.done abreast _,?_⟩
    simp only [Document.Op.pieces,headPrinted tellable]
  | some b =>
    obtain ⟨block,gives,spelled⟩ := inner b found abreast
    refine ⟨_,gives.bind fun abreast => .done abreast _,?_⟩
    simp only [Document.Op.pieces,headPrinted tellable,found,Option.getD_some,spelled,append_assoc,cons_append]

theorem opsSpell {ids : List OpId} (tellable : ∀ id ∈ ids, g.Tellable id) (abreast : Abreast n l)
    (inner : ∀ id ∈ ids, ∀ b, (g.op id).region = some b → ∀ {n l}, Abreast n l →
      Spells (region b) l (Document.Block.pieces g depth b) (print depth b n)) :
    Spells (ids.mapM (documentOp g region)) l (Document.opsPieces g depth ids) (printOps g print depth ids n) := by
  induction ids generalizing n l with
  | nil => exact ⟨[],.done abreast [],rfl⟩
  | cons id ids ih =>
    obtain ⟨here,later⟩ := forall_mem_cons.mp tellable
    obtain ⟨first,others⟩ := forall_mem_cons.mp inner
    obtain ⟨op,gives,spelled⟩ := opSpells here abreast first
    rw [mapM_cons]
    refine gives.spells fun abreast => ?_
    obtain ⟨ops,gives,spelled'⟩ := ih later abreast others
    refine ⟨op :: ops,gives.bind fun abreast => .done abreast _,?_⟩
    simp only [Document.opsPieces,printOps,headD_cons,tail_cons,spelled,spelled']

end Regions

def namedArgs (g : Graph) (b : BlockId) (n : Namer) : List Document.Typed :=
  g.typed (n.defineAll g (g.argumentsOf b)).1 (g.argumentsOf b)

theorem argsPrinted (b : BlockId) (n : Namer) : g.printArgs b n =
    (Piece.commas ((g.namedArgs b n).map Document.Typed.pieces), (n.defineAll g (g.argumentsOf b)).2) := by
  simp only [printArgs,namedArgs,typed,map_zipWith]
  rfl

theorem blockPrinted (fuel depth : Nat) (b : BlockId) (n : Namer) {ops : Option (List Document.Op)}
    (spelled : Document.opsPieces g (depth + 1) (g.block b).ops (ops.getD []) =
      (printOps g (g.printBlock fuel) (depth + 1) (g.block b).ops (n.defineAll g (g.argumentsOf b)).2).1) :
    g.printBlock (fuel + 1) depth b n = (Document.Block.pieces g depth b (.mk (g.namedArgs b n) ops),
      (printOps g (g.printBlock fuel) (depth + 1) (g.block b).ops (n.defineAll g (g.argumentsOf b)).2).2) := by
  have written : Document.Block.pieces g depth b (.mk (g.namedArgs b n) ops) =
      (if (g.namedArgs b n).isEmpty then [] else .text (indent depth ++ "^bb(") ::
        Piece.commas ((g.namedArgs b n).map Document.Typed.pieces) ++ [.text "):\n"]) ++
        Document.opsPieces g (depth + 1) (g.block b).ops (ops.getD []) := by
    cases ops <;> simp only [Document.Block.pieces,Document.opsPieces,Option.getD_none,Option.getD_some]
  have length := defineAllLength (g := g) (g.argumentsOf b) n
  have bare : (g.namedArgs b n).isEmpty = (g.block b).args.isEmpty :=
    emptyCongr ((typedLength length).trans (length.trans (by simp [argumentsOf])))
  rw [written,bare,spelled]
  cases none_ : (g.block b).args.isEmpty with
  | true =>
    have without : g.argumentsOf b = [] := by simpa [argumentsOf] using none_
    simp [printBlock,none_,without,Namer.defineAll]
  | false => simp [printBlock,none_,argsPrinted]

theorem documentOpsSpell {region print depth} {ids : List OpId}
    (ops : Spells (ids.mapM (documentOp g region)) l (Document.opsPieces g depth ids) (printOps g print depth ids n)) :
    Spells (documentOps g region ids) l (fun ops => Document.opsPieces g depth ids (ops.getD []))
      (printOps g print depth ids n) := by
  obtain ⟨ops,gives,spelled⟩ := ops
  refine ⟨_,gives.bind fun abreast => .done abreast _,?_⟩
  cases ops with
  | nil => exact spelled
  | cons => exact spelled

/- A block spells the operations that stand in it if it spells all deeper ones. -/
theorem walkedSpell {fuel : Nat} {b : BlockId} (tellable : ∀ id ∈ g.walk (fuel + 1) b, g.Tellable id) (depth : Nat)
    (inner : ∀ {r}, (∀ id ∈ g.walk fuel r, g.Tellable id) → ∀ {n l}, Abreast n l →
      Spells (documentBlock g fuel r) l (Document.Block.pieces g depth r) (g.printBlock fuel depth r n))
    (abreast : Abreast n l) : Spells (documentOps g (documentBlock g fuel) (g.block b).ops) l
      (fun ops => Document.opsPieces g depth (g.block b).ops (ops.getD []))
      (printOps g (g.printBlock fuel) depth (g.block b).ops n) := by
  refine documentOpsSpell (opsSpell (fun id mem => tellable id ?_) abreast fun id mem r found => inner fun j deeper => ?_)
  · exact mem_flatMap.mpr ⟨id,mem,.head _⟩
  · exact tellable j (mem_flatMap.mpr ⟨id,mem,.tail _ (by rwa [found])⟩)

theorem blockSpells {fuel : Nat} {b : BlockId} (tellable : ∀ id ∈ g.walk fuel b, g.Tellable id) (depth : Nat)
    (abreast : Abreast n l) :
    Spells (documentBlock g fuel b) l (Document.Block.pieces g depth b) (g.printBlock fuel depth b n) := by
  induction fuel generalizing b depth n l with
  | zero => exact ⟨_,.done abreast _,rfl⟩
  | succ fuel ih =>
    refine (defineAllGives abreast (g.argumentsOf b)).spells fun abreast => ?_
    obtain ⟨ops,gives,spelled⟩ := walkedSpell tellable (depth + 1) (fun t => ih t _) abreast
    rw [blockPrinted fuel depth b n spelled]
    exact ⟨_,gives.bind fun abreast => .done abreast _,rfl⟩

/-- Where all operands are there and maps have texts, the function has a document, and this document written out is the
text of the function: each name stands where the printer has it. -/
theorem documentPrints (g : Graph) (tellable : ∀ id ∈ g.walkAll, g.Tellable id) :
    ∃ d, g.document = .ok d ∧ d.pieces g = g.pieces := by
  obtain ⟨l,run,abreast⟩ := defineAllGives (g := g) (n := .empty) (l := .empty) ⟨rfl,fun _ => rfl⟩ (g.argumentsOf body)
  obtain ⟨ops,⟨l',run',-⟩,spelled⟩ := walkedSpell tellable 1 (fun t => blockSpells t _) abreast
  refine ⟨⟨g.name,some (g.namedArgs body .empty),ops⟩,?_,?_⟩
  · have whole : documentBlock g (g.blocks.size + 1) body Labels.empty = .ok (.mk (g.namedArgs body .empty) ops, l') := by
      rw [documentBlock,bindRun run,bindRun run']
      rfl
    rw [document,whole]
    rfl
  · simp only [Document.pieces,pieces,argsPrinted,Option.getD_some,printRegion,← spelled]

/- The second result of an operation is used before the operation and inside its region, and a block argument has the
name of an argument. -/
def early : Graph :=
  let t := ValueType.scalar .f32
  ⟨"f",#[⟨"a",[some (.result 1 1), some (.argument 0 1)],[⟨t,"x"⟩],.empty,none,some 0⟩,
      ⟨"b",[some (.result 0 0)],[⟨t,""⟩, ⟨t,""⟩],.ofList [("maps", .maps [⟨1,[.dim 0]⟩])],some 1,some 0⟩,
      ⟨"c",[some (.argument 1 0), some (.result 1 1)],[],.empty,none,some 1⟩],
    #[⟨[⟨t,"x"⟩, ⟨t,""⟩],[0, 1],none⟩, ⟨[⟨t,"x"⟩],[2],some 1⟩]⟩

theorem documentPrintsEarly : (∀ id ∈ early.walkAll, early.Tellable id) ∧
    ∃ d, early.document = .ok d ∧ d.pieces early = early.pieces := by
  have tellable : ∀ id ∈ early.walkAll, early.Tellable id := by decide +kernel
  exact ⟨tellable,documentPrints early tellable⟩

def uncounted : Graph := ⟨"f",#[⟨"a",[],[],.ofList [("maps", .maps [⟨-1,[]⟩])],none,some 0⟩],#[⟨[],[0],none⟩]⟩

theorem uncountedUndocumented : (∀ id ∈ uncounted.walkAll, ∀ v ∈ (uncounted.op id).operands, v.isSome) ∧
    ¬ ∃ d, uncounted.document = .ok d := by
  refine ⟨by decide +kernel,fun ⟨d,found⟩ => ?_⟩
  have stops : uncounted.document = Outcome.abort := by rfl
  cases stops.symm.trans found

end Graph

end TileLower
