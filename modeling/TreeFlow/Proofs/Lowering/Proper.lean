import TreeFlow.Proofs.Graph.Proper
import TreeFlow.Proofs.Lowering.Steady
import TreeFlow.Proofs.Scope.Frames

/-!
# Lowering stays in the ranges of types

Wherever lowering is, the constants of the module are in the ranges of their types, and every type that a name
stands for is one whose integers have a width (`State.IsProper`). A step keeps that up whatever becomes of it, and
what it yields is proper too (`Lower.Properly`). This module has the steps that all others are made of, and the
ones on values that have been lowered already: conversions, and the operators of the language.

A value may be passed on with another type than its constant has. So it is the constant that is in range, of its
own type, and of the type of the value only the width matters.
-/

namespace TreeFlow

/-! ### What is proper -/

/-- The operands of a value are proper, and the integers in its type have a width. -/
structure Value.IsProper (v : Value) : Prop where
  op : v.op.IsProper
  ty : v.ty.IsProper
  effects : ∀ op ∈ v.effects, op.IsProper

/-- The type and the address that a name stands for are proper. -/
structure Binding.IsProper (b : Binding) : Prop where
  ty : b.ty.IsProper
  addr : b.addr.IsProper

/-- All that the names of a frame stand for is proper. -/
structure Frame.IsProper (f : Frame) : Prop where
  types : ∀ entry ∈ f.types, entry.2.IsProper
  vars : ∀ entry ∈ f.vars, entry.2.IsProper

theorem Frame.isProper_empty : Frame.IsProper {} := ⟨List.forall_mem_nil _, List.forall_mem_nil _⟩

/-- All that names stand for is proper. -/
def ScopeStack.IsProper (s : ScopeStack) : Prop := ∀ frame ∈ s.frames, frame.IsProper

namespace Value.IsProper

variable {op : Operand} {ty : Ty} {form : Form}

theorem of_op (hop : op.IsProper) (hty : ty.IsProper) : Value.IsProper { op, ty, form } :=
  ⟨hop, hty, List.forall_mem_nil _⟩

theorem ofConstant {c : Constant} (hc : c.IsProper) (hty : c.ty.IsProper) : (Value.ofConstant c).IsProper :=
  .of_op (Operand.isProper_const hc) hty

theorem nothing : Value.nothing.IsProper := ofConstant trivial .void

end Value.IsProper

namespace ScopeStack.IsProper

variable {s t : ScopeStack} {name : String} {b : Binding} {ty : Ty}

theorem iff_all : s.IsProper ↔ s.All Ty.IsProper Binding.IsProper :=
  forall₂_congr fun _ _ => ⟨fun h => ⟨h.types, h.vars⟩, fun h => ⟨h.types, h.vars⟩⟩

theorem of_var? (h : s.IsProper) (hfind : s.var? name = some b) : b.IsProper := (iff_all.1 h).of_var? hfind

theorem of_globalVar? (h : s.IsProper) (hfind : s.globalVar? name = some b) : b.IsProper :=
  (iff_all.1 h).of_globalVar? hfind

theorem of_type? (h : s.IsProper) (hfind : s.type? name = some ty) : ty.IsProper := (iff_all.1 h).of_type? hfind

theorem defineVar (h : s.IsProper) (hb : b.IsProper) : (s.defineVar name b).IsProper :=
  iff_all.2 ((iff_all.1 h).defineVar hb)

theorem defineType (h : s.IsProper) (hty : ty.IsProper) : (s.defineType name ty).IsProper :=
  iff_all.2 ((iff_all.1 h).defineType hty)

theorem defineTag (h : s.IsProper) (kind : AggregateKind) (key : String) : (s.defineTag kind name key).IsProper :=
  iff_all.2 ((iff_all.1 h).defineTag kind name key)

theorem defineGlobalVar (h : s.IsProper) (hb : b.IsProper) : (s.defineGlobalVar name b).IsProper :=
  iff_all.2 ((iff_all.1 h).defineGlobalVar hb)

theorem defineLabel {block : BlockId} (h : s.IsProper) (hdefine : s.defineLabel name block = .ok t) :
    t.IsProper := iff_all.2 ((iff_all.1 h).defineLabel hdefine)

theorem openLocal (h : s.IsProper) (hopen : s.openLocal = .ok t) : t.IsProper :=
  iff_all.2 ((iff_all.1 h).openLocal hopen)

theorem closeLocal (h : s.IsProper) (hclose : s.closeLocal = .ok t) : t.IsProper :=
  iff_all.2 ((iff_all.1 h).closeLocal hclose)

theorem openFunction (h : s.IsProper) (hopen : s.openFunction = .ok t) : t.IsProper :=
  iff_all.2 ((iff_all.1 h).openFunction hopen)

theorem closeFunction (h : s.IsProper) (hclose : s.closeFunction = .ok t) : t.IsProper :=
  iff_all.2 ((iff_all.1 h).closeFunction hclose)

end ScopeStack.IsProper

namespace Lower

variable {α β : Type}

/-- The module is proper, and so is all that names stand for and what the function at hand returns. -/
structure State.IsProper (s : State) : Prop where
  mod : s.builder.mod.IsProper
  scopes : s.scopes.IsProper
  result : ∀ f, s.func = some f → f.result.IsProper

theorem State.isProper_initial (config : Config) : (State.initial config).IsProper where
  mod := {
    functions := fun id f hf => by simp [State.initial, Builder.ofName, Module.function?] at hf
    globals := fun id g hg => by simp [State.initial, Builder.ofName, Module.global?] at hg
    types := fun d hd => by simp [State.initial, Builder.ofName] at hd }
  scopes := List.forall_mem_singleton.2 Frame.isProper_empty
  result _ h := by cases h

/-! ### Steps -/

/-- From a proper state a step comes to a proper one, and what it yields satisfies a condition. -/
def Properly (P : α → Prop) (m : Lower α) : Prop :=
  ∀ env s, s.IsProper → (m env s).2.IsProper ∧ ∀ a, (m env s).1 = .done a → P a

/-- A step keeps states proper. -/
abbrev StaysProper (m : Lower α) : Prop := Properly (fun _ => True) m

namespace Properly

variable {P : α → Prop} {Q : β → Prop} {m : Lower α} {next : α → Lower β} {line : Nat}

theorem of_done {f : Env → State → α × State} (hm : ∀ env s, m env s = (.done (f env s).1, (f env s).2))
    (h : ∀ env s, s.IsProper → (f env s).2.IsProper ∧ P (f env s).1) : Properly P m := fun env s hs => by
  rw [hm]
  refine ⟨(h env s hs).1, fun a ha => ?_⟩
  cases ha
  exact (h env s hs).2

theorem pure {a : α} (h : P a) : Properly P (Pure.pure a : Lower α) :=
  .of_done (f := fun _ s => (a, s)) (fun _ _ => rfl) fun _ _ hs => ⟨hs, h⟩

theorem fail : Properly P (Lower.fail : Lower α) := fun _ _ hs => ⟨hs, fun _ h => by cases h⟩

theorem halt (why : Stuck) : Properly P (Lower.halt why : Lower α) := fun _ _ hs => ⟨hs, fun _ h => by cases h⟩

theorem bind (hm : Properly P m) (hnext : ∀ a, P a → Properly Q (next a)) : Properly Q (m >>= next) :=
  fun env s hs => by
    have hrun := hm env s hs
    show (Lower.bind m next env s).2.IsProper ∧ ∀ b, (Lower.bind m next env s).1 = .done b → Q b
    unfold Lower.bind
    rcases hms : m env s with ⟨a | _ | why, t⟩ <;> rw [hms] at hrun
    · exact hnext a (hrun.2 a rfl) env t hrun.1
    · exact ⟨hrun.1, fun _ h => by cases h⟩
    · exact ⟨hrun.1, fun _ h => by cases h⟩

theorem attempt (hm : Properly P m) : Properly (fun o => ∀ a, o = some a → P a) (Lower.attempt m) :=
  fun env s hs => by
    have hrun := hm env s hs
    unfold Lower.attempt
    rcases hms : m env s with ⟨a | _ | why, t⟩ <;> rw [hms] at hrun
    · refine ⟨hrun.1, fun o ho a ha => hrun.2 a ?_⟩
      cases ho
      cases ha
      rfl
    · refine ⟨hrun.1, fun o ho a ha => ?_⟩
      cases ho
      cases ha
    · exact ⟨hrun.1, fun _ h => by cases h⟩

theorem discard (hm : Properly P m) : StaysProper (Functor.discard m) := .bind hm fun _ _ => .pure trivial

theorem ignoring (hm : Properly P m) : StaysProper (Lower.ignoring m) := .discard hm.attempt

theorem forM {step : α → Lower PUnit} {items : List α} (h : ∀ a ∈ items, StaysProper (step a)) :
    StaysProper (items.forM step) := by
  induction items with
  | nil => exact .pure trivial
  | cons a rest ih =>
    exact .bind (h a List.mem_cons_self) fun _ _ => ih fun b hb => h b (List.mem_cons_of_mem _ hb)

theorem env : StaysProper Lower.env :=
  .of_done (f := fun env s => (env, s)) (fun _ _ => rfl) fun _ _ hs => ⟨hs, trivial⟩

theorem read {f : State → α} (h : ∀ s, s.IsProper → P (f s)) : Properly P (Lower.read f) :=
  .of_done (f := fun _ s => (f s, s)) (fun _ _ => rfl) fun _ s hs => ⟨hs, h s hs⟩

/-- Something is looked at that nothing has to be known of. -/
theorem look (f : State → α) : StaysProper (Lower.read f) := .read fun _ _ => trivial

theorem scopes : Properly ScopeStack.IsProper (Lower.read (·.scopes)) := .read fun _ hs => hs.scopes

theorem types : Properly TypeTable.IsProper Lower.types := .read fun _ hs => hs.mod.types

theorem update {f : State → State} (h : ∀ s, s.IsProper → (f s).IsProper) : StaysProper (Lower.update f) :=
  .of_done (f := fun _ s => ((), f s)) (fun _ _ => rfl) fun _ s hs => ⟨h s hs, trivial⟩

theorem updateScopes {f : ScopeStack → ScopeStack} (h : ∀ s, s.IsProper → (f s).IsProper) :
    StaysProper (Lower.updateScopes f) := .update fun s hs => { hs with scopes := h s.scopes hs.scopes }

theorem withBuilder {f : Builder → α × Builder} (h : ∀ b, b.mod.IsProper → (f b).2.mod.IsProper ∧ P (f b).1) :
    Properly P (Lower.withBuilder f) :=
  .of_done (f := fun _ s => ((f s.builder).1, { s with builder := (f s.builder).2 })) (fun _ _ => rfl)
    fun _ s hs => ⟨{ hs with mod := (h s.builder hs.mod).1 }, (h s.builder hs.mod).2⟩

theorem updateBuilder {f : Builder → Builder} (h : ∀ b, b.mod.IsProper → (f b).mod.IsProper) :
    StaysProper (Lower.updateBuilder f) := .update fun s hs => { hs with mod := h s.builder hs.mod }

theorem withTypes {f : TypeTable → α × TypeTable} (h : ∀ t, t.IsProper → (f t).2.IsProper ∧ P (f t).1) :
    Properly P (Lower.withTypes f) :=
  .withBuilder fun b hb => ⟨{ hb with types := (h b.mod.types hb.types).1 }, (h b.mod.types hb.types).2⟩

theorem report (kind : DiagnosticKind) (line : Nat) : StaysProper (Lower.report kind line) :=
  .of_done (f := fun env s => ((), { s with diags := s.diags.push ⟨kind, env.tree.file, line⟩ })) (fun _ _ => rfl)
    fun _ _ hs => ⟨{ hs with }, trivial⟩

theorem failWith (kind : DiagnosticKind) (line : Nat) : Properly P (Lower.failWith kind line : Lower α) :=
  .bind (.report kind line) fun _ _ => .fail

theorem present (h : Handle) (o : Option α) : StaysProper (Lower.present h o) := by
  cases o with
  | none => exact .halt _
  | some a => exact .pure trivial

theorem expr (id : ExprId) : StaysProper (Lower.expr id) := .bind .env fun _ _ => .present _ _

theorem stmt (id : StmtId) : StaysProper (Lower.stmt id) := .bind .env fun _ _ => .present _ _

theorem spec (id : SpecId) : StaysProper (Lower.spec id) := .bind .env fun _ _ => .present _ _

theorem declarator (id : DeclaratorId) : StaysProper (Lower.declarator id) := .bind .env fun _ _ => .present _ _

theorem describe (ty : Ty) : StaysProper (Lower.describe ty) := .bind .types fun _ _ => .pure trivial

theorem currentBlock : StaysProper Lower.currentBlock := .look _

theorem setBlock (id : BlockId) : StaysProper (Lower.setBlock id) := .updateBuilder fun _ hb => hb

theorem emit {m : Build α} (hm : Build.Properly P m) : Properly P (Lower.emit line m) := fun env s hs => by
  unfold Lower.emit
  rcases hrun : m s.builder with fault | ⟨a, b⟩
  · cases fault with
    | missingBlock id => exact ⟨hs, fun _ h => by cases h⟩
    | _ => exact failWith (P := P) _ line env s hs
  · obtain ⟨hb, ha⟩ := hm _ _ _ hs.mod hrun
    refine ⟨{ hs with mod := hb }, fun a' ha' => ?_⟩
    cases ha'
    exact ha

/-- A step between two changes of the state. -/
theorem between (hm : Properly P m) {n : Lower α} (before : State → State) (after : State → State → State)
    (hn : ∀ env s, n env s = ((m env (before s)).1, after s (m env (before s)).2))
    (hbefore : ∀ s, s.IsProper → (before s).IsProper)
    (hafter : ∀ s t : State, s.IsProper → t.IsProper → (after s t).IsProper) : Properly P n := fun env s hs => by
  obtain ⟨ht, ha⟩ := hm env (before s) (hbefore s hs)
  rw [hn]
  exact ⟨hafter s _ hs ht, ha⟩

theorem withLvalue (on : Bool) (hm : Properly P m) : Properly P (Lower.withLvalue on m) :=
  hm.between (fun s => { s with lvalue := on }) (fun s t => { t with lvalue := s.lvalue }) (fun _ _ => rfl)
    (fun _ hs => { hs with }) fun _ _ _ ht => { ht with }

theorem inNamespace (name : String) (hm : Properly P m) : Properly P (Lower.inNamespace name m) :=
  hm.between (fun s => { s with scopes := s.scopes.pushNamespace name })
    (fun _ t => { t with scopes := t.scopes.popNamespace name }) (fun _ _ => rfl)
    (fun _ hs => { hs with }) fun _ _ _ ht => { ht with }

theorem probe (hm : Properly P m) : Properly P (Lower.probe m) :=
  hm.between (fun s => { s with builder := s.builder.snapshot.2 })
    (fun s t => { t with builder := t.builder.restore s.builder.snapshot.1 .types, lvalue := s.lvalue })
    (fun _ _ => rfl) (fun _ hs => { hs with mod := Builder.isProper_snapshot hs.mod })
    fun _ _ hs ht => { ht with mod := Builder.isProper_restore ht.mod hs.mod _ }

theorem localScope (hm : Properly P m) : Properly P (Lower.localScope m) := fun env s hs => by
  unfold Lower.localScope
  split
  · exact hm env s hs
  · next opened hopen =>
    obtain ⟨ht, ha⟩ := hm env { s with scopes := opened } { hs with scopes := hs.scopes.openLocal hopen }
    dsimp only
    split
    · next scopes hclose => exact ⟨{ ht with scopes := ht.scopes.closeLocal hclose }, ha⟩
    · exact ⟨(report _ 0 env _ ht).1, ha⟩

end Properly

/-! ### Values -/

/-- A conversion to an integer has a type of integers for its target. -/
def Conversion.Suits (c : Conversion) (target : Ty) : Prop :=
  match c with
  | .keep => True
  | .cast op => op.isIntegral = true → target.isInteger = true
  | .castFrom ty op => ty.IsProper ∧ ty.isInteger = true ∧ (op.isIntegral = true → target.isInteger = true)

theorem Conversion.suits_of_conversion? {source target : Ty} {c : Conversion}
    (h : conversion? source target = some c) : c.Suits target := by
  unfold conversion? at h
  split at h
  · next hint =>
    have htarget : target.isInteger = true := (Bool.and_eq_true_iff.1 hint).2
    obtain ⟨a, -, h⟩ := Option.bind_eq_some_iff.1 h
    obtain ⟨b, -, h⟩ := Option.bind_eq_some_iff.1 h
    split at h
    · obtain rfl := Option.some.inj h
      exact fun _ => htarget
    · split at h
      · obtain rfl := Option.some.inj h
        exact fun _ => htarget
      · obtain rfl := Option.some.inj h
        trivial
  · split at h
    · obtain rfl := Option.some.inj h
      split
      · exact ⟨.word, rfl, nofun⟩
      · exact nofun
    · split at h
      · next hfloat =>
        obtain rfl := Option.some.inj h
        exact fun _ => (Bool.and_eq_true_iff.1 hfloat).2
      · split at h
        · obtain rfl := Option.some.inj h
          exact nofun
        · obtain rfl := Option.some.inj h
          exact nofun
        · obtain rfl := Option.some.inj h
          exact nofun
        · split at h
          · obtain rfl := Option.some.inj h
            split
            · exact ⟨.long, rfl, nofun⟩
            · exact nofun
          · cases h
        · split at h
          · next hint =>
            obtain rfl := Option.some.inj h
            exact fun _ => hint
          · cases h
        · cases h

section Values

variable {v l r : Value} {ty : Ty} {op : Operand} {line : Nat}

theorem properly_toRvalue (hv : v.IsProper) : Properly Value.IsProper (toRvalue v line) := by
  obtain ⟨op, ty, form, effects⟩ := v
  unfold toRvalue
  cases form with
  | function => exact .pure ⟨hv.op, hv.ty.pointerTo, hv.effects⟩
  | value => exact .pure hv
  | storage =>
    cases ty with
    | struct | union => exact .pure hv
    | array element length =>
      have helement : element.IsProper := by
        cases hv.ty
        assumption
      exact .bind (.emit (Build.properly_cast hv.op helement.pointerTo nofun)) fun _ hop =>
        .pure ⟨hop, helement.pointerTo, hv.effects⟩
    | void => exact .pure ⟨Operand.isProper_const trivial, .void, hv.effects⟩
    | _ => exact .bind (.emit (Build.properly_load hv.op _)) fun _ hop => .pure ⟨hop, hv.ty, hv.effects⟩

theorem properly_loadAggregate (hv : v.IsProper) : Properly Operand.IsProper (loadAggregate v line) := by
  unfold loadAggregate
  split
  · exact .emit (Build.properly_load hv.op _)
  · exact .pure hv.op

theorem isProper_of_zeroOf? {c : Constant} (hty : ty.IsProper) (h : zeroOf? ty = some c) : c.IsProper := by
  unfold zeroOf? at h
  split at h
  · exact Option.some.inj h ▸ trivial
  · exact Option.some.inj h ▸ trivial
  · exact Option.some.inj h ▸ trivial
  · split at h
    · next hint => exact Option.some.inj h ▸ Constant.isProper_integral hty hint (by decide)
    · cases h

theorem properly_toBool (hv : v.IsProper) : Properly Operand.IsProper (toBool v line) := by
  unfold toBool
  split
  · exact .pure hv.op
  · split
    · exact .failWith _ _
    · next zero hzero =>
      exact .emit (Build.properly_cmp _ hv.op (Operand.isProper_const (isProper_of_zeroOf? hv.ty hzero)))

theorem properly_applyConversion {c : Conversion} (hop : op.IsProper) (hty : ty.IsProper) (hc : c.Suits ty) :
    Properly Operand.IsProper (applyConversion c op ty line) := by
  cases c with
  | keep => exact .pure hop
  | cast cast => exact .emit (Build.properly_cast hop hty hc)
  | castFrom wider cast =>
    obtain ⟨hwider, hint, hcast⟩ := hc
    exact .bind (.emit (Build.properly_cast hop hwider fun _ => hint)) fun _ hwide =>
      .emit (Build.properly_cast hwide hty hcast)

theorem properly_convert (hv : v.IsProper) (hty : ty.IsProper) :
    Properly Operand.IsProper (convert v ty line) := by
  unfold convert
  split
  · exact .pure hv.op
  · split
    · exact .fail
    · split
      · exact properly_toBool hv
      · split
        · next c hc => exact properly_applyConversion hv.op hty (Conversion.suits_of_conversion? hc)
        · exact .fail

theorem properly_convertOrReport (hv : v.IsProper) (hty : ty.IsProper) :
    Properly Operand.IsProper (convertOrReport v ty line) := by
  refine .bind (properly_convert hv hty).attempt fun o ho => ?_
  split
  · exact .pure (ho _ rfl)
  · exact .failWith _ _

/-- Two operands are brought to the type of one of them. -/
theorem properly_promote (hl : l.IsProper) (hr : r.IsProper) : Properly
    (fun p => p.1.IsProper ∧ p.2.1.IsProper ∧ p.2.2.IsProper ∧ (p.2.2 = l.ty ∨ p.2.2 = r.ty))
    (promote l r line) := by
  unfold promote
  split
  · exact .fail
  · next ty hty =>
    have hcommon := Ty.common?_eq_some hty
    have hproper : ty.IsProper := by
      rcases hcommon with rfl | rfl
      · exact hl.ty
      · exact hr.ty
    exact .bind (properly_convert hl hproper) fun _ hlo => .bind (properly_convert hr hproper) fun _ hro =>
      .pure ⟨hlo, hro, hproper, hcommon⟩

theorem isProper_long (n : Int) : (Operand.const (.ofInt n 64)).IsProper :=
  Operand.isProper_const (Constant.isProper_ofInt (by decide) (by decide) n)

theorem properly_pointerOffset (hl : l.IsProper) (hr : r.IsProper) (back : Bool) :
    Properly Value.IsProper (pointerOffset l r back line) := by
  refine .bind (properly_convert hr .long) fun forward hforward => ?_
  have hoffset : ∀ index : Operand, index.IsProper → Properly Value.IsProper (do
      return .ofOperand (← emit line (Build.offset l.op index l.ty)) l.ty) := fun index hindex =>
    .bind (.emit (Build.properly_offset hl.op hindex _)) fun _ hop => .pure (.of_op hop hl.ty)
  dsimp only
  split
  · exact .bind (.emit (Build.properly_binary (isProper_long 0) hforward .long (.inr rfl))) hoffset
  · exact .bind (.pure hforward) hoffset

theorem properly_elementSize (ty : Ty) : StaysProper (elementSize ty line) := by
  refine .bind .env fun _ _ => .bind .types fun _ _ => ?_
  split
  · exact .pure trivial
  · exact .halt _
  · exact .bind (.describe _) fun _ _ => .failWith _ _

theorem properly_pointerDifference (hl : l.IsProper) (hr : r.IsProper) :
    Properly Value.IsProper (pointerDifference l r line) := by
  refine .bind (properly_elementSize _) fun size _ => ?_
  refine .bind (.emit (Build.properly_cast hl.op .long fun _ => rfl)) fun lo hlo => ?_
  refine .bind (.emit (Build.properly_cast hr.op .long fun _ => rfl)) fun ro hro => ?_
  refine .bind (.emit (Build.properly_binary hlo hro .long (.inr rfl))) fun count hcount => ?_
  split
  · exact .pure (.of_op hcount .long)
  · exact .bind (.emit (Build.properly_binary hcount (isProper_long _) .long (.inr rfl))) fun _ hop =>
      .pure (.of_op hop .long)

theorem properly_pointerCompare (hl : l.IsProper) (hr : r.IsProper) (op : BinaryOp) :
    Properly Value.IsProper (pointerCompare op l r line) := by
  have hty : (if l.ty.isPointer then l.ty else r.ty).IsProper := by
    split
    · exact hl.ty
    · exact hr.ty
  refine .bind (properly_convert hl hty).attempt fun lo hlo => ?_
  refine .bind (properly_convert hr hty).attempt fun ro hro => ?_
  split
  · exact .bind (.emit (Build.properly_cmp _ (hlo _ rfl) (hro _ rfl))) fun _ hop => .pure (.of_op hop .bool)
  · exact .fail
  · exact .failWith _ _

theorem properly_addressAsInteger (hv : v.IsProper) : Properly Value.IsProper (addressAsInteger v line) := by
  unfold addressAsInteger
  split
  · exact .bind (.emit (Build.properly_cast hv.op .long fun _ => rfl)) fun _ hop => .pure (.of_op hop .long)
  · exact .pure hv

theorem isFloat_of_bin? {op : BinaryOp} {float : Bool} {bin : BinOp} (h : op.bin? float = .ok bin) :
    bin.isFloat = float := by
  cases op <;> cases float <;> first | (cases h; rfl) | cases h

/-- Arithmetic on integers has a type of integers for its result. -/
theorem properly_arithmetic (hl : l.IsProper) (hr : r.IsProper) (op : BinaryOp) :
    Properly Value.IsProper (arithmetic op l r line) := by
  refine .bind (properly_addressAsInteger hl) fun l hl => .bind (properly_addressAsInteger hr) fun r hr => ?_
  split
  · exact .failWith _ _
  · next harithmetic =>
    have hboth : l.ty.isArithmetic = true ∧ r.ty.isArithmetic = true := by simpa using harithmetic
    refine .bind (properly_promote hl hr).attempt fun o ho => ?_
    split
    · exact .failWith _ _
    · next lo ro ty =>
      obtain ⟨hlo, hro, hty, hcommon⟩ := ho _ rfl
      have hint : ty.isFloat = true ∨ ty.isInteger = true := by
        have hnumber : ty.isArithmetic = true := by
          rcases hcommon with rfl | rfl
          · exact hboth.1
          · exact hboth.2
        exact (Bool.or_eq_true_iff.1 hnumber).symm
      split
      · split
        · exact .bind (.emit (Build.properly_cmp _ hlo hro)) fun _ hop => .pure (.of_op hop .bool)
        · exact .fail
      · split
        · next bin hbin =>
          have hop : bin.isFloat = true ∨ ty.isInteger = true := by rwa [isFloat_of_bin? hbin]
          exact .bind (.emit (Build.properly_binary hlo hro hty hop)) fun _ hop => .pure (.of_op hop hty)
        · exact .failWith _ _

theorem properly_combine (hl : l.IsProper) (hr : r.IsProper) (op : BinaryOp) :
    Properly Value.IsProper (combine op l r line) := by
  unfold combine
  split
  · exact properly_pointerOffset hl hr _
  · split
    · exact properly_pointerOffset hr hl _
    · split
      · exact properly_pointerDifference hl hr
      · split
        · exact properly_pointerCompare hl hr op
        · exact properly_arithmetic hl hr op

end Values

end Lower

end TreeFlow
