import TreeFlow.Proofs.Lowering.TypedDeclarator

/-!
# Typed expressions

Every kind of expression is lowered to what its tag says, if its children are. By induction on the depth that is so
of whole expressions (`typed_descentTo`): in every state that is in order, **storage and functions come as addresses
of their type, and other values as themselves**. The one exception is the cast of an aggregate to its own type, which
passes the address on as the value.
-/

namespace TreeFlow.Lower

variable {α β : Type} {s : State} {env : Env} {line : Nat} {sub : Descent} (hsub : TypedDescent env sub)
include hsub

/-! ### Operators -/

theorem yields_truth (e : ExprId) : s.Yields env (truth sub e line) fun b op => b.Holds op .bool :=
  .bind (yields_subRvalue hsub e) fun _ _ _ hv => yields_toBool hv

theorem yields_truthValue (e : ExprId) :
    s.Yields env (do return Value.ofOperand (← truth sub e line) .bool) (Value.IsTyped env.tree) :=
  .bind (yields_truth hsub e) fun _ _ _ hop => .pure (.ofOperand .bool hop)

omit hsub in
/-- What joins values of a type is one of them, or it has the type itself. -/
theorem yields_phi {sources : List (Operand × BlockId)} {ty : Ty}
    (h : ∀ source ∈ sources, s.builder.Holds source.1 ty) :
    s.Yields env (emit line (Build.phi sources ty)) fun b op => b.Holds op ty := by
  refine .emit (Build.steady_phi sources ty) fun op b hphi => ?_
  rcases Build.phi_ok hphi with ⟨rfl, source, hsource, rfl⟩ | hop
  · exact h source hsource
  · exact .of_hasTy hop

theorem yields_logical (and : Bool) (left right : ExprId) :
    s.Yields env (logical sub and left right line) (Value.IsTyped env.tree) := by
  refine .bind (yields_truth hsub left) fun lb _ _ _ => ?_
  split
  · split
    · exact yields_truthValue hsub right
    · exact .pure (.ofConstant .bool)
  · refine .bind_currentBlock fun o => ?_
    split
    · exact .failWith _ _
    · next source =>
      refine .bind (.emit_steady Build.steady_newBlock) fun rightBlock _ _ _ => ?_
      refine .bind (.emit_steady Build.steady_newBlock) fun endBlock _ _ _ => ?_
      have hrest : ∀ t : State, t.Yields env (do
          setBlock rightBlock
          let rb ← truth sub right line
          let rightEnd := (← currentBlock).getD rightBlock
          emit line (Build.goto endBlock)
          setBlock endBlock
          let joined ← emit line
            (Build.phi [(.const (.ofBool !and), source), (rb, rightEnd)] .bool)
          return Value.ofOperand joined .bool) (Value.IsTyped env.tree) := by
        refine fun t => .bind (.setBlock _) fun _ _ _ _ => .bind (yields_truth hsub right) fun rb _ _ hrb => ?_
        refine .bind_currentBlock fun last => .bind (.emit_steady (Build.steady_goto _)) fun _ _ hgoto _ => ?_
        refine .bind (.setBlock _) fun _ _ hset _ => .bind (yields_phi fun source hsource => ?_) fun _ _ _ hop =>
          .pure (.ofOperand .bool hop)
        rcases List.mem_pair.1 hsource with rfl | rfl
        · exact .of_hasTy (.const rfl)
        · exact (hgoto.trans hset).holds hrb
      split
      · exact .bind (.emit_steady (Build.steady_branch _ _ _)) fun _ t _ _ => hrest t
      · exact .bind (.emit_steady (Build.steady_branch _ _ _)) fun _ t _ _ => hrest t

theorem yields_binary (op : BinaryOp) (left right : ExprId) :
    s.Yields env (Lower.binary sub op left right line) (Value.IsTyped env.tree) := by
  unfold Lower.binary
  split
  · exact yields_logical hsub true left right
  · exact yields_logical hsub false left right
  · refine .bind (yields_subRvalue hsub left).attempt fun l _ _ hl => ?_
    refine .bind (yields_subRvalue hsub right).attempt fun r _ hst hr => ?_
    split
    · exact yields_combine (hst.isLoaded (hl _ rfl)) (hr _ rfl) op
    · exact .fail

/-- What a scalar is stepped to has its type. -/
theorem yields_step (operand : ExprId) (up before : Bool) :
    s.Yields env (step sub operand up before line) (Value.IsTyped env.tree) := by
  refine .bind_expr fun node _ => .bind (yields_subStorage hsub operand) fun target _ _ htarget => ?_
  dsimp only
  split
  · exact .failWith _ _
  · refine .bind (.emit_gives (Build.gives_load _ _ _)) fun old t _ hold => ?_
    have hrest : ∀ (new : Operand) (u : State), t.GoesTo u → u.builder.HasTy new target.ty → u.Yields env (do
        emit line (Build.store target.op new)
        return Value.ofOperand (if before then new else old) target.ty) (Value.IsTyped env.tree) := fun new u htu hnew => by
      refine .bind (.emit_steady (Build.steady_store _ _)) fun _ v huv _ => .pure (.ofOperand htarget.ty (.of_hasTy ?_))
      split
      · exact huv.hasTy hnew
      · exact (htu.trans huv).hasTy hold
    split
    · exact .bind (.emit_gives (Build.gives_offset hold _)) hrest
    · split
      · next hfloat => exact .bind (.emit_gives (Build.gives_binary (fun _ => hfloat) _ _ _)) hrest
      · split
        · exact .bind (P := fun b new => b.HasTy new target.ty) (.failWith _ _) hrest
        · refine .bind (.emit_gives (Build.gives_binary (fun h => ?_) _ _ _)) hrest
          split at h <;> cases h

theorem yields_addressOf (operand : ExprId) : s.Yields env (addressOf sub operand line) (Value.IsTyped env.tree) := by
  refine .bind (yields_subStorage hsub operand) fun v _ _ hv => ?_
  split
  · next haddress =>
    have hform : v.form ≠ .value := fun hvalue => by
      simp [Value.isFunction, Value.isStorage, hvalue] at haddress
    exact .pure (.ofOperand hv.ty.pointerTo (.of_hasTy (hv.address hform)))
  · exact .failWith _ _

theorem yields_deref (operand : ExprId) : s.Yields env (deref sub operand line) (Value.IsTyped env.tree) := by
  refine .bind (yields_subRvalue hsub operand) fun v _ _ hv => ?_
  split
  · exact .failWith _ _
  · next target htarget =>
    obtain ⟨hformed, heq⟩ := hv.ty.pointee htarget
    have hop := hv.hasTy_of_isPointer (heq ▸ target.isPointer_pointerTo)
    split
    · exact .pure (.ofFunction hformed (heq ▸ hop))
    · exact .pure (.inStorage hformed (heq ▸ hop))

theorem yields_negate (operand : ExprId) : s.Yields env (negate sub operand line) (Value.IsTyped env.tree) := by
  refine .bind (yields_subRvalue hsub operand) fun v _ _ hv => ?_
  split
  · next hfloat => exact yields_emitted hv.ty (Build.gives_binary (fun _ => hfloat) _ _ _)
  · split
    · have hty : (if v.ty.isBool then Ty.word else v.ty).WellFormed := by
        split
        · exact .int 32
        · exact hv.ty
      exact .bind (yields_convert hv) fun _ _ _ _ =>
        yields_emitted hty (Build.gives_binary (fun h => by cases h) _ _ _)
    · exact .failWith _ _

theorem yields_unary (op : UnaryOp) (operand : ExprId) :
    s.Yields env (unary sub op operand line) (Value.IsTyped env.tree) := by
  cases op with
  | addressOf => exact yields_addressOf hsub operand
  | deref => exact yields_deref hsub operand
  | negate => exact yields_negate hsub operand
  | plus =>
    refine .bind (yields_subRvalue hsub operand) fun v _ _ hv => ?_
    split
    · exact .pure hv.toIsTyped
    · exact .failWith _ _
  | not => exact .bind (yields_truth hsub operand) fun _ _ _ _ => yields_emitted .bool (Build.gives_cmp _ _ _ _)
  | bitNot =>
    refine .bind (yields_subRvalue hsub operand) fun v _ _ hv => ?_
    split
    · exact yields_emitted hv.ty (Build.gives_binary (fun h => by cases h) _ _ _)
    · exact .failWith _ _
  | preIncrement => exact yields_step hsub operand true true
  | preDecrement => exact yields_step hsub operand false true

/-! ### Names and calls -/

omit hsub in
theorem isTyped_integerLiteral (n : UInt64) (b : Builder) : (integerLiteral n).IsTyped env.tree b := .ofConstant (.int _)

omit hsub in
theorem yields_stringLiteral (text : String) : s.Yields env (stringLiteral text) (Value.IsTyped env.tree) := by
  refine .bind (P := fun b p => p.2.WellFormed ∧ b.HasTy (.const p.1) p.2.pointerTo) ?_ fun _ _ _ hp =>
    .pure (.inStorage hp.1 hp.2)
  exact .of_done rfl (fun hs => hs.goesTo_of_writes (.addGlobal s.builder rfl)) fun _ => ⟨.array (.int 8) _, .const rfl⟩

omit hsub in
theorem yields_identifier (name : String) (globally : Bool) :
    s.Yields env (identifier name globally line) (Value.IsTyped env.tree) := by
  refine .of_known fun hs => .bind_read ?_
  split
  · next b hb =>
    have hbinding : b.IsTyped ∧ b.Anchored s.builder.mod (s.func.map OpenFunction.id) none := by
      split at hb
      · exact ⟨hs.names.of_globalVar? hb, hs.toNamesResolve.of_globalVar? hb⟩
      · exact ⟨hs.names.of_var? hb, hs.toNamesResolve.of_var? hb⟩
    have hop := hs.hasTy_of_binding hbinding.1 hbinding.2
    split
    · exact .pure (.ofFunction hbinding.1.ty hop)
    · exact .pure (.inStorage hbinding.1.ty hop)
  · exact .failWith _ _

theorem yields_globalScope (operand : ExprId) : s.Yields env (globalScope sub operand line) (Value.IsTyped env.tree) := by
  refine .bind_expr fun e _ => ?_
  split
  · exact yields_identifier _ true
  · exact hsub.raw _ operand

omit hsub in
theorem yields_argument {v : Value} (hv : v.IsLoaded env.tree s.builder) (param : Option Ty) :
    s.Yields env (argument v param line) fun _ _ => True := by
  unfold argument
  split
  · next ty =>
    split
    · exact yields_loadAggregate
    · refine .bind (yields_convert hv).attempt fun o _ _ _ => ?_
      split
      · exact .pure trivial
      · exact .failWith _ _
  · split
    · exact .emit_steady (Build.steady_cast _ _ _)
    · exact yields_loadAggregate

theorem yields_arguments (es : List ExprId) (ps : List Ty) :
    s.Yields env (arguments sub line ps es) fun _ _ => True := by
  induction es generalizing s ps with
  | nil => exact .pure trivial
  | cons e es ih =>
    refine .bind (yields_subRvalue hsub e) fun v _ _ hv => ?_
    exact .bind (yields_argument hv _) fun op _ _ _ => .bind (ih _) fun _ _ _ _ => .pure trivial

theorem yields_call (callee : ExprId) (args : List ExprId) :
    s.Yields env (call sub callee args line) (Value.IsTyped env.tree) := by
  refine .bind_read ?_
  split
  · exact .failWith _ _
  · refine .bind (yields_subRvalue hsub callee) fun f _ _ hf => ?_
    split
    · exact .failWith _ _
    · next sig hsig =>
      obtain ⟨target, htarget, hsig⟩ := Option.bind_eq_some_iff.1 hsig
      obtain ⟨hresult, -⟩ := (hf.ty.pointee htarget).1.signature hsig
      split
      · exact .failWith _ _
      · exact .bind (yields_arguments hsub args _) fun _ _ _ _ =>
          yields_emitted hresult (Build.gives_call _ _ _ _)

/-! ### Parts of values -/

omit hsub in
theorem yields_fieldBase {v : Value} (hv : v.IsTyped env.tree s.builder) :
    s.Yields env (fieldBase v line) fun _ _ => True := by
  unfold fieldBase
  split
  · split
    · exact .pure trivial
    · exact .bind (.emit_steady (Build.steady_alloca _)) fun _ _ _ _ =>
        .bind (.emit_steady (Build.steady_store _ _)) fun _ _ _ _ => .pure trivial
  · refine .bind (yields_toRvalue hv) fun v _ _ _ => ?_
    split
    · split
      · exact .pure trivial
      · exact .failWith _ _
    · exact .failWith _ _

/-- The place of a field has the type of a pointer to the field. -/
theorem yields_fieldAccess (base : ExprId) (name : String) :
    s.Yields env (fieldAccess sub base name line) (Value.IsTyped env.tree) := by
  refine .bind (yields_subStorage hsub base) fun v _ _ hv => .bind (yields_fieldBase hv) fun ⟨ptr, ty⟩ t _ _ => ?_
  refine .of_known fun ht => .bind_types ?_
  dsimp only
  split
  · exact .bind_describe fun _ => .failWith _ _
  · next d hd =>
    obtain ⟨key, -, hd⟩ := Option.bind_eq_some_iff.1 hd
    split
    · exact .bind_describe fun _ => .failWith _ _
    · split
      · exact .failWith _ _
      · next i f hf =>
        have hfield := ht.types.fields.find? hd hf
        refine .bind (.emit_gives ?_) fun _ _ _ hop => .pure (.inStorage hfield hop)
        split
        · exact Build.gives_cast _ _ _ _
        · exact Build.gives_field _ _ _ _

omit hsub in
/-- An array in storage and a pointer are loaded as pointers. -/
theorem isPointer_loadedTy {v : Value} (h : v.isStorage = true ∧ v.ty.isArray = true ∨ v.ty.isPointer = true) :
    v.loadedTy.isPointer = true := by
  obtain ⟨op, ty, form, effects⟩ := v
  rcases h with ⟨hstorage, harray⟩ | hpointer
  · obtain rfl : form = .storage := eq_of_beq hstorage
    cases ty with
    | array element length => exact element.isPointer_pointerTo
    | _ => cases harray
  · cases ty with
    | pointer target =>
      cases form with
      | function => exact Ty.isPointer_pointerTo (.pointer target)
      | _ => rfl
    | _ => cases hpointer

theorem yields_element (base position : ExprId) : s.Yields env (element sub base position line) (Value.IsTyped env.tree) := by
  refine .bind (yields_subStorage hsub base) fun b _ _ hb => ?_
  split
  · exact .failWith _ _
  · next hbase =>
    refine .bind (yields_toRvalue hb) fun ptr _ _ hptr => .bind (yields_subRvalue hsub position) fun index _ h₁ hindex => ?_
    split
    · exact .failWith _ _
    · refine .bind (yields_convert hindex) fun _ _ h₂ _ => ?_
      have hpointer : ptr.ty.isPointer = true := by
        rw [hptr.2]
        exact isPointer_loadedTy (by grind)
      obtain ⟨target, htarget⟩ := Ty.exists_pointee hpointer
      obtain ⟨hformed, heq⟩ := hptr.1.ty.pointee htarget
      have hop := (h₁.trans h₂).hasTy (hptr.1.hasTy_of_isPointer hpointer)
      refine .bind (.emit_gives (Build.gives_offset hop _)) fun _ _ _ hop => .pure ?_
      rw [htarget]
      exact .inStorage hformed (heq ▸ hop)

/-! ### Types of expressions -/

theorem yields_layoutQuery (id : SpecId) (size : Bool) :
    s.Yields env (layoutQuery sub id size line) (Value.IsTyped env.tree) := by
  refine .bind (hsub.spec _ id) fun ty _ _ _ => .bind_env (.bind_types ?_)
  split
  · split
    · exact .pure (.ofConstant (.int 64))
    · exact .failWith _ _
  · exact .halt _
  · exact .failWith _ _
  · exact .failWith _ _

/-- A cast to `void` yields nothing, and any other one a value of the type that is written. -/
theorem yields_cast (htree : env.tree.HasCast) (id : SpecId) (operand : ExprId) :
    s.Yields env (Lower.cast sub id operand line) (Value.IsTyped env.tree) := by
  refine .bind (hsub.spec _ id) fun ty _ _ hty => .bind (yields_subRvalue hsub operand) fun v _ _ hv => ?_
  split
  · exact .pure .nothing
  · exact .bind (yields_convertOrReport hv) fun _ _ _ hop => .pure (.ofPasses htree hty hop)

/-! ### Assignment -/

omit hsub in
theorem yields_putAggregate (addr : Operand) (v : Value) (ty : Ty) :
    s.Yields env (putAggregate addr v ty line) fun _ _ => True := by
  unfold putAggregate
  split
  · exact .emit_steady (Build.steady_copy _ _ _)
  · exact .emit_steady (Build.steady_store _ _)

theorem yields_assignTo {target : Value} (htarget : target.IsTyped env.tree s.builder) (value : ExprId) :
    s.Yields env (assignTo sub target value line) (Value.IsTyped env.tree) := by
  unfold assignTo
  split
  · refine .bind (yields_subStorage hsub value) fun v _ hst _ => ?_
    split
    · exact .failWith _ _
    · exact .bind (.emit_steady (Build.steady_copy _ _ _)) fun _ _ htu _ => .pure ((hst.trans htu).isTyped htarget)
  · refine .bind (yields_subRvalue hsub value) fun v _ hst hv => ?_
    split
    · split
      · exact .failWith _ _
      · exact .bind (yields_putAggregate _ _ _) fun _ _ htu _ => .pure ((hst.trans htu).isTyped htarget)
    · next hscalar =>
      exact .bind (yields_convertOrReport hv) fun _ _ _ hop => .bind (.emit_steady (Build.steady_store _ _))
        fun _ _ htu _ => .pure (.ofOperand htarget.ty (htu.holds (hop.holds (by simpa using hscalar))))

theorem yields_assign (target value : ExprId) : s.Yields env (assign sub target value line) (Value.IsTyped env.tree) := by
  refine .bind_expr fun e _ => .bind (yields_subLvalue hsub target).attempt fun o _ _ ho => ?_
  split
  · exact .bind (.ignoring (yields_subRvalue hsub value)) fun _ _ _ _ => .fail
  · split
    · exact .failWith _ _
    · exact yields_assignTo hsub (ho _ rfl) value

/-! ### Choice -/

omit hsub in
/-- Of two values one is chosen where they have one type, and else only where neither is an aggregate. -/
theorem choiceTy?_eq_some {yes no ty : Ty} (h : choiceTy? yes no = some ty) :
    (ty = yes ∨ ty = no) ∧ (ty.isAggregate = true → ty = yes ∧ ty = no) := by
  have hscalar : ∀ {t : Ty}, t.isArithmetic = true ∨ t.isPointer = true → ¬ t.isAggregate = true := by
    intro t h haggregate
    cases t <;> simp_all [Ty.isArithmetic, Ty.isInteger, Ty.isFloat, Ty.isPointer, Ty.isAggregate]
  unfold choiceTy? at h
  split at h
  · next heq =>
    obtain rfl := Option.some.inj h
    exact ⟨.inl rfl, fun _ => ⟨rfl, heq⟩⟩
  · split at h
    · next hnumbers =>
      obtain ⟨hyes, hno⟩ := Bool.and_eq_true_iff.1 hnumbers
      rcases Ty.common?_eq_some h with rfl | rfl
      · exact ⟨.inl rfl, fun h => absurd h (hscalar (.inl hyes))⟩
      · exact ⟨.inr rfl, fun h => absurd h (hscalar (.inl hno))⟩
    · split at h
      · next hpointer =>
        obtain rfl := Option.some.inj h
        exact ⟨.inl rfl, fun h => absurd h (hscalar (.inr (Bool.and_eq_true_iff.1 hpointer).1))⟩
      · split at h
        · next hpointer =>
          obtain rfl := Option.some.inj h
          exact ⟨.inr rfl, fun h => absurd h (hscalar (.inr (Bool.and_eq_true_iff.1 hpointer).2))⟩
        · cases h

/-- The type of what is joined: aggregates are joined by their addresses. -/
def joinedTy (ty : Ty) : Ty := if ty.isAggregate then ty.pointerTo else ty

omit hsub in
theorem yields_alternative {v : Value} {ty : Ty} (hv : v.IsLoaded env.tree s.builder)
    (heq : ty.isAggregate = true → ty = v.ty) :
    s.Yields env (alternative v ty line) fun b op => b.Holds op (joinedTy ty) := by
  unfold alternative joinedTy
  split
  · next hvoid =>
    obtain rfl : ty = .void := by
      cases ty <;> first | rfl | cases hvoid
    exact .pure (.of_hasTy (.const rfl))
  · split
    · next haggregate =>
      split
      · next hstorage => exact .pure (heq haggregate ▸ .of_hasTy (hv.storage hstorage))
      · exact .bind (.emit_gives (Build.gives_alloca _ ty)) fun _ _ _ hslot =>
          .bind (.emit_steady (Build.steady_store _ _)) fun _ _ hst _ => .pure (.of_hasTy (hst.hasTy hslot))
    · next hscalar =>
      exact (yields_convertOrReport hv).imp fun _ _ hop => hop.holds (by simpa using hscalar)

omit hsub in
theorem yields_joinFrom {v : Value} {ty : Ty} (hv : v.IsLoaded env.tree s.builder)
    (heq : ty.isAggregate = true → ty = v.ty) (source join : BlockId) :
    s.Yields env (joinFrom source join v ty line) fun b p => b.Holds p.1 (joinedTy ty) :=
  .bind (.setBlock _) fun _ _ hset _ => .bind (yields_alternative (hset.isLoaded hv) heq) fun _ _ _ hop =>
    .bind_currentBlock fun _ => .bind (.emit_steady (Build.steady_goto _)) fun _ _ hgoto _ => .pure (hgoto.holds hop)

theorem yields_alternativeIn (block : BlockId) (e : ExprId) :
    s.Yields env (alternativeIn sub block e) fun b p => ∀ v, p.1 = some v → v.IsLoaded env.tree b :=
  .bind (.setBlock _) fun _ _ _ _ => .bind (yields_subRvalue hsub e).attempt fun _ _ _ hv =>
    .bind_currentBlock fun _ => .pure hv

theorem yields_conditional (cond yes no : ExprId) :
    s.Yields env (conditional sub cond yes no line) (Value.IsTyped env.tree) := by
  refine .bind (yields_truth hsub cond) fun c _ _ _ => ?_
  refine .bind (.emit_steady Build.steady_newBlock) fun yesBlock _ _ _ => ?_
  refine .bind (.emit_steady Build.steady_newBlock) fun noBlock _ _ _ => ?_
  refine .bind (.emit_steady Build.steady_newBlock) fun join _ _ _ => ?_
  refine .bind (.emit_steady (Build.steady_branch _ _ _)) fun _ _ _ _ => ?_
  refine .bind (yields_alternativeIn hsub yesBlock yes) fun ⟨y, yesEnd⟩ _ _ hy => ?_
  refine .bind (yields_alternativeIn hsub noBlock no) fun ⟨n, noEnd⟩ _ hst hn => ?_
  dsimp only at hy hn ⊢
  split
  · next y n =>
    have hyes := hst.isLoaded (hy y rfl)
    have hno := hn n rfl
    split
    · exact .failWith _ _
    · next ty hchoice =>
      obtain ⟨hone, hboth⟩ := choiceTy?_eq_some hchoice
      have hty : ty.WellFormed := by
        rcases hone with rfl | rfl
        · exact hyes.ty
        · exact hno.ty
      refine .bind (yields_joinFrom hyes (fun h => (hboth h).1) _ _) fun fromYes _ h₁ hfromYes => ?_
      refine .bind (yields_joinFrom (h₁.isLoaded hno) (fun h => (hboth h).2) _ _) fun fromNo _ h₂ hfromNo => ?_
      refine .bind (.setBlock _) fun _ t h₃ _ => ?_
      have hsources : ∀ source ∈ [fromYes, fromNo], t.builder.Holds source.1 (joinedTy ty) :=
        List.forall_mem_cons.2 ⟨(h₂.trans h₃).holds hfromYes, List.forall_mem_singleton.2 (h₃.holds hfromNo)⟩
      split
      · exact .pure .nothing
      · split
        · next haggregate =>
          rw [joinedTy, if_pos haggregate] at hsources
          have hpointer : ty.pointerTo.isInteger = false := by cases ty <;> rfl
          exact .bind (yields_phi hsources) fun _ _ _ hop => .pure (.inStorage hty (hop.hasTy hpointer))
        · next hscalar =>
          rw [joinedTy, if_neg hscalar] at hsources
          exact .bind (yields_phi hsources) fun _ _ _ hop => .pure (.ofOperand hty hop)
  · exact .fail

theorem yields_comma (first second : ExprId) : s.Yields env (comma sub first second) (Value.IsTyped env.tree) :=
  .bind (yields_subRvalue hsub first) fun _ _ _ _ => .bind (hsub.raw _ second) fun _ _ _ hb =>
    .pure (hb.behind _)

/-! ### All kinds -/

theorem yields_rawWith (e : ExprId) : s.Yields env (rawWith sub e) (Value.IsTyped env.tree) := by
  refine .bind_expr fun node hnode => ?_
  cases hkind : node.kind with
  | integer n => exact .pure (isTyped_integerLiteral n _)
  | char c => exact .pure (.ofConstant (.int 8))
  | bool b => exact .pure (.ofConstant .bool)
  | double x => exact .pure (.ofConstant .double)
  | str text => exact yields_stringLiteral text
  | identifier name => exact yields_identifier name false
  | globalScope operand => exact yields_globalScope hsub operand
  | call callee args => exact yields_call hsub callee args
  | field base name => exact yields_fieldAccess hsub base name
  | index base position => exact yields_element hsub base position
  | binary op left right => exact yields_binary hsub op left right
  | unary op operand => exact yields_unary hsub op operand
  | step op operand => exact yields_step hsub operand _ false
  | sizeOf id => exact yields_layoutQuery hsub id true
  | alignOf id => exact yields_layoutQuery hsub id false
  | cast id operand => exact yields_cast hsub ⟨e, node, id, operand, hnode, hkind⟩ id operand
  | assign target value => exact yields_assign hsub target value
  | conditional cond yes no => exact yields_conditional hsub cond yes no
  | comma first second => exact yields_comma hsub first second

omit hsub

/-! ### At every depth -/

/-- **At every depth, an expression is lowered to what its tag says.** -/
theorem typed_descentTo (depth : Nat) : TypedDescent env (descentTo depth) := by
  induction depth with
  | zero => exact ⟨fun _ _ => .halt _, fun _ _ => .halt _, fun _ _ _ _ _ => .halt _⟩
  | succ depth ih =>
    exact ⟨fun _ => yields_rawWith ih, fun _ => yields_specWith ih, fun _ mode id _ => yields_linkWith ih mode id⟩

theorem yields_descend {P : Builder → α → Prop} {step : Descent → Lower α}
    (h : ∀ sub, TypedDescent env sub → s.Yields env (step sub) P) : s.Yields env (descend step) P :=
  .of_eq (n := step (descentTo env.tree.exprDepth)) rfl (h _ (typed_descentTo _))

theorem yields_rvalue (e : ExprId) : s.Yields env (rvalue e) (Value.IsLoaded env.tree) :=
  yields_descend fun _ hsub => yields_subRvalue hsub e

theorem yields_resolve (id : SpecId) : s.Yields env (resolve id) fun _ ty => ty.WellFormed :=
  yields_descend fun _ hsub => hsub.spec s id

theorem yields_resolveDeclarator (mode : DeclaratorMode) (id : DeclaratorId) {base : Ty} (hbase : base.WellFormed) :
    s.Yields env (resolveDeclarator mode id base) fun _ info => info.WellFormed :=
  yields_descend fun _ hsub => yields_declare hsub mode id hbase

theorem yields_resolveParams (ps : List ParamDecl) :
    s.Yields env (resolveParams ps line) fun _ infos => ∀ p ∈ infos, p.ty.WellFormed :=
  yields_descend fun _ hsub => yields_params hsub ps

end TreeFlow.Lower
