import TreeFlow.Lower.Arithmetic
import TreeFlow.Proofs.Lowering.Fork

/-!
# Conversions and operators

What is known of the operands that conversions and operators yield, given that the same is known of
what their own operands are lowered to. The short-circuit operators are the one place here where the
cursor leaves its block: the constant that they yield when the left operand decides comes from the block
in which that operand was tested, which is the block at the cursor, since the test is settled.
-/

namespace TreeFlow

theorem Ty.pointerTo_ne_bool (ty : Ty) : ty.pointerTo ≠ .bool := by
  cases ty <;> simp [Ty.pointerTo]

open Lower in
/-- What is known of the children of every node. -/
structure Descent.Sound (sub : Descent) : Prop where
  raw : ∀ env (x : Site) e, x.Writes env (sub.raw e) fun v y => y.Denotes v
  spec : ∀ env (x : Site) id, x.Reads env (sub.spec id) fun _ _ => True
  link : ∀ env (x : Site) mode id info, x.Reads env (sub.link mode id info) fun _ _ => True

namespace Lower

variable {env : Env} {line : Nat} {x : Site} {v : Value} {ty target : Ty}

namespace Site

/-! ### Conversions -/

theorem writes_toRvalue (hv : x.Denotes v) :
    x.Writes env (toRvalue v line) fun r y => y.Delivers r.op r.ty := by
  unfold toRvalue
  split
  · exact .pure (delivers_of_ne hv.knows v.ty.pointerTo_ne_bool)
  · next hform => exact .pure ⟨hv.knows, hv.settled hform⟩
  · split
    · next hty => exact .pure (delivers_of_ne hv.knows (by simp [hty]))
    · next hty => exact .pure (delivers_of_ne hv.knows (by simp [hty]))
    · next element _ _ =>
      exact (writes_cast .bitcast hv.knows _).bind fun op y _ hop =>
        .pure (delivers_of_ne hop element.pointerTo_ne_bool)
    · next hty => exact .pure (delivers_of_ne (x.knows_const _) (by simp [hty]))
    · exact (writes_load hv.knows _).bind fun op y _ hop => .pure hop

theorem writes_loadAggregate (hv : x.Knows v.op) :
    x.Writes env (loadAggregate v line) fun op y => y.Knows op := by
  unfold loadAggregate
  split
  · exact (writes_load hv _).imp fun _ _ _ h => h.knows
  · exact .pure hv

theorem writes_toBool (hv : x.Delivers v.op v.ty) :
    x.Writes env (toBool v line) fun op y => y.Delivers op .bool := by
  unfold toBool
  split
  · next hbool =>
    refine .pure ⟨hv.knows, fun _ => hv.settled ?_⟩
    cases hty : v.ty <;> simp_all [Ty.isBool]
  · split
    · exact writes_failWith
    · exact writes_cmp _ hv.knows (x.knows_const _)

/-- Only the test of a scalar for truth yields a truth value. -/
theorem isScalar_of_conversion? {c : Conversion} (h : conversion? ty .bool = some c) :
    ty.isScalar = true := by
  cases ty <;> simp_all [conversion?, Ty.isScalar, Ty.isArithmetic, Ty.isInteger, Ty.isFloat,
    Ty.isPointer]

theorem writes_applyConversion {c : Conversion} {op : Operand} (hop : x.Knows op) :
    x.Writes env (applyConversion c op target line) fun op y => y.Knows op := by
  unfold applyConversion
  split
  · exact .pure hop
  · exact writes_cast _ hop _
  · exact (writes_cast _ hop _).bind fun wide y _ hwide => writes_cast _ hwide _

theorem writes_convert (hv : x.Delivers v.op v.ty) (target : Ty) :
    x.Writes env (convert v target line) fun op y => y.Delivers op target := by
  unfold convert
  split
  · next hty => exact .pure (hty ▸ hv)
  · split
    · exact .fail
    · split
      · next hbool =>
        obtain rfl : target = .bool := by
          cases target <;> simp_all [Ty.isBool]
        exact writes_toBool hv
      · next hscalar =>
        split
        · next c hc =>
          refine (writes_applyConversion hv.knows).imp fun op y _ hop => delivers_of_ne hop ?_
          rintro rfl
          simp [Ty.isBool, isScalar_of_conversion? hc] at hscalar
        · exact .fail

theorem writes_convertOrReport (hv : x.Delivers v.op v.ty) (target : Ty) :
    x.Writes env (convertOrReport v target line) fun op y => y.Delivers op target := by
  refine (writes_convert hv target).attempt.bind fun o y _ ho => ?_
  split
  · exact .pure (ho _ rfl)
  · exact writes_failWith

theorem writes_promote {l r : Value} (hl : x.Delivers l.op l.ty) (hr : x.Delivers r.op r.ty) :
    x.Writes env (promote l r line) fun p y => y.Knows p.1 ∧ y.Knows p.2.1 := by
  unfold promote
  split
  · exact .fail
  · exact (writes_convert hl _).bind fun lo y hxy hlo =>
      (writes_convert (hr.mono hxy) _).bind fun ro z hyz hro =>
        .pure ⟨hlo.knows.mono hyz, hro.knows⟩

/-! ### Children of a node -/

variable {sub : Descent} (hsub : sub.Sound)
include hsub

theorem writes_rvalue (e : ExprId) :
    x.Writes env (sub.rvalue e) fun v y => y.Delivers v.op v.ty := by
  have hvalue : (x.setLvalue false).Writes env (sub.expr e) fun v y => y.Delivers v.op v.ty := by
    refine (hsub.raw env _ e).bind fun v y hxy hv => .bind_read ?_
    have hmode : y.state.lvalue = false := congrArg Context.lvalue hxy.context
    rw [hmode]
    exact .bind_expr fun _ _ => writes_toRvalue hv
  exact Writes.withLvalue hvalue fun _ _ h => h.setLvalue _

theorem writes_storage (e : ExprId) : x.Writes env (sub.storage e) fun v y => y.Denotes v :=
  Writes.withLvalue (hsub.raw env _ e) fun _ _ h => h.setLvalue _

theorem writes_lvalue (e : ExprId) : x.Writes env (sub.lvalue e) fun v y => y.Denotes v := by
  have hstorage : (x.setLvalue true).Writes env (sub.expr e) fun v y => y.Denotes v := by
    refine (hsub.raw env _ e).bind fun v y hxy hv => .bind_read ?_
    have hmode : y.state.lvalue = true := congrArg Context.lvalue hxy.context
    rw [hmode]
    exact .pure hv
  exact Writes.withLvalue hstorage fun _ _ h => h.setLvalue _

theorem reads_typeOf (e : ExprId) : x.Reads env (sub.typeOf e) fun _ _ => True := by
  have hraw : x.Writes env (withLvalue false (sub.raw e)) fun v y => y.Denotes v :=
    Writes.withLvalue (hsub.raw env _ e) fun _ _ h => h.setLvalue _
  exact Writes.probe (hraw.bind fun _ _ _ _ => .pure trivial)

theorem reads_constInt (e : ExprId) : x.Reads env (sub.constInt e) fun _ _ => True :=
  Writes.probe ((writes_rvalue hsub e).attempt.bind fun _ _ _ _ => .pure trivial)

/-! ### Two operands -/

omit hsub in
theorem writes_pointerOffset {ptr index : Value} (hptr : x.Delivers ptr.op ptr.ty)
    (hindex : x.Delivers index.op index.ty) (hty : ptr.ty.isPointer = true) (back : Bool) :
    x.Writes env (pointerOffset ptr index back line) fun v y => y.Delivers v.op v.ty := by
  have hne : ptr.ty ≠ .bool := by
    rintro heq
    simp [heq, Ty.isPointer] at hty
  refine (writes_convert hindex .long).bind fun forward y hxy hforward => ?_
  have hoffset : ∀ index z, y.Reaches z → z.Knows index → z.Writes env (do
      return Value.ofOperand (← emit line (Build.offset ptr.op index ptr.ty)) ptr.ty)
      fun v y => y.Delivers v.op v.ty := fun index z hyz hindex =>
    (writes_offset ((hptr.knows.mono hxy).mono hyz) hindex _).bind
      fun _ _ _ h => .pure (delivers_of_ne h hne)
  dsimp only
  split
  · exact (writes_binary .sub (y.knows_const _) hforward.knows _).bind
      fun index z hyz h => hoffset index z hyz h.knows
  · exact hoffset forward y (Std.Refl.refl y) hforward.knows

omit hsub in
theorem writes_elementSize (ty : Ty) : x.Writes env (elementSize ty line) fun _ _ => True := by
  refine .bind_env (.bind_read ?_)
  split
  · exact .pure trivial
  · exact .halt fun _ heq => nomatch heq
  · exact .bind_read writes_failWith

omit hsub in
theorem writes_pointerDifference {l r : Value} (hl : x.Knows l.op) (hr : x.Knows r.op) :
    x.Writes env (pointerDifference l r line) fun v y => y.Delivers v.op v.ty := by
  refine (writes_elementSize _).bind fun size y hxy _ => ?_
  refine (writes_cast .ptrtoint (hl.mono hxy) _).bind fun lo z hyz hlo => ?_
  refine (writes_cast .ptrtoint ((hr.mono hxy).mono hyz) _).bind fun ro z' hzz' hro => ?_
  refine (writes_binary .sub (hlo.mono hzz') hro _).bind fun bytes z'' _ hbytes => ?_
  split
  · exact .pure hbytes
  · exact (writes_binary .sdiv hbytes.knows (knows_const _ _) _).bind fun _ _ _ h => .pure h

omit hsub in
theorem writes_pointerCompare {l r : Value} (hl : x.Delivers l.op l.ty)
    (hr : x.Delivers r.op r.ty) (op : BinaryOp) :
    x.Writes env (pointerCompare op l r line) fun v y => y.Delivers v.op v.ty := by
  refine (writes_convert hl _).attempt.bind fun lo y hxy hlo => ?_
  refine (writes_convert (hr.mono hxy) _).attempt.bind fun ro z hyz hro => ?_
  split
  · exact (writes_cmp _ ((hlo _ rfl).knows.mono hyz) (hro _ rfl).knows).bind
      fun _ _ _ h => .pure h
  · exact .fail
  · exact writes_failWith

omit hsub in
theorem writes_addressAsInteger (hv : x.Delivers v.op v.ty) :
    x.Writes env (addressAsInteger v line) fun v y => y.Delivers v.op v.ty := by
  unfold addressAsInteger
  split
  · exact (writes_cast .ptrtoint hv.knows _).bind fun _ _ _ h =>
      .pure (delivers_of_ne h (by simp [Value.ofOperand, Ty.long]))
  · exact .pure hv

omit hsub in
theorem writes_arithmetic {l r : Value} (hl : x.Delivers l.op l.ty) (hr : x.Delivers r.op r.ty)
    (op : BinaryOp) : x.Writes env (arithmetic op l r line) fun v y => y.Delivers v.op v.ty := by
  refine (writes_addressAsInteger hl).bind fun l y hxy hl => ?_
  refine (writes_addressAsInteger (hr.mono hxy)).bind fun r z hyz hr => ?_
  split
  · exact writes_failWith
  · refine (writes_promote (hl.mono hyz) hr).attempt.bind fun o z' _ ho => ?_
    split
    · exact writes_failWith
    · next lo ro ty =>
      obtain ⟨hlo, hro⟩ := ho _ rfl
      split
      · split
        · exact (writes_cmp _ hlo hro).bind fun _ _ _ h => .pure h
        · exact .fail
      · split
        · exact (writes_binary _ hlo hro _).bind fun _ _ _ h => .pure h
        · exact writes_failWith

omit hsub in
theorem writes_combine {l r : Value} (hl : x.Delivers l.op l.ty) (hr : x.Delivers r.op r.ty)
    (op : BinaryOp) : x.Writes env (combine op l r line) fun v y => y.Delivers v.op v.ty := by
  unfold combine
  split
  · next h => exact writes_pointerOffset hl hr (by simp_all) _
  · split
    · next h => exact writes_pointerOffset hr hl (by simp_all) _
    · split
      · exact writes_pointerDifference hl.knows hr.knows
      · split
        · exact writes_pointerCompare hl hr op
        · exact writes_arithmetic hl hr op

theorem writes_truth (e : ExprId) :
    x.Writes env (truth sub e line) fun op y => y.Delivers op .bool :=
  (writes_rvalue hsub e).bind fun _ _ _ hv => writes_toBool hv

/-! ### Short circuits -/

/-- The right operand of a short-circuit operator in its arm, and the join behind it. What the
operator yields where the left operand decides comes from the block `c` of the branch. -/
theorem writes_rightArm {y : Site} {c rightBlock endBlock : BlockId} (hc : x.openBlock = some c)
    (hxy : Grown x.openBlock x y) (hright : y.Arm c rightBlock) (hend : y.Arm c endBlock)
    (hne : rightBlock ≠ endBlock) (hnew : ¬ x.function.Has rightBlock)
    (hnew' : ¬ x.function.Has endBlock) (hpreds : ∀ p, endBlock ∈ y.function.successors p ↔ p = c)
    (decided : Constant) (e : ExprId) :
    Runs (do
      setBlock rightBlock
      let rb ← truth sub e line
      let rightEnd := (← currentBlock).getD rightBlock
      emit line (Build.goto endBlock)
      setBlock endBlock
      let joined ← emit line (Build.phi [(.const decided, c), (rb, rightEnd)] .bool)
      return Value.ofOperand joined .bool) env y.state
      (fun v s => ∃ z, z.state = s ∧ x.Reaches z ∧ z.Delivers v.op v.ty)
      fun s => ∃ z, z.state = s ∧ x.Reaches z := by
  have hc' : x.function.Has c := has_openBlock hc
  -- The right operand starts in its arm.
  let y₁ := y.moveTo rightBlock hright.has
  have hopen₁ : y₁.openBlock = some rightBlock := moveTo_openBlock hright.has hright.isOpen
  have hxy₁ : x.Reaches y₁ := ⟨hxy.moveTo hright.has, moves_of_open hc hopen₁ (.inr hnew) hright.below⟩
  refine Runs.bind_of_done (t := y₁.state) rfl ?_
  refine Runs.bind (Runs.imp (writes_truth hsub e) ?_ ?_)
  swap
  · rintro _ ⟨z, rfl, hz⟩
    exact ⟨z, rfl, IsTrans.trans _ _ _ hxy₁ hz⟩
  rintro rb _ ⟨y₂, rfl, hy₁₂, hrb⟩
  -- It ends in an open block below the arm; the join is as it was.
  obtain ⟨rightEnd, hopen₂, hplace, hbelow⟩ := hy₁₂.exists_open hopen₁
  have hnew₂ : ¬ x.function.Has rightEnd := by
    rcases hplace with rfl | hplace
    · exact hnew
    · exact fun hold => hplace (hxy.grows.has _ hold)
  have hframe : some endBlock ≠ y₁.openBlock := by
    rw [hopen₁]
    exact fun heq => hne (Option.some.inj heq).symm
  have hend₂ : y₂.Arm c endBlock := (hend.moveTo hright.has).mono hy₁₂.toGrown hframe
  have hpreds₂ : ∀ p, endBlock ∈ y₂.function.successors p ↔ p = c := fun p =>
    (hy₁₂.grows.mem_successors_iff hend.has).trans (hpreds p)
  have hbelow₂ : y₂.parents.Below c rightEnd :=
    (y₁.wellFormed.below_mono hy₁₂.grows.parent hright.has hright.below).trans hbelow
  have hxy₂ : Grown x.openBlock x y₂ := hxy₁.toGrown.trans hy₁₂.toGrown fun b hb hold => by
    rw [hopen₁] at hb
    exact absurd (Option.some.inj hb ▸ hold) hnew
  refine Runs.bind_of_done (a := some rightEnd) (t := y₂.state) ?_ ?_
  · exact congrArg (fun o => (Outcome.done o, y₂.state)) (openBlock_eq_some_iff.1 hopen₂).1
  -- Control goes on at the join, which is entered from there and from the block of the branch.
  obtain ⟨y₃, hrun, hxy₃, hext, hcloses⟩ := exists_goto env line hxy₂ hopen₂
    (fun hold => absurd hold hnew₂) hend₂ hbelow₂ hnew'
  refine Runs.bind_of_done hrun ?_
  have hne₃ : rightEnd ≠ endBlock := by
    rintro rfl
    rcases hplace with heq | hplace
    · exact hne heq.symm
    · exact hplace hend.has
  have hhas₃ : y₃.function.Has endBlock := (hcloses.has _).2 (.inl hend₂.has)
  have hopen₃ : y₃.function.termAt endBlock = none := by
    rw [hcloses.term, if_neg hne₃, hend₂.isOpen]
  let y₄ := y₃.moveTo endBlock hhas₃
  have hopen₄ : y₄.openBlock = some endBlock := moveTo_openBlock hhas₃ hopen₃
  have hparent₄ : y₄.parents endBlock = some c := hcloses.parents ▸ hend₂.parent
  have hxy₄ : x.Reaches y₄ :=
    ⟨hxy₃.moveTo hhas₃, moves_of_open hc hopen₄ (.inr hnew') (.step hparent₄ .refl)⟩
  refine Runs.bind_of_done (t := y₄.state) rfl ?_
  have hpreds₄ : ∀ p, endBlock ∈ y₄.function.successors p ↔ p = c ∨ p = rightEnd := fun p => by
    show endBlock ∈ y₃.function.successors p ↔ _
    rw [hcloses.successors]
    split
    · next heq => simp [Terminator.successors, heq]
    · next hne => rw [hpreds₂, or_iff_left (Ne.symm hne)]
  refine Yields.after hxy₄ ((writes_phi hopen₄ (by rw [hparent₄]; rfl) ?_ ?_ ?_ .bool).bind
    fun _ _ _ h => .pure h)
  · have : c ≠ rightEnd := fun heq => hnew₂ (heq ▸ hc')
    simpa using this
  · simpa using fun p => (hpreds₄ p).symm
  · intro v p hvp
    simp only [List.mem_cons, Prod.mk.injEq, List.not_mem_nil, or_false] at hvp
    rcases hvp with ⟨rfl, rfl⟩ | ⟨rfl, rfl⟩
    · intro i hi
      cases hi
    · exact hext.knownOperand y₂.wellFormed (has_openBlock hopen₂)
        (hrb.knows.knownOperand hopen₂)

theorem writes_logical (and : Bool) (left right : ExprId) :
    x.Writes env (logical sub and left right line) fun v y => y.Delivers v.op v.ty := by
  refine (writes_truth hsub left).bind fun lb x _ hlb => ?_
  split
  · split
    · exact (writes_truth hsub right).bind fun _ _ _ h => .pure h
    · exact .pure ⟨x.knows_const _, fun _ => .inr ⟨_, rfl, rfl⟩⟩
  · next hunknown =>
    -- Nothing is known of the left operand, so it was tested in the block at the cursor.
    obtain ⟨c, hc⟩ : ∃ c, x.openBlock = some c := by
      rcases hlb.settled rfl with hopen | ⟨k, rfl, hk⟩
      · exact Option.isSome_iff_exists.1 hopen
      · have htruth : k.truth? = none := hunknown
        simp [htruth] at hk
    refine .bind_read ?_
    rw [(openBlock_eq_some_iff.1 hc).1]
    obtain ⟨rightBlock, x₁, hrun₁, hx₁, hnew₁, hblank₁, hopen₁⟩ :=
      exists_newBlock env line x
    obtain ⟨endBlock, x₂, hrun₂, hx₂, hnew₂, hblank₂, hopen₂⟩ :=
      exists_newBlock env line x₁
    refine Runs.bind_of_done hrun₁ (Runs.bind_of_done hrun₂ ?_)
    have hne : rightBlock ≠ endBlock := fun heq => hnew₂ (heq ▸ hblank₁.has)
    have hnew₂ : ¬ x.function.Has endBlock := fun hold => hnew₂ (hx₁.grows.has _ hold)
    have hcur : x₂.openBlock = x.openBlock := hopen₂.trans hopen₁
    have hgrown : Grown x.openBlock x x₂ :=
      hx₁.toGrown.trans hx₂.toGrown fun b hb _ => hopen₁ ▸ hb
    have hblank : ∀ b ∈ [rightBlock, endBlock], ¬ x.function.Has b ∧ x₂.Blank b := by
      have hframe : some rightBlock ≠ x₁.openBlock := fun heq =>
        hnew₁ (has_openBlock (hopen₁ ▸ heq.symm))
      simp [hnew₁, hnew₂, hblank₂, hblank₁.mono hx₂.toGrown hframe]
    have hbranch : ∀ yes no, (yes = rightBlock ∧ no = endBlock ∨ yes = endBlock ∧ no = rightBlock) →
        ∃ y, emit line (Build.branch lb yes no) env x₂.state = (.done (), y.state) ∧
          Grown x.openBlock x y ∧ y.Arm c rightBlock ∧ y.Arm c endBlock ∧
          ∀ p, endBlock ∈ y.function.successors p ↔ p = c := by
      intro yes no hpair
      obtain ⟨c', y, hrun, hy, -, hplace, harms⟩ := exists_fork env line yes no
        [rightBlock, endBlock] hgrown hcur (fun b hb => (hblank b hb).1)
        (fun b hb => (hblank b hb).2) (by rcases hpair with ⟨rfl, -⟩ | ⟨rfl, -⟩ <;> simp)
        (by rcases hpair with ⟨-, rfl⟩ | ⟨-, rfl⟩ <;> simp) ((hlb.knows.mono hx₁).mono hx₂)
      obtain rfl : c' = c := by
        rcases hplace with h | ⟨h, -⟩
        · exact Option.some.inj (h.symm.trans hc)
        · simp [hc] at h
      refine ⟨y, hrun, hy, (harms _ (by simp)).1, (harms _ (by simp)).1, fun p => ?_⟩
      rw [(harms endBlock (by simp)).2 p]
      rcases hpair with ⟨rfl, rfl⟩ | ⟨rfl, rfl⟩ <;> simp
    dsimp only
    split
    · obtain ⟨y, hrun, hy, hright, hend, hpreds⟩ := hbranch _ _ (.inl ⟨rfl, rfl⟩)
      exact Runs.bind_of_done hrun
        (writes_rightArm hsub hc hy hright hend hne hnew₁ hnew₂ hpreds _ right)
    · obtain ⟨y, hrun, hy, hright, hend, hpreds⟩ := hbranch _ _ (.inr ⟨rfl, rfl⟩)
      exact Runs.bind_of_done hrun
        (writes_rightArm hsub hc hy hright hend hne hnew₁ hnew₂ hpreds _ right)

theorem writes_binaryOperator (op : BinaryOp) (left right : ExprId) :
    x.Writes env (binary sub op left right line) fun v y => y.Delivers v.op v.ty := by
  unfold binary
  split
  · exact writes_logical hsub true left right
  · exact writes_logical hsub false left right
  · refine (writes_rvalue hsub left).attempt.bind fun l y _ hl => ?_
    refine (writes_rvalue hsub right).attempt.bind fun r z hyz hr => ?_
    split
    · exact writes_combine ((hl _ rfl).mono hyz) (hr _ rfl) op
    · exact .fail

/-! ### One operand -/

theorem writes_step (operand : ExprId) (up before : Bool) :
    x.Writes env (step sub operand up before line) fun v y => y.Delivers v.op v.ty := by
  refine .bind_expr fun _ _ => (writes_storage hsub operand).bind fun t y _ ht => ?_
  dsimp only
  split
  · exact writes_failWith
  · refine (writes_load ht.knows t.ty).bind fun old z hyz hold => ?_
    have hstore : ∀ new z', z.Reaches z' → z'.Delivers new t.ty → z'.Writes env (do
        emit line (Build.store t.op new)
        return Value.ofOperand (if before then new else old) t.ty)
        fun v y => y.Delivers v.op v.ty := fun new z' hzz' hnew =>
      (writes_store ((ht.knows.mono hyz).mono hzz') hnew.knows).bind fun _ z'' hz'' _ => by
        refine .pure ?_
        show z''.Delivers (if before then new else old) t.ty
        split
        · exact hnew.mono hz''
        · exact (hold.mono hzz').mono hz''
    split
    · next hty =>
      have hne : t.ty ≠ .bool := by
        rintro heq
        simp [heq, Ty.isPointer] at hty
      exact (writes_offset hold.knows (z.knows_const _) _).bind
        fun new z' hzz' hnew => hstore new z' hzz' (delivers_of_ne hnew hne)
    · split
      · exact (writes_binary _ hold.knows (z.knows_const _) _).bind hstore
      · split
        · exact writes_failWith.bind hstore
        · exact (writes_binary _ hold.knows (z.knows_const _) _).bind hstore

theorem writes_addressOf (operand : ExprId) :
    x.Writes env (addressOf sub operand line) fun v y => y.Delivers v.op v.ty := by
  refine (writes_storage hsub operand).bind fun v y _ hv => ?_
  split
  · exact .pure (delivers_of_ne hv.knows v.ty.pointerTo_ne_bool)
  · exact writes_failWith

theorem writes_deref (operand : ExprId) :
    x.Writes env (deref sub operand line) fun v y => y.Denotes v := by
  refine (writes_rvalue hsub operand).bind fun v y _ hv => ?_
  split
  · exact writes_failWith
  · split
    · exact .pure ⟨hv.knows, fun h => nomatch h⟩
    · exact .pure (denotes_inStorage hv.knows)

theorem writes_negate (operand : ExprId) :
    x.Writes env (negate sub operand line) fun v y => y.Delivers v.op v.ty := by
  refine (writes_rvalue hsub operand).bind fun v y _ hv => ?_
  split
  · exact (writes_binary _ hv.knows (y.knows_const _) _).bind fun _ _ _ h => .pure h
  · split
    · refine (writes_convert hv _).bind fun value z _ hvalue => ?_
      exact (writes_binary _ (z.knows_const _) hvalue.knows _).bind fun _ _ _ h => .pure h
    · exact writes_failWith

theorem writes_unary (op : UnaryOp) (operand : ExprId) :
    x.Writes env (unary sub op operand line) fun v y => y.Denotes v := by
  have hvalue : ∀ {m : Lower Value}, (x.Writes env m fun v y => y.Delivers v.op v.ty) →
      x.Writes env m fun v y => y.Denotes v :=
    fun h => h.imp fun _ _ _ hv => ⟨hv.knows, fun _ => hv.settled⟩
  cases op with
  | addressOf => exact hvalue (writes_addressOf hsub operand)
  | deref => exact writes_deref hsub operand
  | negate => exact hvalue (writes_negate hsub operand)
  | plus =>
    refine hvalue ((writes_rvalue hsub operand).bind fun v y _ hv => ?_)
    split
    · exact .pure hv
    · exact writes_failWith
  | not =>
    refine hvalue ((writes_truth hsub operand).bind fun b y _ hb => ?_)
    exact (writes_cmp _ hb.knows (y.knows_const _)).bind fun _ _ _ h => .pure h
  | bitNot =>
    refine hvalue ((writes_rvalue hsub operand).bind fun v y _ hv => ?_)
    split
    · exact (writes_binary _ hv.knows (y.knows_const _) _).bind fun _ _ _ h => .pure h
    · exact writes_failWith
  | preIncrement => exact hvalue (writes_step hsub operand true true)
  | preDecrement => exact hvalue (writes_step hsub operand false true)

end Site

end Lower

end TreeFlow
