import TreeFlow.Lower.Depth
import TreeFlow.Proofs.Lowering.Types

/-!
# Expressions

Every expression leads from a site to one where its value is known (`Site.writes_expression`),
however deep it is and wherever in it lowering fails. The induction is on the depth of the descent;
one node is looked at with what is known of its children.
-/

namespace TreeFlow.Lower

namespace Site

variable {env : Env} {line : Nat} {x : Site} {v : Value} {ty : Ty}

/-! ### Literals and names -/

theorem writes_stringLiteral (s : String) :
    x.Writes env (stringLiteral s) fun v y => y.Denotes v := by
  have hadd : x.Reads env (withBuilder (·.globalString s)) fun p _ => ∃ c, p.1 = c :=
    reads_of_same (Runs.of_done rfl ⟨⟨rfl, rfl, rfl, rfl⟩, _, rfl⟩)
  exact hadd.writes.bind fun p y _ _ => .pure (denotes_inStorage (y.knows_const _))

theorem writes_identifier (name : String) (globally : Bool) :
    x.Writes env (identifier name globally line) fun v y => y.Denotes v := by
  refine .bind_read ?_
  split
  · next b hb =>
    have hvisible : x.state.context.Visible b := by
      split at hb
      · exact visible_of_globalVar? hb
      · exact visible_of_var? hb
    have hknows := knows_of_anywhere (x.names b hvisible)
    split
    · exact .pure ⟨hknows, fun h => nomatch h⟩
    · exact .pure (denotes_inStorage hknows)
  · exact writes_failWith

/-! ### Calls -/

theorem writes_argument (hv : x.Delivers v.op v.ty) (param : Option Ty) :
    x.Writes env (argument v param line) fun op y => y.Knows op := by
  unfold argument
  split
  · split
    · exact writes_loadAggregate hv.knows
    · refine (writes_convert hv _).attempt.bind fun o y _ ho => ?_
      split
      · exact .pure (ho _ rfl).knows
      · exact writes_failWith
  · split
    · exact writes_cast _ hv.knows _
    · exact writes_loadAggregate hv.knows

variable {sub : Descent} (hsub : sub.Sound)
include hsub

theorem writes_arguments (params : List Ty) (args : List ExprId) :
    x.Writes env (arguments sub line params args) fun ops y => ∀ op ∈ ops, y.Knows op := by
  induction args generalizing x params with
  | nil => exact .pure (by simp)
  | cons e es ih =>
    refine (writes_rvalue hsub e).bind fun v y _ hv => ?_
    refine (writes_argument hv _).bind fun op z _ hop => ?_
    refine (ih params.tail).bind fun ops z' hzz' hops => .pure ?_
    simpa using ⟨hop.mono hzz', hops⟩

theorem writes_callExpr (callee : ExprId) (args : List ExprId) :
    x.Writes env (call sub callee args line) fun v y => y.Delivers v.op v.ty := by
  refine .bind_read ?_
  split
  · exact writes_failWith
  · refine (writes_rvalue hsub callee).bind fun f y _ hf => ?_
    split
    · exact writes_failWith
    · next sig _ =>
      split
      · exact writes_failWith
      · refine (writes_arguments hsub _ _).bind fun ops z hyz hops => ?_
        exact (writes_call (hf.knows.mono hyz) hops _).bind fun _ _ _ h => .pure h

/-! ### Parts of values -/

omit hsub in
theorem writes_fieldBase (hv : x.Denotes v) :
    x.Writes env (fieldBase v line) fun p y => y.Knows p.1 := by
  unfold fieldBase
  split
  · split
    · exact .pure hv.knows
    · refine (writes_alloca _).bind fun slot y hxy hslot => ?_
      refine (writes_store (knows_of_anywhere hslot) (hv.knows.mono hxy)).bind fun _ z hyz _ => ?_
      exact .pure ((knows_of_anywhere hslot).mono hyz)
  · refine (writes_toRvalue hv).bind fun v y _ hv => ?_
    split
    · split
      · exact .pure hv.knows
      · exact writes_failWith
    · exact writes_failWith

theorem writes_fieldAccess (base : ExprId) (name : String) :
    x.Writes env (fieldAccess sub base name line) fun v y => y.Denotes v := by
  refine (writes_storage hsub base).bind fun v y _ hv => ?_
  refine (writes_fieldBase hv).bind fun p z _ hp => ?_
  obtain ⟨ptr, ty⟩ := p
  refine .bind_read ?_
  split
  · exact .bind_read writes_failWith
  · split
    · exact .bind_read writes_failWith
    · split
      · exact writes_failWith
      · refine (?_ : z.Writes env _ fun op y => y.Knows op).bind
          fun _ _ _ h => .pure (denotes_inStorage h)
        split
        · exact writes_cast _ hp _
        · exact (writes_field hp _ _).imp fun _ _ _ h => h.knows

theorem writes_element (base position : ExprId) :
    x.Writes env (element sub base position line) fun v y => y.Denotes v := by
  refine (writes_storage hsub base).bind fun b y _ hb => ?_
  split
  · exact writes_failWith
  · refine (writes_toRvalue hb).bind fun ptr z _ hptr => ?_
    refine (writes_rvalue hsub position).bind fun index z' hzz' hindex => ?_
    split
    · exact writes_failWith
    · refine (writes_convert hindex .long).bind fun index z'' hz'' hindex => ?_
      have hptr := (hptr.knows.mono hzz').mono hz''
      exact (writes_offset hptr hindex.knows _).bind fun _ _ _ h => .pure (denotes_inStorage h)

/-! ### Types -/

theorem writes_layoutQuery (id : SpecId) (size : Bool) :
    x.Writes env (layoutQuery sub id size line) fun v y => y.Delivers v.op v.ty := by
  refine (hsub.spec env x id).writes.bind fun ty y _ _ => .bind_env (.bind_read ?_)
  split
  · split
    · exact .pure ⟨y.knows_const _, fun h => nomatch h⟩
    · exact writes_failWith
  · exact .halt fun _ heq => nomatch heq
  · exact writes_failWith
  · exact writes_failWith

theorem writes_castExpr (id : SpecId) (operand : ExprId) :
    x.Writes env (cast sub id operand line) fun v y => y.Delivers v.op v.ty := by
  refine (hsub.spec env x id).writes.bind fun ty y _ _ => ?_
  refine (writes_rvalue hsub operand).bind fun v z _ hv => ?_
  split
  · exact .pure ⟨z.knows_const _, fun h => nomatch h⟩
  · exact (writes_convertOrReport hv ty).bind fun _ _ _ h => .pure h

/-! ### Assignment -/

omit hsub in
theorem writes_putAggregate {addr : Operand} (haddr : x.Knows addr) (hv : x.Knows v.op) (ty : Ty) :
    x.Writes env (putAggregate addr v ty line) fun _ _ => True := by
  unfold putAggregate
  split
  · exact (writes_copy haddr hv ty).imp fun _ _ _ _ => trivial
  · exact (writes_store haddr hv).imp fun _ _ _ _ => trivial

theorem writes_assignTo {target : Value} (ht : x.Denotes target) (value : ExprId) :
    x.Writes env (assignTo sub target value line) fun v y => y.Denotes v := by
  unfold assignTo
  split
  · refine (writes_storage hsub value).bind fun v y hxy hv => ?_
    split
    · exact writes_failWith
    · exact (writes_copy (ht.knows.mono hxy) hv.knows _).bind fun _ z hyz _ =>
        .pure ((ht.mono hxy).mono hyz)
  · refine (writes_rvalue hsub value).bind fun v y hxy hv => ?_
    split
    · split
      · exact writes_failWith
      · exact (writes_putAggregate (ht.knows.mono hxy) hv.knows _).bind fun _ z hyz _ =>
          .pure ((ht.mono hxy).mono hyz)
    · refine (writes_convertOrReport hv _).bind fun op z hyz hop => ?_
      exact (writes_store ((ht.knows.mono hxy).mono hyz) hop.knows).bind fun _ z' hzz' _ =>
        .pure (hop.mono hzz').denotes

theorem writes_assign (target value : ExprId) :
    x.Writes env (assign sub target value line) fun v y => y.Denotes v := by
  refine .bind_expr fun _ _ => (writes_lvalue hsub target).attempt.bind fun o y _ ho => ?_
  split
  · exact (writes_rvalue hsub value).ignoring.bind fun _ _ _ _ => .fail
  · split
    · exact writes_failWith
    · exact writes_assignTo hsub (ho _ rfl) value

theorem writes_comma (first second : ExprId) :
    x.Writes env (comma sub first second) fun v y => y.Denotes v := by
  refine (writes_rvalue hsub first).bind fun a y _ _ => ?_
  exact (hsub.raw env y second).bind fun _ _ _ hb => .pure ⟨hb.knows, hb.settled⟩

theorem writes_globalScope (operand : ExprId) :
    x.Writes env (globalScope sub operand line) fun v y => y.Denotes v := by
  refine .bind_expr fun _ _ => ?_
  split
  · exact writes_identifier _ _
  · exact hsub.raw env x operand

/-! ### Choice -/

omit hsub in
/-- One alternative is brought to the type of the choice in the block where its code ends. -/
theorem writes_alternative (hv : x.Delivers v.op v.ty) (ty : Ty) :
    x.Writes env (alternative v ty line) fun op y => y.Knows op := by
  unfold alternative
  split
  · exact .pure (x.knows_const _)
  · split
    · split
      · exact .pure hv.knows
      · refine (writes_alloca _).bind fun slot y hxy hslot => ?_
        refine (writes_store (knows_of_anywhere hslot) (hv.knows.mono hxy)).bind
          fun _ z hyz _ => .pure ?_
        exact (knows_of_anywhere hslot).mono hyz
    · exact (writes_convertOrReport hv ty).imp fun _ _ _ h => h.knows

/-- An alternative is lowered into its arm. It ends at an open block below the fork. -/
theorem runs_alternativeIn {c b : BlockId} (hb : x.Arm c b) (e : ExprId) :
    Runs (alternativeIn sub b e) env x.state
      (fun r s => ∃ y, y.state = s ∧ (x.moveTo b hb.has).Reaches y ∧ y.openBlock = some r.2 ∧
        y.parents.Below c r.2 ∧ (r.2 = b ∨ ¬ x.function.Has r.2) ∧
        ∀ v, r.1 = some v → y.Delivers v.op v.ty) fun _ => False := by
  have hopen := moveTo_openBlock hb.has hb.isOpen
  refine Runs.bind_of_done (t := (x.moveTo b hb.has).state) rfl ?_
  have hend : ∀ (o : Option Value) (y : Site), (x.moveTo b hb.has).Reaches y →
      (∀ v, o = some v → y.Delivers v.op v.ty) →
      Runs (do return (o, (← currentBlock).getD b)) env y.state
        (fun r s => ∃ y, y.state = s ∧ (x.moveTo b hb.has).Reaches y ∧ y.openBlock = some r.2 ∧
          y.parents.Below c r.2 ∧ (r.2 = b ∨ ¬ x.function.Has r.2) ∧
          ∀ v, r.1 = some v → y.Delivers v.op v.ty) fun _ => False := by
    intro o y hy hv
    obtain ⟨d, hd, hplace, hbelow⟩ := hy.exists_open hopen
    have hcur : y.state.builder.block = some d := (openBlock_eq_some_iff.1 hd).1
    refine Runs.of_done (a := (o, d)) (t := y.state) ?_ ⟨y, rfl, hy, hd, ?_, hplace, hv⟩
    · exact congrArg (fun block => (Outcome.done (o, block.getD b), y.state)) hcur
    · exact (x.wellFormed.below_mono hy.grows.parent hb.has hb.below).trans hbelow
  refine Runs.bind (Runs.attempt (Runs.imp (writes_rvalue hsub e) ?_ ?_))
  · rintro v _ ⟨y, rfl, hy, hv⟩
    exact hend (some v) y hy fun _ heq => Option.some.inj heq ▸ hv
  · rintro _ ⟨y, rfl, hy⟩
    exact hend none y hy fun _ heq => nomatch heq

omit hsub in
/-- The end of one alternative: the operand is known where control leaves for the join, and what was
known at the end of another alternative stays known there. -/
theorem runs_joinFrom {x₀ : Site} {c source join : BlockId} (hx : Grown x₀.openBlock x₀ x)
    (hplace : x₀.openBlock = some c ∨ x₀.openBlock = none ∧ ¬ x₀.function.Has c)
    (hpark : x.Parked c source v.op) (hsource : ¬ x₀.function.Has source) (hjoin : x.Arm c join)
    (hnew : ¬ x₀.function.Has join) (hne : source ≠ join) (ty : Ty) :
    Runs (joinFrom source join v ty line) env x.state
      (fun r s => ∃ y, y.state = s ∧ Grown x₀.openBlock x₀ y ∧
        x.function.Extends x.parents y.function y.parents ∧ y.Arm c join ∧
        (r.2 = source ∨ ¬ x.function.Has r.2) ∧ y.function.Has r.2 ∧
        y.function.KnownOperand y.parents r.2 r.1 ∧
        (∀ p, join ∈ y.function.successors p ↔ join ∈ x.function.successors p ∨ p = r.2) ∧
        ∀ d w, d ≠ source → x.Parked c d w → y.Parked c d w)
      fun s => ∃ y, y.state = s ∧ x₀.Reaches y := by
  let x₁ := x.moveTo source hpark.has
  have hopen : x₁.openBlock = some source := moveTo_openBlock hpark.has hpark.isOpen
  have hx₁ : x₀.Reaches x₁ := reaches_of_below (hx.moveTo hpark.has) hplace hopen hsource hpark.below
  refine Runs.bind_of_done (t := x₁.state) rfl ?_
  refine Runs.bind (Runs.imp (writes_alternative (hpark.delivers v.ty) ty) ?_ ?_)
  swap
  · rintro _ ⟨y, rfl, hy⟩
    exact ⟨y, rfl, IsTrans.trans _ _ _ hx₁ hy⟩
  rintro op _ ⟨x₂, rfl, hx₁₂, hop⟩
  obtain ⟨last, hlast, hplace₂, hbelow⟩ := hx₁₂.exists_open hopen
  have hcur : x₂.state.builder.block = some last := (openBlock_eq_some_iff.1 hlast).1
  refine Runs.bind_of_done (a := some last) (t := x₂.state)
    (congrArg (fun block => (Outcome.done block, x₂.state)) hcur) ?_
  have hframe : ∀ b, x.function.Has b → b ≠ source →
      x₂.function.termAt b = x.function.termAt b := fun b hb hne =>
    (hx₁₂.grows.frozen b hb (by rw [hopen]; exact fun heq => hne (Option.some.inj heq))).2
  have hjoin₂ : x₂.Arm c join := (hjoin.moveTo hpark.has).mono hx₁₂.toGrown (by
    rw [hopen]
    exact fun heq => hne (Option.some.inj heq).symm)
  have hlast₀ : ¬ x₀.function.Has last := by
    rcases hplace₂ with rfl | hlastNew
    · exact hsource
    · exact fun hold => hlastNew (hx.grows.has _ hold)
  have hgrown₂ : Grown x₀.openBlock x₀ x₂ := hx₁.toGrown.trans hx₁₂.toGrown fun b hb hold => by
    rw [hopen] at hb
    exact absurd (Option.some.inj hb ▸ hold) hsource
  have hbelow₂ : x₂.parents.Below c last :=
    (x.wellFormed.below_mono hx₁₂.grows.parent hpark.has hpark.below).trans hbelow
  obtain ⟨x₃, hrun, hx₃, hext, hcloses⟩ := exists_goto env line hgrown₂ hlast
    (fun hold => absurd hold hlast₀) hjoin₂ hbelow₂ hnew
  have hlastNe : ∀ b, x.function.Has b → b ≠ source → last ≠ b := by
    rintro b hb hbs rfl
    rcases hplace₂ with rfl | hlastNew
    · exact hbs rfl
    · exact hlastNew hb
  have hext₃ : x.function.Extends x.parents x₃.function x₃.parents :=
    hx₁₂.grows.toExtends.trans hext
  have hterm₃ : ∀ b, x.function.Has b → b ≠ source →
      x₃.function.termAt b = x.function.termAt b := fun b hb hbs => by
    rw [hcloses.term, if_neg (hlastNe b hb hbs), hframe b hb hbs]
  refine Runs.bind_of_done hrun (Runs.pure ⟨x₃, rfl, hx₃, hext₃, ?_, hplace₂, hcloses.has_self,
    hext.knownOperand x₂.wellFormed (has_openBlock hlast) (hop.knownOperand hlast), fun p => ?_,
    fun d w hd hparked => hparked.mono hext₃ (hterm₃ d hparked.has hd)⟩)
  · exact ⟨hext₃.has _ hjoin.has, (hcloses.code _).trans hjoin₂.code,
      (hterm₃ _ hjoin.has (Ne.symm hne)).trans hjoin.isOpen, hcloses.parents ▸ hjoin₂.parent⟩
  · show join ∈ x₃.function.successors p ↔ join ∈ x.function.successors p ∨ p = last
    have hold : join ∈ x₂.function.successors p ↔ join ∈ x.function.successors p :=
      hx₁₂.grows.mem_successors_iff hjoin.has
    have hclosed : x₂.function.successors last = [] :=
      Function.successors_of_termAt_none (openBlock_eq_some_iff.1 hlast).2
    rw [hcloses.successors]
    split
    · next heq => simp [Terminator.successors, heq]
    · next hp => rw [hold, or_iff_left (Ne.symm hp)]

theorem writes_conditional (cond yes no : ExprId) :
    x.Writes env (conditional sub cond yes no line) fun v y => y.Denotes v := by
  refine (writes_truth hsub cond).bind fun cv x _ hcv => ?_
  -- The fork.
  obtain ⟨yesBlock, x₁, hrun₁, hx₁, hyesNew, hyesBlank, hopen₁⟩ :=
    exists_newBlock env line x
  obtain ⟨noBlock, x₂, hrun₂, hx₂, hnoNew, hnoBlank, hopen₂⟩ :=
    exists_newBlock env line x₁
  obtain ⟨join, x₃, hrun₃, hx₃, hjoinNew, hjoinBlank, hopen₃⟩ :=
    exists_newBlock env line x₂
  refine Runs.bind_of_done hrun₁ (Runs.bind_of_done hrun₂ (Runs.bind_of_done hrun₃ ?_))
  have hyesNo : yesBlock ≠ noBlock := fun heq => hnoNew (heq ▸ hyesBlank.has)
  have hyesJoin : yesBlock ≠ join := fun heq =>
    hjoinNew (hx₂.grows.has _ (heq ▸ hyesBlank.has))
  have hnoJoin : noBlock ≠ join := fun heq => hjoinNew (heq ▸ hnoBlank.has)
  have hnoNew : ¬ x.function.Has noBlock := fun hold => hnoNew (hx₁.grows.has _ hold)
  have hjoinNew : ¬ x.function.Has join := fun hold =>
    hjoinNew (hx₂.grows.has _ (hx₁.grows.has _ hold))
  have hopen₂ : x₂.openBlock = x.openBlock := hopen₂.trans hopen₁
  have hopen₃ : x₃.openBlock = x.openBlock := hopen₃.trans hopen₂
  have hframe : ∀ {b}, ¬ x.function.Has b → some b ≠ x.openBlock := fun hb heq =>
    hb (has_openBlock heq.symm)
  have hyesBlank : x₃.Blank yesBlock :=
    (hyesBlank.mono hx₂.toGrown (hopen₁ ▸ hframe hyesNew)).mono hx₃.toGrown
      (hopen₂ ▸ hframe hyesNew)
  have hnoBlank : x₃.Blank noBlock := hnoBlank.mono hx₃.toGrown (hopen₂ ▸ hframe hnoNew)
  have hgrown₃ : Grown x.openBlock x x₃ :=
    (IsTrans.trans x x₁ x₃ hx₁ (IsTrans.trans x₁ x₂ x₃ hx₂ hx₃) : x.Reaches x₃).toGrown
  obtain ⟨c, y, hrun, hy, -, hplace, harms⟩ := exists_fork env line yesBlock noBlock
    [yesBlock, noBlock, join] hgrown₃ hopen₃
    (by simp [hyesNew, hnoNew, hjoinNew]) (by simp [hyesBlank, hnoBlank, hjoinBlank]) (by simp)
    (by simp) (((hcv.knows.mono hx₁).mono hx₂).mono hx₃)
  refine Runs.bind_of_done hrun ?_
  have hyes : y.Arm c yesBlock := (harms yesBlock (by simp)).1
  have hno : y.Arm c noBlock := (harms noBlock (by simp)).1
  obtain ⟨hjoin, hpreds⟩ := harms join (by simp)
  have hpreds : ∀ p, join ∉ y.function.successors p := fun p hp =>
    ((hpreds p).1 hp).2.elim (Ne.symm hyesJoin) (Ne.symm hnoJoin)
  -- The first alternative.
  refine Runs.bind (Runs.imp (runs_alternativeIn hsub hyes yes) ?_ fun _ => False.elim)
  rintro ⟨yv, yesEnd⟩ _ ⟨y₁, rfl, hy₁, hyesOpen, hyesBelow, hyesPlace, hyv⟩
  have hyesHas : y₁.function.Has yesEnd := has_openBlock hyesOpen
  have hcur₁ := moveTo_openBlock hyes.has hyes.isOpen
  have hgrown₁ : Grown x.openBlock x y₁ := (hy.moveTo hyes.has).trans hy₁.toGrown
    fun b hb hold => absurd (Option.some.inj (hcur₁.symm.trans hb) ▸ hold) hyesNew
  have hno₁ : y₁.Arm c noBlock := (hno.moveTo hyes.has).mono hy₁.toGrown
    (by rw [hcur₁]; exact fun heq => hyesNo (Option.some.inj heq).symm)
  have hjoin₁ : y₁.Arm c join := (hjoin.moveTo hyes.has).mono hy₁.toGrown
    (by rw [hcur₁]; exact fun heq => hyesJoin (Option.some.inj heq).symm)
  have hpreds₁ : ∀ p, join ∉ y₁.function.successors p := fun p =>
    (hy₁.grows.mem_successors_iff hjoin.has).not.2 (hpreds p)
  have hyesEndNew : ¬ x.function.Has yesEnd := by
    rcases hyesPlace with rfl | hnew
    · exact hyesNew
    · exact fun hold => hnew (hy.grows.has _ hold)
  have hyesEndNo : yesEnd ≠ noBlock := by
    rcases hyesPlace with rfl | hnew
    · exact hyesNo
    · exact fun heq => hnew (heq ▸ hno.has)
  have hyesEndJoin : yesEnd ≠ join := by
    rcases hyesPlace with rfl | hnew
    · exact hyesJoin
    · exact fun heq => hnew (heq ▸ hjoin.has)
  -- The second alternative.
  refine Runs.bind (Runs.imp (runs_alternativeIn hsub hno₁ no) ?_ fun _ => False.elim)
  rintro ⟨nv, noEnd⟩ _ ⟨y₂, rfl, hy₂, hnoOpen, hnoBelow, hnoPlace, hnv⟩
  have hcur₂ := moveTo_openBlock hno₁.has hno₁.isOpen
  have hgrown₂ : Grown x.openBlock x y₂ := (hgrown₁.moveTo hno₁.has).trans hy₂.toGrown
    fun b hb hold => absurd (Option.some.inj (hcur₂.symm.trans hb) ▸ hold) hnoNew
  have hjoin₂ : y₂.Arm c join := (hjoin₁.moveTo hno₁.has).mono hy₂.toGrown
    (by rw [hcur₂]; exact fun heq => hnoJoin (Option.some.inj heq).symm)
  have hpreds₂ : ∀ p, join ∉ y₂.function.successors p := fun p =>
    (hy₂.grows.mem_successors_iff hjoin₁.has).not.2 (hpreds₁ p)
  have hnoEndNew : ¬ x.function.Has noEnd := by
    rcases hnoPlace with rfl | hnew
    · exact hnoNew
    · exact fun hold => hnew (hgrown₁.grows.has _ hold)
  have hnoEndJoin : noEnd ≠ join := by
    rcases hnoPlace with rfl | hnew
    · exact hnoJoin
    · exact fun heq => hnew (heq ▸ hjoin₁.has)
  have hends : noEnd ≠ yesEnd := by
    rcases hnoPlace with rfl | hnew
    · exact Ne.symm hyesEndNo
    · exact fun heq => hnew (heq ▸ has_openBlock hyesOpen)
  have hreach₂ : x.Reaches y₂ := reaches_of_below hgrown₂ hplace hnoOpen hnoEndNew hnoBelow
  dsimp only
  split
  swap
  · exact Yields.after hreach₂ .fail
  next yv nv =>
  split
  · exact Yields.after hreach₂ writes_failWith
  next ty _ =>
  have hyesParked : y₂.Parked c yesEnd yv.op :=
    (((hyv _ rfl).knows.parked hyesOpen hyesBelow).mono (y := y₁.moveTo noBlock hno₁.has)
      (Function.Extends.refl _ _) rfl).mono hy₂.grows.toExtends
      (hy₂.grows.frozen yesEnd hyesHas (by
        rw [hcur₂]
        exact fun heq => hyesEndNo (Option.some.inj heq))).2
  have hnoParked : y₂.Parked c noEnd nv.op := (hnv _ rfl).knows.parked hnoOpen hnoBelow
  -- Both are brought to the type of the choice and join.
  refine Runs.bind (Runs.imp (runs_joinFrom hgrown₂ hplace hyesParked hyesEndNew hjoin₂ hjoinNew
    hyesEndJoin ty) ?_ fun _ h => h)
  rintro ⟨yesOp, yesLast⟩ _
    ⟨y₃, rfl, hgrown₃, hext₃, hjoin₃, hyesLast, hhas₃, hyesKnown, hpreds₃, hparked₃⟩
  have hnoParked := hparked₃ noEnd nv.op hends hnoParked
  refine Runs.bind (Runs.imp (runs_joinFrom hgrown₃ hplace hnoParked hnoEndNew hjoin₃ hjoinNew
    hnoEndJoin ty) ?_ fun _ h => h)
  rintro ⟨noOp, noLast⟩ _
    ⟨y₄, rfl, hgrown₄, hext₄, hjoin₄, hnoLast, hhas₄, hnoKnown, hpreds₄, -⟩
  let z := y₄.moveTo join hjoin₄.has
  have hopen : z.openBlock = some join := moveTo_openBlock hjoin₄.has hjoin₄.isOpen
  have hz : x.Reaches z :=
    reaches_of_below (hgrown₄.moveTo hjoin₄.has) hplace hopen hjoinNew hjoin₄.below
  refine Runs.bind_of_done (t := z.state) rfl ?_
  have hlasts : yesLast ≠ noLast := by
    rintro rfl
    rcases hnoLast with heq | hnew
    · rcases hyesLast with heq' | hnew'
      · exact hends (heq.symm.trans heq')
      · exact hnew' (heq ▸ has_openBlock hnoOpen)
    · exact hnew hhas₃
  have hphi : ∀ phiTy, z.Writes env
      (emit line (Build.phi [(yesOp, yesLast), (noOp, noLast)] phiTy)) fun v y =>
        y.Delivers v phiTy := by
    refine writes_phi hopen (by rw [show z.parents join = some c from hjoin₄.parent]; rfl)
      (by simpa using hlasts) (fun p => ?_) fun v p hvp => ?_
    · show _ ↔ join ∈ y₄.function.successors p
      rw [hpreds₄ p, hpreds₃ p]
      simp [hpreds₂ p]
    · simp only [List.mem_cons, Prod.mk.injEq, List.not_mem_nil, or_false] at hvp
      rcases hvp with ⟨rfl, rfl⟩ | ⟨rfl, rfl⟩
      · exact hext₄.knownOperand y₃.wellFormed hhas₃ hyesKnown
      · exact hnoKnown
  refine Yields.after hz ?_
  split
  · exact .pure ⟨z.knows_const _, fun _ h => nomatch h⟩
  · split
    · exact (hphi _).bind fun _ _ _ h => .pure (denotes_inStorage h.knows)
    · exact (hphi _).bind fun _ _ _ h => .pure h.denotes

/-! ### All kinds -/

theorem writes_rawWith (id : ExprId) : x.Writes env (rawWith sub id) fun v y => y.Denotes v := by
  have hvalue : ∀ {m : Lower Value}, (x.Writes env m fun v y => y.Delivers v.op v.ty) →
      x.Writes env m fun v y => y.Denotes v :=
    fun h => h.imp fun _ _ _ hv => ⟨hv.knows, fun _ => hv.settled⟩
  have hconst : ∀ c : Constant, c.truth?.isSome →
      x.Writes env (Pure.pure (Value.ofConstant c)) fun v y => y.Denotes v :=
    fun c hc => .pure ⟨x.knows_const c, fun _ _ => .inr ⟨c, rfl, hc⟩⟩
  refine .bind_expr fun e _ => ?_
  dsimp only
  split
  · exact hconst _ rfl
  · exact hconst _ rfl
  · exact hconst _ rfl
  · exact hconst _ rfl
  · exact writes_stringLiteral _
  · exact writes_identifier _ _
  · exact writes_globalScope hsub _
  · exact hvalue (writes_callExpr hsub _ _)
  · exact writes_fieldAccess hsub _ _
  · exact writes_element hsub _ _
  · exact hvalue (writes_binaryOperator hsub _ _ _)
  · exact writes_unary hsub _ _
  · exact hvalue (writes_step hsub _ _ _)
  · exact hvalue (writes_layoutQuery hsub _ _)
  · exact hvalue (writes_layoutQuery hsub _ _)
  · exact hvalue (writes_castExpr hsub _ _)
  · exact writes_assign hsub _ _
  · exact writes_conditional hsub _ _ _
  · exact writes_comma hsub _ _

end Site

/-! ### Descents -/

/-- Each further level is sound since the one below it is. -/
theorem descentTo_sound (depth : Nat) : (descentTo depth).Sound := by
  induction depth with
  | zero => exact ⟨fun _ _ _ => .endless, fun _ _ _ => .endless, fun _ _ _ _ _ => .endless⟩
  | succ depth ih =>
    exact ⟨fun _ _ e => Site.writes_rawWith ih e, fun _ _ id => Site.reads_specWith ih id,
      fun _ _ mode id info => Site.reads_linkWith ih mode id info⟩

namespace Site

variable {α : Type} {env : Env} {line : Nat} {x : Site} {post : α → Site → Prop}

theorem writes_descend {step : Descent → Lower α}
    (h : ∀ sub : Descent, sub.Sound → x.Writes env (step sub) post) :
    x.Writes env (descend step) post :=
  Runs.of_eq (n := step (descentTo env.tree.exprDepth)) rfl (h _ (descentTo_sound _))

theorem reads_descend {step : Descent → Lower α}
    (h : ∀ sub : Descent, sub.Sound → x.Reads env (step sub) post) :
    x.Reads env (descend step) post :=
  Runs.of_eq (n := step (descentTo env.tree.exprDepth)) rfl (h _ (descentTo_sound _))

/-- **The value of an expression is known where its code ends.** -/
theorem writes_expression (e : ExprId) :
    x.Writes env (rvalue e) fun v y => y.Delivers v.op v.ty :=
  writes_descend fun _ hsub => writes_rvalue hsub e

theorem reads_resolve (id : SpecId) : x.Reads env (resolve id) fun _ _ => True :=
  reads_descend fun _ hsub => hsub.spec env x id

theorem reads_resolveDeclarator (mode : DeclaratorMode) (id : DeclaratorId) (base : Ty) :
    x.Reads env (resolveDeclarator mode id base) fun _ _ => True :=
  reads_descend fun _ hsub => reads_declare hsub mode id base

theorem reads_resolveParams (ps : List ParamDecl) :
    x.Reads env (resolveParams ps line) fun _ _ => True :=
  reads_descend fun _ hsub => reads_params hsub ps

end Site

end TreeFlow.Lower
