import TreeFlow.Proofs.Lowering.ShortCircuit

/-!
# Selection

A conditional tests its condition for truth, and evaluates one of its alternatives. In every run of the
function that the code is a part of, a call that gets to the conditional comes to that (`Choice.Evaluates`):
nothing of the alternative that is not chosen is run, and the value is the one that the other was converted to
(`raw_selects`).

There is one exception. Where both alternatives were converted to constants that compare equal, the first one
stands for the conditional. Equal constants have the same value, unless they are floating-point numbers
(`Constant.constant_of_beq`): there, zero equals its negation. So a zero may come out with the wrong sign.
-/

namespace TreeFlow

variable {p : Program} {below : List Activation} {f g h k l : Function} {m m' : Moment} {n : Nat}

/-! ### Equal constants -/

namespace Constant

/-- Floating-point constants that compare equal, as zeros of either sign do. -/
def SameNumber : Constant → Constant → Prop
  | .float x, .float y | .double x, .double y => (x == y) = true
  | _, _ => False

/-- Equal constants have the same value, if they are not floating-point numbers. -/
theorem constant_of_beq {c c' : Constant} (h : (c == c') = true) (p : Program) (globals : Array UInt64) :
    World.constant p globals c = World.constant p globals c' ∨ c.SameNumber c' := by
  cases c <;> cases c' <;> try cases h
  case float.float | double.double => exact .inr h
  case null.null => exact .inl rfl
  case int.int v ty v' ty' =>
    have hboth : (decide (v = v') && decide (ty = ty')) = true := h
    obtain rfl := of_decide_eq_true (Bool.and_eq_true_iff.1 hboth).1
    exact .inl rfl
  case zero.zero ty ty' | undef.undef ty ty' =>
    obtain rfl := of_decide_eq_true (p := ty = ty') h
    exact .inl rfl
  case bytes.bytes x y =>
    obtain rfl := eq_of_beq (a := x) (b := y) h
    exact .inl rfl
  case global.global id ty id' ty' | function.function id ty id' ty' =>
    have hboth : (decide (id = id') && decide (ty = ty')) = true := h
    obtain rfl := of_decide_eq_true (Bool.and_eq_true_iff.1 hboth).1
    exact .inl rfl

end Constant

namespace Lower

open Machine

variable {id : FuncId} {c join : BlockId} {op : Operand}

/-! ### Making a choice -/

namespace Choice

variable (x : Choice) (f : Function) (p : Program) (below : List Activation)

/-- The code of an alternative, which is converted where the code of the expression ends. -/
def HasCode (b : Bool) : Prop :=
  ∃ P Q R, CodeOf x.env f (x.lower b) (x.arm b).value (x.arm b).before (x.arm b).after P Q ∧
    CodeOf x.env f (x.convert b) (x.arm b).op (x.arm b).before' (x.arm b).after' Q R

/-- Nothing of an alternative is run. -/
def Skips (b : Bool) (m m' : Moment) : Prop :=
  Avoids p below (x.arm b).before (x.arm b).after f m m' ∧
    Avoids p below (x.arm b).before' (x.arm b).after' f m m'

/-- The condition is tested, and has the truth value `o`. Nothing of the alternatives is run. -/
def Tests (o : Except RunError Bool) (m m' : Moment) : Prop :=
  TestedAs x.env f p below x.sub x.cond x.line o m m' ∧ ∀ b, x.Skips f p below b m m'

/-- An alternative is evaluated and converted, and comes to the value `r`. Nothing of the other one is run. -/
def Takes (b : Bool) (r : Except RunError RunValue) (m m' : Moment) : Prop :=
  ∃ m₁,
    RunsBetween x.env f p below (x.lower b) (x.arm b).value (x.arm b).before (x.arm b).after m m₁ ∧
    RunsBetween x.env f p below (x.convert b) (x.arm b).op (x.arm b).before' (x.arm b).after' m₁ m' ∧
    x.Skips f p below (!b) m m' ∧ m'.value? p (x.arm b).op = r

/-- The condition is tested, and the alternative for its truth value `b` is taken, which comes to `r`. -/
def Decides (b : Bool) (r : Except RunError RunValue) (m m' : Moment) : Prop :=
  ∃ m₁ m₂ m₃, x.Tests f p below (.ok b) m m₁ ∧ (∀ b, x.Skips f p below b m₁ m₂) ∧
    x.Takes f p below b r m₂ m₃ ∧ ∀ b, x.Skips f p below b m₃ m'

/-- The choice is made, from one moment of a call to another, and the operand `op` stands for it. -/
inductive Evaluates (op : Operand) (m m' : Moment) : Prop
  /-- It has the value of the alternative that was taken. -/
  | selected {b : Bool} {r : Except RunError RunValue} (h : x.Decides f p below b r m m')
      (hvalue : m'.value? p op = r)
  /-- The second alternative was taken, and it has the value of the first one. Both are floating-point numbers
  that were known in advance and compare equal. -/
  | folded {r : Except RunError RunValue} {c c' : Constant} (h : x.Decides f p below false r m m')
      (hfirst : (x.arm true).op = .const c) (hsecond : (x.arm false).op = .const c') (hsame : c'.SameNumber c)
      (hop : op = .const c)

/-- The choice is being made, since one moment of a call until another. At most one alternative has been
begun. -/
inductive Underway (m m' : Moment) : Prop
  | tests (h : Begins x.env f p below (truth x.sub x.cond x.line) m m')
      (hskips : ∀ b, x.Skips f p below b m m')
  | takes {b : Bool} {m₁ : Moment} (htests : x.Tests f p below (.ok b) m m₁)
      (hskips : x.Skips f p below (!b) m₁ m')

/-- What a call has done that came to the choice earlier. It is making the choice, and does not return here,
or it has made it, and got to the spot `Q` behind its code. -/
def Follows (op : Operand) (Q : Spot) (m m' : Moment) : Prop :=
  (x.Underway f p below m m' ∧ ¬ f.ReturnsAt m'.spot) ∨
    ∃ m₁, x.Evaluates f p below op m m₁ ∧ m₁.spot = Q ∧ Reaches p below m₁ m'

end Choice

/-! ### What is not run -/

namespace Choice

variable {x : Choice} {b : Bool} {m₁ m₂ : Moment}

theorem Skips.trans (h : x.Skips f p below b m m₁) (h' : x.Skips f p below b m₁ m') :
    x.Skips f p below b m m' :=
  ⟨h.1.trans h'.1, h.2.trans h'.2⟩

/-- Code that was written between two other stages is no part of an alternative. -/
theorem skips_of_through (ht : Through p below g h f m m')
    (hlowered : h.Precedes (x.arm b).before ∨ (x.arm b).after.Precedes g)
    (hconverted : h.Precedes (x.arm b).before' ∨ (x.arm b).after'.Precedes g) : x.Skips f p below b m m' :=
  ⟨hlowered.elim ht.avoids_later ht.avoids_earlier, hconverted.elim ht.avoids_later ht.avoids_earlier⟩

end Choice

namespace Choice.Stages

variable {x : Choice} {b : Bool} (st : x.Stages id g c op k join)
include st

/-! ### The order of the stages -/

theorem lowers_precedes (b : Bool) : (x.arm b).before.Precedes (x.arm b).after := by
  obtain ⟨mid, hcode, -, -⟩ := (st.lowers b).parts
  exact hcode.code.precedes

theorem converts_precedes (b : Bool) : (x.arm b).before'.Precedes (x.arm b).after' := by
  obtain ⟨mid, -, -, hcode⟩ := (st.lowers b).parts
  exact hcode.code.precedes

theorem precedes_before (b : Bool) : (x.arm true).before.Precedes (x.arm b).before := by
  cases b
  · exact (st.lowers_precedes true).trans st.lowered
  · exact .refl _

theorem after_precedes (b b' : Bool) : (x.arm b).after.Precedes (x.arm b').before' := by
  have hfirst : (x.arm b).after.Precedes (x.arm true).before' := by
    cases b
    · exact st.converts
    · exact (st.lowered.trans (st.lowers_precedes false)).trans st.converts
  cases b'
  · have hnext := (st.lowers true).leads.precedes.trans st.converted
    exact hfirst.trans ((st.converts_precedes true).trans hnext)
  · exact hfirst

theorem next_precedes (b : Bool) : (st.next b).Precedes (st.next false) := by
  cases b
  · exact .refl _
  · exact st.converted.trans ((st.converts_precedes false).trans (st.lowers false).leads.precedes)

theorem stages_precede (hf : k.Precedes f) (b : Bool) :
    (st.next b).Precedes f ∧ (x.arm b).after'.Precedes f := by
  have hnext : (st.next b).Precedes f := (st.next_precedes b).trans (st.joins.precedes.trans hf)
  exact ⟨hnext, (st.lowers b).leads.precedes.trans hnext⟩

theorem isOpen_last (b : Bool) : (x.arm b).after'.termAt (st.last b) = none := by
  obtain ⟨mid, -, -, hcode⟩ := (st.lowers b).parts
  exact (hcode.code.isEnd (st.last b) List.mem_cons_self).2.2

/-- What was written in front of the alternatives is no part of them. -/
theorem skips_of_earlier (ht : Through p below h l f m m') (hl : l.Precedes (x.arm true).before) (b : Bool) :
    x.Skips f p below b m m' := by
  have hbefore := hl.trans (st.precedes_before b)
  exact skips_of_through ht (.inl hbefore)
    (.inl (hbefore.trans ((st.lowers_precedes b).trans (st.after_precedes b b))))

/-- What was written behind the alternatives is no part of them. -/
theorem skips_of_later (ht : Through p below h l f m m') (hl : (st.next false).Precedes h) (b : Bool) :
    x.Skips f p below b m m' := by
  have hafter := ((st.lowers b).leads.precedes.trans (st.next_precedes b)).trans hl
  exact skips_of_through ht (.inr ((st.after_precedes b b).trans ((st.converts_precedes b).trans hafter)))
    (.inr hafter)

/-- What one alternative was lowered to is no part of the other. -/
theorem skips_of_lowered (ht : Through p below (x.arm b).before (x.arm b).after f m m') :
    x.Skips f p below (!b) m m' := by
  refine skips_of_through ht ?_ (.inl (st.after_precedes b (!b)))
  cases b
  · exact .inr st.lowered
  · exact .inl st.lowered

/-- What one alternative was converted to is no part of the other. -/
theorem skips_of_converted (ht : Through p below (x.arm b).before' (st.next b) f m m') :
    x.Skips f p below (!b) m m' := by
  refine skips_of_through ht (.inr (st.after_precedes (!b) b)) ?_
  cases b
  · exact .inr ((st.lowers true).leads.precedes.trans st.converted)
  · exact .inl st.converted

/-- The jump at the end of an alternative is no part of it. -/
theorem skips_of_leads (ht : Through p below (x.arm b).after' (st.next b) f m m') (b' : Bool) :
    x.Skips f p below b' m m' := by
  by_cases heq : b' = b
  · subst heq
    have hafter := (st.after_precedes b' b').trans (st.converts_precedes b')
    exact skips_of_through ht (.inr hafter) (.inr (.refl _))
  · obtain rfl : b' = !b := Bool.eq_not.2 heq
    exact st.skips_of_converted (ht.mono (st.converts_precedes b) (.refl _))

/-! ### Following a call -/

/-- The code of an alternative consists of two regions, and the second one begins where the first one ends. -/
theorem exists_regions (hf : k.Precedes f) (hplain : ∀ b, ¬ g.Has b → f.instsAt b = f.codeAt b) (b : Bool) :
    ∃ Q, RegionOf x.env f (x.lower b) (x.arm b).value (x.arm b).before (x.arm b).after
        (f.start (st.first b)) Q ∧
      RegionOf x.env f (x.convert b) (x.arm b).op (x.arm b).before' (x.arm b).after' Q
        (f.behind (x.arm b).after' (st.last b)) := by
  obtain ⟨mid, hlower, hmid, hconvert⟩ := (st.lowers b).parts
  have hafter' : (x.arm b).after'.Precedes f := (st.stages_precede hf b).2
  have hfork : g.Precedes (x.arm true).before := st.tests.code.precedes.trans st.forks.precedes
  have hbefore : g.Precedes (x.arm b).before := hfork.trans (st.precedes_before b)
  have hbetween : g.Precedes (x.arm b).before' :=
    hbefore.trans ((st.lowers_precedes b).trans (st.after_precedes b b))
  have hlower := hlower.region ((st.after_precedes b b).trans ((st.converts_precedes b).trans hafter'))
    fun d hd => hplain d fun hold => hd (hbefore.has d hold)
  have hconvert := hconvert.region hafter' fun d hd => hplain d fun hold => hd (hbetween.has d hold)
  have hstart : f.start (st.first b) = f.behind (x.arm b).before (st.first b) := by
    obtain ⟨hnew, -⟩ := st.forks.arms (st.first b) (by cases b <;> simp)
    refine Function.start_eq_behind (st.lowers b).empty (hplain _ fun hold => hnew ?_)
    exact st.tests.code.precedes.has _ hold
  have hspots : f.behind (x.arm b).before' mid = f.behind (x.arm b).after mid := by
    rw [Function.behind, Function.behind, hmid]
  exact ⟨_, hstart ▸ hlower, hspots ▸ hconvert⟩

/-- A call at the beginning of an alternative is in it, or has taken it and got to the join. -/
theorem cases_of_arm (hf : k.Precedes f) (hplain : ∀ b, ¬ g.Has b → f.instsAt b = f.codeAt b) (b : Bool)
    (hm : m.IsIn p f) (hspot : m.spot = f.start (st.first b)) (hpasses : Passes p below n m m') :
    (x.Skips f p below (!b) m m' ∧ ¬ f.ReturnsAt m'.spot) ∨
      ∃ n r m₁ m₂, x.Takes f p below b r m m₁ ∧ (∀ b, x.Skips f p below b m₁ m₂) ∧ m₂.IsIn p f ∧
        m₂.spot = f.start join ∧ m₂.call.prev = some (st.last b) ∧ m₂.value? p (x.arm b).op = r ∧
        Passes p below n m₂ m' := by
  have hleads := (st.lowers b).leads
  obtain ⟨Q, hlower, hconvert⟩ := st.exists_regions hf hplain b
  rcases hlower.cases hm hspot hpasses with ⟨hthrough, hret⟩ | ⟨n₁, m₁, hruns₁, hend₁, hpasses⟩
  · exact .inl ⟨st.skips_of_lowered hthrough, hret⟩
  have hskips₁ := st.skips_of_lowered hruns₁.2
  have hm₁ := hm.through hruns₁.2
  rcases hconvert.cases hm₁ hend₁ hpasses with ⟨hthrough, hret⟩ | ⟨n₂, m₂, hruns₂, hend₂, hpasses⟩
  · exact .inl ⟨hskips₁.trans (st.skips_of_converted (hthrough.mono (.refl _) hleads.precedes)), hret⟩
  have hskips₂ := hskips₁.trans (st.skips_of_converted (hruns₂.2.mono (.refl _) hleads.precedes))
  have hm₂ := hm₁.through hruns₂.2
  rcases cases_of_leads hleads (st.isOpen_last b) (st.stages_precede hf b).1 hm₂ hend₂ hpasses with
    ⟨rfl, hret⟩ | ⟨n₃, m₃, hthrough₃, hvalue, hjoin, hprev, hpasses⟩
  · exact .inl ⟨hskips₂, hret⟩
  · exact .inr ⟨n₃, _, m₂, m₃, ⟨m₁, hruns₁, hruns₂, hskips₂, rfl⟩, st.skips_of_leads hthrough₃,
      hm₂.through hthrough₃, hjoin, hprev, hvalue _, hpasses⟩

/-- What the alternatives are joined to has the value of the one that was taken, or the constant of the first
one stands for both. -/
theorem evaluates_of_joins {m₀ : Moment} {r : Except RunError RunValue}
    (hdecides : x.Decides f p below b r m₀ m') (hr : m.value? p (x.arm b).op = r)
    (h : m'.value? p op = m.value? p (x.arm b).op ∨
      Build.commonConstant? [((x.arm true).op, st.last true), ((x.arm false).op, st.last false)] = some op ∧
        m' = m) : x.Evaluates f p below op m₀ m' := by
  rcases h with hvalue | ⟨hcommon, rfl⟩
  · exact .selected hdecides (hvalue.trans hr)
  simp only [Build.commonConstant?, List.all_cons, List.all_nil, Bool.and_true,
    Option.ite_none_right_eq_some, Option.some.injEq, Bool.and_eq_true] at hcommon
  obtain ⟨⟨⟨hconst, -⟩, hequal⟩, hop⟩ := hcommon
  cases b with
  | true => exact .selected hdecides (hop ▸ hr)
  | false =>
    cases hfirst : (x.arm true).op with
    | const c =>
      rw [hfirst] at hequal hop
      cases hsecond : (x.arm false).op with
      | const c' =>
        rw [hsecond] at hequal hr
        have hconstants : (c' == c) = true := hequal
        rcases Constant.constant_of_beq hconstants p m'.world.globals with heq | hsame
        · exact .selected hdecides (hop ▸ heq.symm.trans hr)
        · exact .folded hdecides hfirst hsecond hsame hop.symm
      | _ =>
        rw [hsecond] at hequal
        cases hequal
    | _ =>
      rw [hfirst] at hconst
      cases hconst

/-- A call that gets to a choice makes it, as long as it has not returned. -/
theorem follows (hsub : SproutingDescent x.sub) (hf : k.Precedes f)
    (hplain : ∀ b, ¬ g.Has b → f.instsAt b = f.codeAt b) (hm : m.IsIn p f) (hspot : m.spot = f.behind g c)
    (hpasses : Passes p below n m m') : x.Follows f p below op (f.behind k join) m m' := by
  obtain ⟨s, t, hrun, hs, ht⟩ := st.tests.run
  obtain ⟨tested, fork, ht', -, hcases⟩ := exists_cases_of_truth hsub hs hrun
  obtain ⟨rfl, rfl⟩ := ht.unique ht'
  -- The stages of the function, one after the other.
  have hforked : (x.arm true).before.Precedes f :=
    ((st.lowers_precedes true).trans ((st.after_precedes true true).trans (st.converts_precedes true))).trans
      (st.stages_precede hf true).2
  obtain ⟨hcode, hcases⟩ := hcases f (st.forks.precedes.trans hforked) hplain
  rcases hcases hm hspot hpasses with
    ⟨hbegins, hthrough, hret⟩ | ⟨n₁, m₁, o, htested, hthrough₁, hend₁, ho, hpasses⟩
  · exact .inl ⟨.tests hbegins (st.skips_of_earlier hthrough st.forks.precedes), hret⟩
  have hskips₁ := st.skips_of_earlier hthrough₁ st.forks.precedes
  have hm₁ := hm.through hthrough₁
  rcases cases_of_forks st.forks ht.isOpen hforked hm₁ hend₁ hpasses with
    ⟨rfl, hret⟩ | ⟨b, n₂, m₂, htruth, hthrough₂, hstart₂, -, hpasses⟩
  · exact .inl ⟨.tests ⟨st.test, g, st.tested, _, hspot ▸ hcode, hthrough₁⟩ hskips₁, hret⟩
  obtain rfl : o = .ok b := ho.symm.trans htruth
  have hskips₂ := st.skips_of_earlier hthrough₂ (.refl _)
  have hm₂ := hm₁.through hthrough₂
  have hfirst : m₂.spot = f.start (st.first b) := by
    rw [hstart₂]
    cases b <;> rfl
  rcases st.cases_of_arm hf hplain b hm₂ hfirst hpasses with
    ⟨hskips, hret⟩ | ⟨n₃, r, m₃, m₄, htakes, hskips₄, hm₄, hjoin, hprev, hr, hpasses⟩
  · exact .inl ⟨.takes ⟨htested, hskips₁⟩ ((hskips₂ (!b)).trans hskips), hret⟩
  have hfrom : [((x.arm true).op, st.last true), ((x.arm false).op, st.last false)].find?
      (fun s => m₄.call.prev == some s.2) = some ((x.arm b).op, st.last b) := by
    cases b <;> simp [hprev, st.last_ne.symm]
  rcases cases_of_joins st.joins st.empty_join hf (hplain join st.new_join) hm₄ hjoin hfrom hpasses with
    ⟨rfl, hret⟩ | ⟨n₅, m₅, hthrough₅, hend₅, hvalue, hpasses⟩
  · obtain ⟨-, -, -, hother, -⟩ := htakes
    exact .inl ⟨.takes ⟨htested, hskips₁⟩ (((hskips₂ (!b)).trans hother).trans (hskips₄ (!b))), hret⟩
  · have hskips₅ := st.skips_of_later hthrough₅ (.refl _)
    refine .inr ⟨m₅, st.evaluates_of_joins ⟨m₁, m₂, m₃, ⟨htested, hskips₁⟩, hskips₂, htakes, fun b =>
      (hskips₄ b).trans (hskips₅ b)⟩ hr hvalue, hend₅, hpasses.reaches⟩

end Choice.Stages

/-- A conditional at a handle is lowered as such. -/
theorem raw_conditional {depth : Nat} {env : Env} {e cond yes no : ExprId} {ln : UInt32} (s : State)
    (he : env.tree.expr? e = some ⟨.conditional cond yes no, ln⟩) :
    (descentTo (depth + 1)).raw e env s = conditional (descentTo depth) cond yes no ln.toNat env s := by
  show rawWith (descentTo depth) e env s = _
  rw [rawWith, bind_run (expr_of_expr? s he)]

/-- **A conditional selects.** Where the cursor is at an open block, and the conditional can be lowered,
however deep it is nested: whatever the function becomes, every call that gets to the conditional takes the
alternative for the truth value of the condition, and runs nothing of the other one. The value of the
conditional is the one that the alternative was converted to, with one exception
(`Choice.Evaluates.folded`).

No stack slot may be reserved in a block that is new. That is how a body is finished
(`Place.EndsBody.precedes`). -/
theorem raw_selects {depth : Nat} {env : Env} {e cond yes no : ExprId} {ln : UInt32} {s t : State} {w : Value}
    {id : FuncId} {g : Function} {c : BlockId}
    (he : env.tree.expr? e = some ⟨.conditional cond yes no, ln⟩) (hs : s.builder.At id g c)
    (hrun : (descentTo (depth + 1)).raw e env s = (.done w, t)) :
    ∃ x : Choice, (∀ b, (x.arm b).expr = if b then yes else no) ∧
      x = ⟨env, descentTo depth, cond, ln.toNat, w.ty, x.arm⟩ ∧
      choiceTy? (x.arm true).value.ty (x.arm false).value.ty = some w.ty ∧
      ∃ k d, t.builder.At id k d ∧ ∀ f, k.Precedes f → (∀ b, ¬ g.Has b → f.instsAt b = f.codeAt b) →
        (∀ b, x.HasCode f b) ∧
          f.OnCalls (f.behind g c) fun p below m m' => x.Follows f p below w.op (f.behind k d) m m' := by
  have hsub := sprouting_descentTo depth
  rw [raw_conditional s he] at hrun
  obtain ⟨arm, k, join, hexprs, hty, ⟨st⟩, ht⟩ := exists_stages hsub hs hrun
  refine ⟨⟨env, descentTo depth, cond, ln.toNat, w.ty, arm⟩, hexprs, rfl, hty, k, join, ht.toAt,
    fun f hf hplain => ⟨fun b => ?_, Function.onCalls_of_passes fun hm hspot hpasses =>
      st.follows hsub hf hplain hm hspot hpasses⟩⟩
  obtain ⟨Q, ⟨hlower, -⟩, ⟨hconvert, -⟩⟩ := st.exists_regions hf hplain b
  exact ⟨_, Q, _, hlower, hconvert⟩

end Lower

end TreeFlow
