import TreeFlow.Proofs.Lowering.Definite
import TreeFlow.Proofs.Lowering.Joining

/-!
# Short-circuit evaluation

The operands of `&&` and `||` are tested for truth, the right one only if the left one does not decide. In
every run of the function that the code is a part of, a call that gets to the operator comes to one of two
ends (`ShortCircuit.Evaluates`): the left operand has decided and nothing of the right one was run, or both
were run, and the value of the operator is the connective of their truth values (`raw_shortCircuits`).

The code of each operand is a region that control runs through, and it comes to the truth value of the
operand (`exists_cases_of_truth`). Where the left one is not known in advance, a fork and a join come between
the regions. What is joined has the truth value of the operand that control came with, even where there is no
phi (`truth?_of_joins`).
-/

namespace TreeFlow

variable {p : Program} {below : List Activation} {f g h : Function} {m m' : Moment} {n : Nat}

namespace Lower

open Machine

variable {c d e yes no : BlockId} {op rb : Operand}

/-- An operand that equals a truth value has it. -/
theorem truth?_of_beq {b : Bool} (h : (rb == .const (.ofBool b)) = true) : m.truth? p rb = .ok b := by
  cases rb with
  | const k =>
    cases k with
    | int v ty =>
      have hv : (decide (v = if b then 1 else 0) && decide (ty = .bool)) = true := h
      obtain rfl := of_decide_eq_true (Bool.and_eq_true_iff.1 hv).1
      cases b <;> rfl
    | _ => cases h
  | _ => cases h

/-- What a constant truth value and another operand are joined to has the truth value of the one that control
came with, even where they are equal, and there is no phi. -/
theorem truth?_of_joins {b : Bool} {src : Operand} (hsrc : src = .const (.ofBool b) ∨ src = rb)
    (h : m'.value? p op = m.value? p src ∨
      Build.commonConstant? [(.const (.ofBool b), c), (rb, d)] = some op ∧ m' = m) :
    m'.truth? p op = m.truth? p src := by
  rcases h with hvalue | ⟨hcommon, -⟩
  · exact Moment.truth?_eq hvalue
  simp only [Build.commonConstant?, List.all_cons, List.all_nil, Bool.and_true,
    Option.ite_none_right_eq_some, Option.some.injEq, Bool.and_eq_true] at hcommon
  obtain ⟨⟨-, hequal⟩, rfl⟩ := hcommon
  have hconst : ∀ m : Moment, m.truth? p (.const (.ofBool b)) = .ok b := fun m => by cases b <;> rfl
  rcases hsrc with rfl | rfl
  · rw [hconst, hconst]
  · rw [hconst, truth?_of_beq hequal]

/-! ### Testing for truth -/

variable {env : Env} {s t : State} {id : FuncId} {v : Value} {line : Nat}

/-- **The code that tests a value for truth comes to the truth of the value.** -/
theorem truth?_of_toBool (hs : s.builder.At id g c) (hrun : toBool v line env s = (.done op, t))
    (ht : t.builder.At id h d) (hf : h.Precedes f) (hm : m.IsIn p f) (hspot : m.spot = f.behind g c)
    (hthrough : Through p below g h f m m') (hend : m'.spot = f.behind h d) :
    m'.truth? p op = v.truthAt p m := by
  -- Where no code is written, control does not move.
  have hstill : t.builder = s.builder → m' = m := fun hb => by
    obtain ⟨rfl, rfl⟩ := hs.unique (hb ▸ ht)
    exact hthrough.eq_of_end hspot hs.isOpen
  by_cases hbool : v.ty.isBool = true
  · rw [toBool, if_pos hbool] at hrun
    cases hrun
    rw [hstill rfl, Value.truthAt_of_bool (Ty.eq_bool_of_isBool hbool)]
  rw [toBool, if_neg hbool] at hrun
  replace hbool : v.ty.isBool = false := by simpa using hbool
  cases hzero : zeroOf? v.ty with
  | none =>
    rw [hzero] at hrun
    exact ((Barren.failWith (F := State.SameMode) _ _).of_eq_done hrun).elim
  | some zero =>
  rw [hzero] at hrun
  have hbuild := Leaves.of_emit hrun
  rcases Build.cmp_eq_or (if v.ty.isFloat then .one else .ne) v.op (.const zero) with
    ⟨x, y, k, hx, hy, hfold, hcmp⟩ | hcmp <;> rw [hcmp] at hbuild
  · obtain ⟨rfl, hb⟩ := Prod.mk.inj (Except.ok.inj hbuild)
    obtain rfl := hstill hb.symm
    obtain ⟨vx, vy, b, hvx, hvy, heval, rfl⟩ := Constant.eval_of_foldCmp? p m'.world.globals hfold
    cases hy
    have hx' : operand p m'.world.globals m'.call v.op = .ok vx := by
      rw [hx]
      exact hvx
    rw [Value.truthAt, hx']
    exact (truth?_of_beq (by cases b <;> rfl)).trans (RunValue.truthAs?_of_eval hbool hzero hvy heval).symm
  · -- The comparison is the one instruction on the way.
    obtain ⟨rfl, hb⟩ := Prod.mk.inj (Except.ok.inj ((hs.insert_eq _ _).symm.trans hbuild))
    let i : Inst := ⟨.cmp (if v.ty.isFloat then .one else .ne) v.op (.const zero), .bool⟩
    obtain ⟨ht', -⟩ := hs.append (i := i) rfl
    obtain ⟨rfl, rfl⟩ := ht'.unique (hb ▸ ht)
    have hcode : (g.append c i).codeAt c = g.codeAt c ++ [g.nextInst] :=
      (Function.slots_code_append hs.whole hs.has rfl).2.trans (if_pos rfl)
    have hfirst := (Function.behind_of_append hcode hf).1
    cases hthrough using Relation.ReflTransGen.head_induction_on with
    | refl => exact absurd (congrArg Spot.rest (hend.symm.trans (hspot.trans hfirst))) (by simp)
    | head hpass hrest =>
      obtain ⟨x, hrun, hspot', hread⟩ := hpass.2.deliver_of_append hcode
        (Function.inst?_append.trans (if_pos rfl)) (by simp [i]) hf hm hspot
      obtain rfl := Through.eq_of_end hrest hspot' ht'.isOpen
      obtain ⟨vx, vy, b, hvx, hvy, heval, rfl⟩ := exists_eval_of_cmp hrun
      rw [Moment.truth?, Value.truthAt, hread, hvx]
      exact Eq.trans (by cases b <;> rfl) (RunValue.truthAs?_of_eval hbool hzero hvy heval).symm

/-- An expression is evaluated, from one moment of a call to another, and tested for truth. It has the truth
value `o`, if that is one. -/
def TestedAs (env : Env) (f : Function) (p : Program) (below : List Activation) (sub : Descent) (e : ExprId)
    (line : Nat) (o : Except RunError Bool) (m m' : Moment) : Prop :=
  ∃ v op m₁, Crosses env f p below (sub.rvalue e) v m m₁ ∧ Crosses env f p below (toBool v line) op m₁ m' ∧
    v.truthAt p m₁ = o

/-- A call that gets to the code that tests an expression for truth is in it, or has got to its end; then
what the expression was lowered to has the truth value of the expression. -/
theorem exists_cases_of_truth {sub : Descent} (h : SproutingDescent sub) {e : ExprId}
    (hs : s.builder.At id g c) (hrun : truth sub e line env s = (.done op, t)) :
    ∃ k d, t.builder.At id k d ∧ g.Sprouts c k [d] ∧ ∀ f, k.Precedes f →
      (∀ b, ¬ g.Has b → f.instsAt b = f.codeAt b) →
      CodeOf env f (truth sub e line) op g k (f.behind g c) (f.behind k d) ∧
      ∀ {p below n m m'}, Moment.IsIn m p f → m.spot = f.behind g c → Passes p below n m m' →
        (Begins env f p below (truth sub e line) m m' ∧ Through p below g k f m m' ∧ ¬ f.ReturnsAt m'.spot) ∨
        ∃ j m₁ o, TestedAs env f p below sub e line o m m₁ ∧ Through p below g k f m m₁ ∧
          m₁.spot = f.behind k d ∧ m₁.truth? p op = o ∧ Passes p below j m₁ m' := by
  obtain ⟨v, s₁, hvalue, htest⟩ := bind_eq_done hrun
  obtain ⟨k₁, c₁, hs₁, hsprouts₁, hregion₁⟩ := region_of_sprouting (brings_subRvalue h e) hs hvalue
  obtain ⟨k, d, ht, hsprouts, hregion⟩ := region_of_sprouting (brings_toBool v line) hs₁ htest
  refine ⟨k, d, ht, hsprouts₁.trans hsprouts, fun f hf hplain => ?_⟩
  have hr₁ := hregion₁ f (hsprouts.precedes.trans hf) hplain
  have hr := hregion f hf fun b hb => hplain b fun hold => hb (hsprouts₁.precedes.has b hold)
  have hwhole : CodeOf env f (truth sub e line) op g k (f.behind g c) (f.behind k d) :=
    ⟨s, t, hrun, hs.function?, ht.function?, hf, hs.spot? f, ht.spot? f⟩
  refine ⟨hwhole, fun {p below n m m'} hm hspot hpasses => ?_⟩
  rcases hr₁.cases hm hspot hpasses with ⟨hthrough₁, hret⟩ | ⟨n₁, m₁, ⟨hcode₁, hthrough₁⟩, hend₁, hpasses⟩
  · have hthrough := hthrough₁.mono (.refl g) hsprouts.precedes
    exact .inl ⟨⟨op, g, k, _, hspot ▸ hwhole, hthrough⟩, hthrough, hret⟩
  have hfirst := hthrough₁.mono (.refl g) hsprouts.precedes
  have hm₁ := hm.through hthrough₁
  rcases hr.cases hm₁ hend₁ hpasses with ⟨hthrough₂, hret⟩ | ⟨n₂, m₂, ⟨hcode₂, hthrough₂⟩, hend₂, hpasses⟩
  · have hthrough := hfirst.trans (hthrough₂.mono hsprouts₁.precedes (.refl k))
    exact .inl ⟨⟨op, g, k, _, hspot ▸ hwhole, hthrough⟩, hthrough, hret⟩
  · exact .inr ⟨n₂, m₂, _, ⟨v, op, m₁, ⟨g, k₁, hcode₁, hthrough₁⟩, ⟨k₁, k, hcode₂, hthrough₂⟩, rfl⟩,
      hfirst.trans (hthrough₂.mono hsprouts₁.precedes (.refl k)), hend₂,
      truth?_of_toBool hs₁ htest ht hf hm₁ hend₁ hthrough₂ hend₂, hpasses⟩

/-! ### Evaluating a short-circuit operator -/

/-- `&&`, or `||` if `and` does not hold. -/
def connect (and l r : Bool) : Bool := if and then l && r else l || r

/-- The code of a short-circuit operator in a function. -/
structure ShortCircuit where
  env : Env
  /-- The function that the code has become a part of. -/
  f : Function
  sub : Descent
  /-- Whether it is `&&` rather than `||`. -/
  and : Bool
  left : ExprId
  right : ExprId
  line : Nat
  /-- The code of the right operand was written between two stages of the function. -/
  before : Function
  after : Function

namespace ShortCircuit

variable (x : ShortCircuit) (p : Program) (below : List Activation)

/-- The left operand is evaluated, and nothing of the right one is. -/
def Left (o : Except RunError Bool) (m m' : Moment) : Prop :=
  TestedAs x.env x.f p below x.sub x.left x.line o m m' ∧ Avoids p below x.before x.after x.f m m'

/-- The right operand is evaluated, and nothing but that. -/
def Right (o : Except RunError Bool) (m m' : Moment) : Prop :=
  TestedAs x.env x.f p below x.sub x.right x.line o m m' ∧ Through p below x.before x.after x.f m m'

/-- Nothing of the right operand is evaluated. -/
def Skips (m m' : Moment) : Prop := Avoids p below x.before x.after x.f m m'

/-- The operator is evaluated, from one moment of a call to another, and yields the value `w`. The right
operand is evaluated if and only if the left one does not decide, and the value is the connective of the
truth values of the operands. -/
inductive Evaluates (w : Value) (m m' : Moment) : Prop
  /-- The left operand decides, whatever the right one is. -/
  | decided {m₁ : Moment} (hleft : x.Left p below (.ok !x.and) m m₁) (hskips : x.Skips p below m₁ m')
      (htruth : ∀ r, w.truthAt p m' = .ok (connect x.and (!x.and) r))
  | both {m₁ m₂ m₃ : Moment} {r : Except RunError Bool} (hleft : x.Left p below (.ok x.and) m m₁)
      (hskips : x.Skips p below m₁ m₂) (hright : x.Right p below r m₂ m₃) (hskips' : x.Skips p below m₃ m')
      (htruth : w.truthAt p m' = r.map (connect x.and x.and))

/-- The operator is being evaluated, since one moment of a call until another. -/
inductive Underway (m m' : Moment) : Prop
  | left (h : Begins x.env x.f p below (truth x.sub x.left x.line) m m') (hskips : x.Skips p below m m')
  | decided {m₁ : Moment} (hleft : x.Left p below (.ok !x.and) m m₁) (hskips : x.Skips p below m₁ m')
  | right {m₁ m₂ : Moment} (hleft : x.Left p below (.ok x.and) m m₁) (hskips : x.Skips p below m₁ m₂)
      (h : Begins x.env x.f p below (truth x.sub x.right x.line) m₂ m')
  | both {m₁ m₂ m₃ : Moment} {r : Except RunError Bool} (hleft : x.Left p below (.ok x.and) m m₁)
      (hskips : x.Skips p below m₁ m₂) (hright : x.Right p below r m₂ m₃) (hskips' : x.Skips p below m₃ m')

/-- What a call has done that came to the operator earlier. It is evaluating the operator, and does not return
here, or it has evaluated it, and got to the spot `Q` behind its code. -/
def Follows (w : Value) (Q : Spot) (m m' : Moment) : Prop :=
  (x.Underway p below m m' ∧ ¬ x.f.ReturnsAt m'.spot) ∨
    ∃ m₁, x.Evaluates p below w m m₁ ∧ m₁.spot = Q ∧ Reaches p below m₁ m'

/-- In every run of a program that has the function, each call of it that gets to the spot `P` evaluates the
operator, as long as the call has not returned. -/
def IsEvaluatedFrom (P : Spot) (w : Value) (Q : Spot) : Prop :=
  ∀ p i, p.module.function? i = some x.f → ∀ args depth w₀ w₁ a,
    Exec.run (enter p i args depth) w₀ = (.ok (.inr a), w₁) →
    ∀ below m, Reaches p below ⟨w₁, a⟩ m → m.spot = P →
    ∀ k, Relation.ReflTransGen (StayingStep p below) (m.machine below) k →
      ∃ m', During p below m' k ∧ x.Follows p below w Q m m'

end ShortCircuit

/-- It is enough to look at the passes of a call. -/
theorem ShortCircuit.isEvaluatedFrom_of_passes {x : ShortCircuit} {P Q : Spot} {w : Value}
    (h : ∀ {p below n m m'}, Moment.IsIn m p x.f → m.spot = P → Passes p below n m m' →
      x.Follows p below w Q m m') : x.IsEvaluatedFrom P w Q :=
  Function.onCalls_of_passes h

theorem connect_decided (and r : Bool) : connect and (!and) r = !and := by
  cases and <;> rfl

theorem map_connect (and : Bool) (r : Except RunError Bool) : r.map (connect and and) = r := by
  cases r <;> cases and <;> rfl

/-! ### Where control joins -/

section Joining

variable {x : ShortCircuit} {rb : Operand} {k l : Function} {m₁ m₂ m₃ : Moment}
  (hleads : x.after.Leads d e l) (hjoins : l.Joins e [(.const (.ofBool !x.and), c), (rb, d)] .bool op k)
  (hnew : x.after.codeAt e = []) (hf : k.Precedes x.f) (hplain : x.f.instsAt e = x.f.codeAt e)
include hleads hjoins hnew hf hplain

/-- Where control joins from the left operand, it has decided. -/
theorem follows_of_decided (hleft : x.Left p below (.ok !x.and) m m₁) (hskips : x.Skips p below m₁ m₂)
    (hm : m₂.IsIn p x.f) (hstart : m₂.spot = x.f.start e) (hprev : m₂.call.prev = some c)
    (hpasses : Passes p below n m₂ m') :
    x.Follows p below (.ofOperand op .bool) (x.f.behind k e) m m' := by
  have hfrom : [(Operand.const (.ofBool !x.and), c), (rb, d)].find? (fun s => m₂.call.prev == some s.2) =
      some (.const (.ofBool !x.and), c) := by simp [hprev]
  rcases cases_of_joins hjoins ((hleads.code e).trans hnew) hf hplain hm hstart hfrom hpasses with
    ⟨rfl, hret⟩ | ⟨n, m₃, hthrough, hend, hvalue, hpasses⟩
  · exact .inl ⟨.decided hleft hskips, hret⟩
  have hskips₃ : x.Skips p below m₂ m₃ := hthrough.avoids_earlier hleads.precedes
  refine .inr ⟨m₃, .decided hleft (hskips.trans hskips₃) fun r => ?_, hend, hpasses.reaches⟩
  rw [Value.truthAt_of_bool rfl, connect_decided]
  exact (truth?_of_joins (.inl rfl) hvalue).trans (truth?_of_beq (by cases x.and <;> rfl))

/-- Where control joins from the right operand, both have been evaluated. -/
theorem follows_of_both {r : Except RunError Bool} (hopen : x.after.termAt d = none) (hne : d ≠ c)
    (hleft : x.Left p below (.ok x.and) m m₁) (hskips : x.Skips p below m₁ m₂)
    (hright : x.Right p below r m₂ m₃) (hm : m₃.IsIn p x.f) (hend : m₃.spot = x.f.behind x.after d)
    (hr : m₃.truth? p rb = r) (hpasses : Passes p below n m₃ m') :
    x.Follows p below (.ofOperand op .bool) (x.f.behind k e) m m' := by
  rcases cases_of_leads hleads hopen (hjoins.precedes.trans hf) hm hend hpasses with
    ⟨rfl, hret⟩ | ⟨n, m₄, hthrough₄, hvalue₄, hstart, hprev, hpasses⟩
  · exact .inl ⟨.both hleft hskips hright .refl, hret⟩
  have hskips₄ : x.Skips p below m₃ m₄ := hthrough₄.avoids_earlier (.refl x.after)
  have hfrom : [(Operand.const (.ofBool !x.and), c), (rb, d)].find? (fun s => m₄.call.prev == some s.2) =
      some (rb, d) := by simp [hprev, hne]
  rcases cases_of_joins hjoins ((hleads.code e).trans hnew) hf hplain (hm.through hthrough₄) hstart hfrom
      hpasses with
    ⟨rfl, hret⟩ | ⟨n, m₅, hthrough₅, hend₅, hvalue₅, hpasses⟩
  · exact .inl ⟨.both hleft hskips hright hskips₄, hret⟩
  have hskips₅ : x.Skips p below m₄ m₅ := hthrough₅.avoids_earlier hleads.precedes
  refine .inr ⟨m₅, .both hleft hskips hright (hskips₄.trans hskips₅) ?_, hend₅, hpasses.reaches⟩
  rw [Value.truthAt_of_bool rfl, map_connect]
  exact (truth?_of_joins (.inr rfl) hvalue₅).trans ((Moment.truth?_eq (hvalue₄ rb)).trans hr)

end Joining

section Logical

variable {sub : Descent} (hsub : SproutingDescent sub) {left right : ExprId} {u : State} {lb : Operand}
  {and : Bool}
include hsub

/-- Where the left operand is known in advance, and does not decide, the right one is all that is left. -/
theorem isEvaluatedFrom_of_known (hs : s.builder.At id g c) (hleft : truth sub left line env s = (.done lb, u))
    (hdefinite : ∀ p m, Moment.truth? p m lb = .ok and) (hright : truth sub right line env u = (.done rb, t)) :
    ∃ k d, t.builder.At id k d ∧ ∀ f, k.Precedes f → (∀ b, ¬ g.Has b → f.instsAt b = f.codeAt b) →
      ∃ before after P R, CodeOf env f (truth sub right line) rb before after P R ∧
        ShortCircuit.IsEvaluatedFrom ⟨env, f, sub, and, left, right, line, before, after⟩ (f.behind g c)
          (.ofOperand rb .bool) (f.behind k d) := by
  obtain ⟨k₁, c₁, hu, hsprouts₁, hcases₁⟩ := exists_cases_of_truth hsub hs hleft
  obtain ⟨k, d, ht, hsprouts, hcases⟩ := exists_cases_of_truth hsub hu hright
  refine ⟨k, d, ht, fun f hf hplain => ?_⟩
  obtain ⟨-, hcases₁⟩ := hcases₁ f (hsprouts.precedes.trans hf) hplain
  obtain ⟨hcode, hcases⟩ := hcases f hf fun b hb => hplain b fun hold => hb (hsprouts₁.precedes.has b hold)
  refine ⟨k₁, k, _, _, hcode, ShortCircuit.isEvaluatedFrom_of_passes ?_⟩
  intro p below n m m' hm hspot hpasses
  rcases hcases₁ hm hspot hpasses with
    ⟨hbegins, hthrough, hret⟩ | ⟨n₁, m₁, o, htested, hthrough, hend, ho, hpasses⟩
  · exact .inl ⟨.left hbegins (hthrough.avoids_later (.refl k₁)), hret⟩
  obtain rfl : .ok and = o := (hdefinite p m₁).symm.trans ho
  have hdone := hthrough.avoids_later (l := k) (.refl k₁)
  rcases hcases (hm.through hthrough) hend hpasses with
    ⟨hbegins, hthrough₂, hret⟩ | ⟨n₂, m₂, r, htested₂, hthrough₂, hend₂, hr, hpasses⟩
  · exact .inl ⟨.right ⟨htested, hdone⟩ .refl hbegins, hret⟩
  · refine .inr ⟨m₂, .both ⟨htested, hdone⟩ .refl ⟨htested₂, hthrough₂⟩ .refl ?_, hend₂, hpasses.reaches⟩
    rw [Value.truthAt_of_bool rfl, map_connect]
    exact hr

/-- Where the left operand is not known in advance, control forks behind it, and joins again. -/
theorem isEvaluatedFrom_of_unknown (hs : s.builder.At id g c)
    (hleft : truth sub left line env s = (.done lb, u)) (hlb : lb.const?.bind Constant.truth? = none) :
    ∃ t₀ next, t₀ = { u with builder := t₀.builder } ∧
      logical sub and left right line env s = (truth sub right line >>= next) env t₀ ∧
      ∀ rb t₁, truth sub right line env t₀ = (.done rb, t₁) →
        ∃ op t k d, next rb env t₁ = (.done (.ofOperand op .bool), t) ∧ t.builder.At id k d ∧
          ∀ f, k.Precedes f → (∀ b, ¬ g.Has b → f.instsAt b = f.codeAt b) →
            ∃ before after P R, CodeOf env f (truth sub right line) rb before after P R ∧
              ShortCircuit.IsEvaluatedFrom ⟨env, f, sub, and, left, right, line, before, after⟩ (f.behind g c)
                (.ofOperand op .bool) (f.behind k d) := by
  obtain ⟨g₁, c₁, hu, hsprouts₁, hcases₁⟩ := exists_cases_of_truth hsub hs hleft
  obtain ⟨g₂, R, E, t₀, heq, ht₀, hamong, hR, hE, hforks⟩ := logical_eq and right hleft hlb ⟨hu, hsprouts₁⟩
  refine ⟨t₀, joinRight and c₁ R E line, ht₀, heq, fun rb t₁ hright => ?_⟩
  obtain ⟨g₃, d, ht₁, hsprouts₃, hcases₃⟩ := exists_cases_of_truth hsub hamong.toAt hright
  obtain ⟨op, l, k, t, hjoin, ht, hleads, hjoins⟩ := joinRight_eq and c₁ R rb line env
    ⟨ht₁, hamong.sprouts.trans hsprouts₃⟩ hE
  refine ⟨op, t, k, E, hjoin, ht.toAt, fun f hf hplain => ?_⟩
  -- The stages of the function, one after the other.
  have hf₃ : g₃.Precedes f := (hleads.precedes.trans hjoins.precedes).trans hf
  have hf₂ : g₂.Precedes f := hsprouts₃.precedes.trans hf₃
  have hf₁ : g₁.Precedes f := hforks.precedes.trans hf₂
  have hold₂ : ∀ b, g.Has b → g₂.Has b := fun b hb => hforks.precedes.has b (hsprouts₁.precedes.has b hb)
  obtain ⟨hcode₁, hcases₁⟩ := hcases₁ f hf₁ hplain
  obtain ⟨hcode₃, hcases₃⟩ := hcases₃ f hf₃ fun b hb => hplain b fun hold => hb (hold₂ b hold)
  refine ⟨g₂, g₃, _, _, hcode₃, ShortCircuit.isEvaluatedFrom_of_passes ?_⟩
  intro p below n m m' hm hspot hpasses
  -- The blocks that control gets to.
  have harms : ∀ b, b = R ∨ b = E → ¬ g₁.Has b ∧ g₂.codeAt b = [] := fun b hb =>
    hforks.arms b (by cases and <;> simpa [or_comm] using hb)
  have hnodup : R ≠ E := by simpa using hamong.sprouts.nodup
  have hcodeE : g₃.codeAt E = [] := by
    have hend := (hamong.sprouts.isEnd E (by simp)).2.1
    exact (hsprouts₃.frozen E hend hnodup.symm).1.trans (harms E (.inr rfl)).2
  have hne : d ≠ c₁ := by
    rintro rfl
    rcases (hsprouts₃.isEnd d List.mem_cons_self).1 with rfl | hnew
    · exact (harms d (.inl rfl)).1 hu.has
    · exact hnew (hforks.precedes.has d hu.has)
  rcases hcases₁ hm hspot hpasses with
    ⟨hbegins, hthrough, hret⟩ | ⟨n₁, m₁, o, htested, hthrough₁, hend₁, ho, hpasses⟩
  · exact .inl ⟨.left hbegins (hthrough.avoids_later hforks.precedes), hret⟩
  have hm₁ := hm.through hthrough₁
  have hskips₁ : Avoids p below g₂ g₃ f m m₁ := hthrough₁.avoids_later hforks.precedes
  rcases cases_of_forks hforks hu.isOpen hf₂ hm₁ hend₁ hpasses with
    ⟨rfl, hret⟩ | ⟨holds, n₂, m₂, hlbTruth, hthrough₂, hstart₂, hprev₂, hpasses⟩
  · exact .inl ⟨.left ⟨lb, g, g₁, _, hspot ▸ hcode₁, hthrough₁⟩ hskips₁, hret⟩
  have hm₂ := hm₁.through hthrough₂
  have hskips₂ : Avoids p below g₂ g₃ f m₁ m₂ := hthrough₂.avoids_later (.refl g₂)
  obtain rfl : o = .ok holds := ho.symm.trans hlbTruth
  by_cases hholds : holds = and
  · -- The left operand does not decide.
    subst hholds
    have hstartR : m₂.spot = f.behind g₂ R := by
      refine (hstart₂.trans ?_).trans (Function.start_eq_behind (harms R (.inl rfl)).2 (hplain R hR))
      cases holds <;> rfl
    rcases hcases₃ hm₂ hstartR hpasses with
      ⟨hbegins, -, hret⟩ | ⟨n₃, m₃, r, hright₃, hthrough₃, hend₃, hr, hpasses⟩
    · exact .inl ⟨.right ⟨htested, hskips₁⟩ hskips₂ hbegins, hret⟩
    exact follows_of_both hleads hjoins hcodeE hf (hplain E hE) ht₁.isOpen hne ⟨htested, hskips₁⟩ hskips₂
      ⟨hright₃, hthrough₃⟩ (hm₂.through hthrough₃) hend₃ hr hpasses
  · -- The left operand decides.
    obtain rfl : holds = !and := Bool.eq_not.2 hholds
    have hstartE : m₂.spot = f.start E := hstart₂.trans (by cases and <;> rfl)
    exact follows_of_decided hleads hjoins hcodeE hf (hplain E hE) ⟨htested, hskips₁⟩ hskips₂ hm₂ hstartE hprev₂
      hpasses

end Logical

/-- An expression that is there is found. -/
theorem expr_of_expr? {env : Env} {e : ExprId} {x : Expr} (s : State) (he : env.tree.expr? e = some x) :
    expr e env s = (.done x, s) := by
  show present (.expr e) (env.tree.expr? e) env s = _
  rw [he]
  rfl

/-- A binary operator at a handle is lowered as such. -/
theorem raw_logical {depth : Nat} {env : Env} {e left right : ExprId} {and : Bool} {ln : UInt32} (s : State)
    (he : env.tree.expr? e = some ⟨.binary (if and then .logicalAnd else .logicalOr) left right, ln⟩) :
    (descentTo (depth + 1)).raw e env s = logical (descentTo depth) and left right ln.toNat env s := by
  show rawWith (descentTo depth) e env s = _
  rw [rawWith, bind_run (expr_of_expr? s he)]
  cases and <;> rfl

/-- The cursor of a site whose block is open. -/
theorem Site.at_openBlock {x : Site} (hc : x.openBlock = some c) : x.state.builder.At x.id x.function c where
  builds := x.builds
  block := (Site.openBlock_eq_some_iff.1 hc).1
  has := Site.has_openBlock hc
  isOpen := (Site.openBlock_eq_some_iff.1 hc).2
  whole := x.wellFormed.whole
  has_entry _ he := x.wellFormed.has_entry he

/-- What the function that a body is lowered to is in the end, seen from a place on the way. -/
theorem Place.EndsBody.precedes {x q r : Place} (h : q.EndsBody r) (hxq : x.Continues q) :
    x.function.Precedes r.function ∧ ∀ b, ¬ x.function.Has b → r.function.instsAt b = r.function.codeAt b := by
  have hr := h.becomes
  refine ⟨hxq.ext.precedes.trans hr.precedes, fun b hb => hr.plain b fun he => hb (x.wellFormed.has_entry ?_)⟩
  rw [← hxq.ext.entry, ← hr.entry]
  exact he

/-- The tree of `"s" && "s"`. -/
def testingTree : Tree where
  exprs := #[⟨.str "s", 1⟩, ⟨.binary .logicalAnd ⟨0⟩ ⟨0⟩, 1⟩]

/-- A function with one block, where nothing has been written. -/
def testingFunction : Function :=
  { name := "test", sig := ⟨.bool, [], false⟩, linkage := .external : Function }.newBlock.2

/-- The state at that block. -/
def testingStart : State :=
  { State.initial {} with
    builder := ⟨{ name := "", functions := #[testingFunction] }, some ⟨0⟩, some ⟨0⟩⟩ }

theorem testingStart_at : testingStart.builder.At ⟨0⟩ testingFunction ⟨0⟩ where
  builds := ⟨rfl, rfl⟩
  block := rfl
  has := Nat.zero_lt_one
  isOpen := rfl
  whole := Function.Whole.addBlock (f := ⟨_, _, _, #[], [], #[]⟩) fun _ _ hx => nomatch hx
  has_entry _ he := Option.some.inj he ▸ Nat.zero_lt_one

end Lower

end TreeFlow
