import TreeFlow.Proofs.Tree.Execution

/-!
# Performing statements

What its conditions come to determines what a statement does. `Tree.perform` does it, step by step, when it
is told the outcomes of the conditions beforehand. What it does is a run (`Tree.executes_perform`), and
every run is performed for its own outcomes, so far as it has come (`Tree.Executes.performed`). So two runs
of a statement for which the conditions come to the same only differ in how far they have come.
-/

namespace TreeFlow

/-- What a condition came to. -/
def Event.outcome? : Event → Option Bool
  | .test _ holds => some holds
  | .value _ | .declare _ | .operand _ => none

/-- What the conditions came to, in the order in which they were asked. -/
def outcomes (tr : List Event) : List Bool := tr.filterMap Event.outcome?

@[simp] theorem outcomes_append (tr tr' : List Event) : outcomes (tr ++ tr') = outcomes tr ++ outcomes tr' :=
  List.filterMap_append

@[simp] theorem outcomes_test (e : ExprId) (holds : Bool) (tr : List Event) :
    outcomes (.test e holds :: tr) = holds :: outcomes tr := rfl

@[simp] theorem outcomes_declare (d : DeclaratorId) (tr : List Event) :
    outcomes (.declare d :: tr) = outcomes tr := rfl

/-- Does a sequence go on behind a job that is left so? -/
def Ending.isNormal : Ending → Bool
  | .normal => true
  | .brk | .cont | .ret _ | .cut => false

theorem Ending.eq_normal {x : Ending} (h : x.isNormal = true) : x = .normal := by
  cases x <;> trivial

theorem Ending.isNormal_eq_false {x : Ending} : x.isNormal = false ↔ x ≠ .normal := by
  cases x <;> simp [isNormal]

theorem Ending.ne_cut_of_goesOn {x : Ending} (h : x.goesOn = true) : x ≠ .cut := by
  rintro rfl
  exact Bool.false_ne_true h

namespace Tree

@[simp] theorem outcomes_stepping (step : Option ExprId) : outcomes (stepping step) = [] := by
  cases step <;> rfl

@[simp] theorem outcomes_operands (value : Option ExprId) :
    outcomes (value.toList.map Event.operand) = [] := by
  cases value <;> rfl

/-! ### Performances -/

/-- What was done when outcomes were given. -/
structure Performance where
  events : List Event
  /-- Cut, if there were not enough outcomes, or not enough steps. -/
  ending : Ending
  /-- The outcomes that nothing asked for. -/
  unused : List Bool
  deriving DecidableEq, Repr

namespace Performance

/-- Something was done before. -/
def after (tr : List Event) (r : Performance) : Performance := { r with events := tr ++ r.events }

/-- What comes next is done if the job was left so that it `goes` on there. Else the whole is left. -/
def andThen (r : Performance) (goes : Ending → Bool) (leave : Ending → Ending)
    (next : List Bool → Performance) : Performance :=
  if goes r.ending then (next r.unused).after r.events else { r with ending := leave r.ending }

/-- A condition takes the next outcome. -/
def asking (cond : ExprId) (next : Bool → List Bool → Performance) : List Bool → Performance
  | [] => ⟨[], .cut, []⟩
  | holds :: o => (next holds o).after [.test cond holds]

end Performance

/-- Does a job, in so many steps at most, for outcomes of the conditions that are given. -/
def perform (t : Tree) : Nat → Job → List Bool → Performance
  | 0, _, o => ⟨[], .cut, o⟩
  | n + 1, .stmt id, o =>
    match t.stmt? id with
    | some ⟨.expression e, _⟩ => ⟨[.value e], .normal, o⟩
    | some ⟨.block body, _⟩ => perform t n (.seq body) o
    | some ⟨.branch cond yes no, _⟩ =>
      .asking cond (fun holds => perform t n (if holds then .stmt yes else .seq no.toList)) o
    | some ⟨.whileLoop cond body, _⟩ => perform t n (.loop (some cond) none body) o
    | some ⟨.forLoop init cond step body, _⟩ =>
      (perform t n (.seq init.toList) o).andThen Ending.isNormal (fun x => x)
        (perform t n (.loop cond step body))
    | some ⟨.ret value, _⟩ => ⟨value.toList.map .operand, .ret id, o⟩
    | some ⟨.brk, _⟩ => ⟨[], .brk, o⟩
    | some ⟨.cont, _⟩ => ⟨[], .cont, o⟩
    | some ⟨.variable decl, _⟩ => perform t n (.declarators decl.declarators) o
    | _ => ⟨[], .cut, o⟩
  | _ + 1, .seq [], o => ⟨[], .normal, o⟩
  | n + 1, .seq (id :: rest), o =>
    (perform t n (.stmt id) o).andThen Ending.isNormal (fun x => x) (perform t n (.seq rest))
  | _ + 1, .declarators [], o => ⟨[], .normal, o⟩
  | n + 1, .declarators (d :: rest), o => (perform t n (.declarators rest) o).after [.declare d]
  | n + 1, .loop none step body, o =>
    (perform t n (.stmt body) o).andThen Ending.goesOn Ending.ofLoop (perform t n (.next none step body))
  | n + 1, .loop (some cond) step body, o =>
    .asking cond (fun holds o =>
      if holds then
        (perform t n (.stmt body) o).andThen Ending.goesOn Ending.ofLoop
          (perform t n (.next (some cond) step body))
      else ⟨[], .normal, o⟩) o
  | n + 1, .next cond step body, o => (perform t n (.loop cond step body) o).after (stepping step)

/-! ### What is performed is a run -/

namespace Performance

variable {P : List Event → Ending → Prop} {r : Performance} {goes : Ending → Bool} {leave : Ending → Ending}
  {next : List Bool → Performance}

theorem andThen_induction
    (hgoes : goes r.ending = true → P (r.events ++ (next r.unused).events) (next r.unused).ending)
    (hleaves : goes r.ending = false → P r.events (leave r.ending)) :
    P (r.andThen goes leave next).events (r.andThen goes leave next).ending := by
  rw [andThen]
  split
  · next h => exact hgoes h
  · next h => exact hleaves (Bool.not_eq_true _ ▸ h)

theorem asking_induction {cond : ExprId} {next : Bool → List Bool → Performance} (o : List Bool)
    (hcut : P [] .cut)
    (hasked : ∀ holds o, P (.test cond holds :: (next holds o).events) (next holds o).ending) :
    P (asking cond next o).events (asking cond next o).ending := by
  cases o with
  | nil => exact hcut
  | cons holds o => exact hasked holds o

end Performance

variable {t : Tree} {job : Job} {tr : List Event} {x : Ending}

/-- What is performed is a run. -/
theorem executes_perform (t : Tree) (n : Nat) (job : Job) (o : List Bool) :
    Executes t job (t.perform n job o).events (t.perform n job o).ending := by
  induction n generalizing job o with
  | zero => exact .cut job
  | succ n ih =>
    cases job with
    | stmt id =>
      rw [perform]
      cases h : t.stmt? id with
      | none => exact .cut _
      | some stmt =>
        obtain ⟨kind, line⟩ := stmt
        cases kind with
        | expression e => exact .expression h
        | block body => exact .block h (ih _ o)
        | branch cond yes no =>
          refine Performance.asking_induction o (.cut _) fun holds o => ?_
          cases holds with
          | true => exact .yes h (ih _ o)
          | false => exact .no h (ih _ o)
        | whileLoop cond body => exact .whileLoop h (ih _ o)
        | forLoop init cond step body =>
          refine Performance.andThen_induction (fun hx => ?_) fun hx => ?_
          · exact .forLoop h (Ending.eq_normal hx ▸ ih _ o) (ih _ _)
          · exact .init h (ih _ o) (Ending.isNormal_eq_false.1 hx)
        | ret value => exact .ret h
        | brk => exact .brk h
        | cont => exact .cont h
        | «variable» decl => exact .declaration h (ih _ o)
        | _ => exact .cut _
    | seq ids =>
      cases ids with
      | nil => exact .seqNil
      | cons id rest =>
        refine Performance.andThen_induction (fun hx => ?_) fun hx => ?_
        · exact .seqCons (Ending.eq_normal hx ▸ ih _ o) (ih _ _)
        · exact .seqLeft (ih _ o) (Ending.isNormal_eq_false.1 hx)
    | declarators ds =>
      cases ds with
      | nil => exact .declaratorsNil
      | cons d rest => exact .declaratorsCons (ih _ o)
    | loop cond step body =>
      cases cond with
      | none =>
        refine Performance.andThen_induction (fun hx => ?_) fun hx => ?_
        · exact .round (ih _ o) hx (ih _ _)
        · exact .last (ih _ o) hx
      | some cond =>
        refine Performance.asking_induction o (.cut _) fun holds o => ?_
        cases holds with
        | false => exact .stop
        | true =>
          refine Performance.andThen_induction
            (P := fun tr x => Executes t (.loop (some cond) step body) (.test cond true :: tr) x)
            (fun hx => ?_) fun hx => ?_
          · exact .round (ih _ o) hx (ih _ _)
          · exact .last (ih _ o) hx
    | next cond step body => exact .next (ih _ o)

/-! ### Every run is performed -/

/-- A run is a part of what was done, and all of it if the job was left. Then some outcomes were not asked
for. -/
structure Performance.Covers (r : Performance) (tr : List Event) (x : Ending) (o : List Bool) : Prop where
  events : tr <+: r.events
  all : x ≠ .cut → r = ⟨tr, x, o⟩

namespace Performance.Covers

variable {r : Performance} {tr' : List Event} {x y : Ending} {o : List Bool}

theorem cut : r.Covers [] .cut o := ⟨List.nil_prefix, fun h => absurd rfl h⟩

theorem self : (⟨tr, x, o⟩ : Performance).Covers tr x o := ⟨List.prefix_rfl, fun _ => rfl⟩

theorem after (h : r.Covers tr x o) (tr' : List Event) : (r.after tr').Covers (tr' ++ tr) x o where
  events := (List.prefix_append_right_inj tr').2 h.events
  all hx := congrArg (Performance.after tr') (h.all hx)

variable {goes : Ending → Bool} {leave : Ending → Ending} {next : List Bool → Performance} {o' : List Bool}

theorem andThen (h : r.Covers tr x o) (hx : x ≠ .cut) (hgoes : goes x = true)
    (hnext : (next o).Covers tr' y o') : (r.andThen goes leave next).Covers (tr ++ tr') y o' := by
  rw [h.all hx, Performance.andThen, if_pos hgoes]
  exact hnext.after tr

theorem left (h : r.Covers tr x o) (hgoes : goes x = false) (hleave : leave .cut = .cut) :
    (r.andThen goes leave next).Covers tr (leave x) o where
  events := by
    rw [Performance.andThen]
    split
    · exact h.events.trans (List.prefix_append _ _)
    · exact h.events
  all hx := by
    have hcut : x ≠ .cut := by
      rintro rfl
      exact hx hleave
    rw [h.all hcut, Performance.andThen, if_neg (Bool.eq_false_iff.1 hgoes)]

end Performance.Covers

/-- In enough steps, a run is performed for its outcomes, whatever other outcomes come behind them. -/
def Performs (t : Tree) (job : Job) (tr : List Event) (x : Ending) : Prop :=
  ∃ N, ∀ n, N ≤ n → ∀ o, (t.perform n job (outcomes tr ++ o)).Covers tr x o

theorem Performs.succ {N : Nat}
    (h : ∀ n, N ≤ n → ∀ o, (t.perform (n + 1) job (outcomes tr ++ o)).Covers tr x o) :
    t.Performs job tr x := by
  refine ⟨N + 1, fun n hn o => ?_⟩
  cases n with
  | zero => exact absurd hn (Nat.not_succ_le_zero N)
  | succ n => exact h n (Nat.le_of_succ_le_succ hn) o

theorem Performs.of_const (h : ∀ n o, (t.perform (n + 1) job (outcomes tr ++ o)).Covers tr x o) :
    t.Performs job tr x :=
  .succ fun n (_ : 0 ≤ n) o => h n o

/-- A job that consists of one other job. -/
theorem Performs.of_job {job' : Job} {tr' : List Event} {x' : Ending} (h : t.Performs job tr x)
    (hjob : ∀ n o, (t.perform n job (outcomes tr ++ o)).Covers tr x o →
      (t.perform (n + 1) job' (outcomes tr' ++ o)).Covers tr' x' o) : t.Performs job' tr' x' := by
  obtain ⟨N, h⟩ := h
  exact .succ fun n hn o => hjob n o (h n hn o)

/-- A job that consists of two other jobs, one after the other. -/
theorem Performs.of_jobs {job₁ job₂ : Job} {tr₁ tr₂ : List Event} {x₁ x₂ : Ending}
    (h₁ : t.Performs job₁ tr₁ x₁) (h₂ : t.Performs job₂ tr₂ x₂)
    (hjobs : ∀ n o, (t.perform n job₁ (outcomes tr₁ ++ (outcomes tr₂ ++ o))).Covers tr₁ x₁ (outcomes tr₂ ++ o) →
      (t.perform n job₂ (outcomes tr₂ ++ o)).Covers tr₂ x₂ o →
        (t.perform (n + 1) job (outcomes tr ++ o)).Covers tr x o) : t.Performs job tr x := by
  obtain ⟨N, h₁⟩ := h₁
  obtain ⟨M, h₂⟩ := h₂
  refine .succ (N := max N M) fun n hn o => ?_
  exact hjobs n o (h₁ n (Nat.le_trans (Nat.le_max_left N M) hn) _)
    (h₂ n (Nat.le_trans (Nat.le_max_right N M) hn) o)

/-- Every run is performed for its outcomes. -/
theorem Executes.performed (h : Executes t job tr x) : t.Performs job tr x := by
  induction h with
  | cut job => exact ⟨0, fun n _ o => .cut⟩
  | atEnd _ ih =>
    obtain ⟨N, ih⟩ := ih
    exact ⟨N, fun n hn o => ⟨(ih n hn o).events, fun hx => absurd rfl hx⟩⟩
  | expression h => exact .of_const fun n o => by simpa only [perform, h] using .self
  | block h _ ih => exact ih.of_job fun n o hbody => by simpa only [perform, h] using hbody
  | yes h _ ih =>
    refine ih.of_job fun n o hyes => ?_
    simp only [perform, h]
    exact hyes.after [_]
  | no h _ ih =>
    refine ih.of_job fun n o hno => ?_
    simp only [perform, h]
    exact hno.after [_]
  | whileLoop h _ ih => exact ih.of_job fun n o hloop => by simpa only [perform, h] using hloop
  | forLoop h _ _ ihinit ihloop =>
    refine ihinit.of_jobs ihloop fun n o hinit hloop => ?_
    rw [outcomes_append, List.append_assoc]
    simpa only [perform, h] using hinit.andThen nofun rfl hloop
  | init h _ hx ih =>
    refine ih.of_job fun n o hinit => ?_
    simpa only [perform, h] using hinit.left (Ending.isNormal_eq_false.2 hx) rfl
  | ret h =>
    refine .of_const fun n o => ?_
    rw [outcomes_operands]
    simpa only [perform, h] using .self
  | brk h => exact .of_const fun n o => by simpa only [perform, h] using .self
  | cont h => exact .of_const fun n o => by simpa only [perform, h] using .self
  | declaration h _ ih => exact ih.of_job fun n o hdecl => by simpa only [perform, h] using hdecl
  | seqNil => exact .of_const fun n o => .self
  | seqCons _ _ ihfirst ihrest =>
    refine ihfirst.of_jobs ihrest fun n o hfirst hrest => ?_
    rw [outcomes_append, List.append_assoc]
    exact hfirst.andThen nofun rfl hrest
  | seqLeft _ hx ih => exact ih.of_job fun n o hfirst => hfirst.left (Ending.isNormal_eq_false.2 hx) rfl
  | declaratorsNil => exact .of_const fun n o => .self
  | declaratorsCons _ ih => exact ih.of_job fun n o hrest => hrest.after [_]
  | stop => exact .of_const fun n o => .self
  | @last cond _ _ _ _ _ hx ih =>
    refine ih.of_job fun n o hbody => ?_
    cases cond with
    | none => exact hbody.left hx rfl
    | some cond => exact (hbody.left hx rfl).after [_]
  | @round cond _ _ _ _ _ _ _ hx _ ihbody ihnext =>
    refine ihbody.of_jobs ihnext fun n o hbody hnext => ?_
    have hcut := Ending.ne_cut_of_goesOn hx
    rw [outcomes_append, List.append_assoc]
    cases cond with
    | none => exact hbody.andThen hcut hx hnext
    | some cond => exact (hbody.andThen hcut hx hnext).after [_]
  | next _ ih =>
    refine ih.of_job fun n o hloop => ?_
    rw [outcomes_append, outcomes_stepping]
    exact hloop.after _

end Tree

end TreeFlow
