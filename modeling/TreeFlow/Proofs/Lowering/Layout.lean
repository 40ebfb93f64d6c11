import TreeFlow.Lower.Statement
import TreeFlow.Proofs.Graph.Cursor
import TreeFlow.Proofs.Machine.Region
import TreeFlow.Proofs.Tree.Execution

/-!
# Structured statements in a function

How the code of structured statements lies in a function (`Lower.Laid`): which regions hold the code of
the expressions, and how the blocks around them are closed. Nothing is said here of how the code got
there.

From the layout it follows what a call does that gets to the beginning of a statement
(`Lower.Laid.explained`): it runs through the code of one expression after the other, in the order of
some execution of the statement, and takes no other way than the jumps in between. It does not return
before the execution says so.
-/

namespace TreeFlow

/-- The spot in the function `f` that a builder has got to with an earlier stage of it, if the block at
the cursor is open. -/
def Builder.spot? (b : Builder) (f : Function) : Option Spot :=
  b.function?.bind fun g => (g.openAt b.block).map (f.behind g)

namespace Lower

open Machine Tree

variable {α : Type} {env : Env} {f g h : Function} {p : Program} {below : List Activation}
  {m m' m₀ m₁ m₂ : Moment} {n k : Nat} {tr tr' : List Event} {ev : Event} {x : Ending}
  {L : Option LoopTargets} {P Q R : Spot} {b c d e : BlockId}

/-! ### Code of steps -/

/-- The code that a step of lowering wrote to the stage `g` of a function, which led to the stage `h`.
It begins at one spot of the function and ends at another one. -/
def CodeOf (env : Env) (f : Function) (step : Lower α) (a : α) (g h : Function) (P Q : Spot) : Prop :=
  ∃ s t, step env s = (.done a, t) ∧ s.builder.function? = some g ∧ t.builder.function? = some h ∧
    h.Precedes f ∧ s.builder.spot? f = some P ∧ t.builder.spot? f = some Q

/-- The terminator at a spot was written by a step of lowering. -/
def ClosedBy (env : Env) (f : Function) (step : Lower α) (sp : Spot) : Prop :=
  sp.rest = [] ∧ ∃ a s t g h, step env s = (.done a, t) ∧ s.builder.function? = some g ∧
    t.builder.function? = some h ∧ h.Precedes f ∧ g.WroteAt h f sp

/-- A declarator of an automatic variable. -/
def declareLocal (d : DeclaratorId) (base : Ty) : Lower Unit := do
  declareOne .normal (← resolveDeclarator .normal d base)

/-! ### What a call does -/

/-- A call runs through the code that a step of lowering wrote, from its beginning to its end. -/
def Crosses (env : Env) (f : Function) (p : Program) (below : List Activation) (step : Lower α) (a : α)
    (m m' : Moment) : Prop :=
  ∃ g h, CodeOf env f step a g h m.spot m'.spot ∧ Through p below g h f m m'

/-- A call is in the code that a step of lowering wrote, having begun at its beginning. -/
def Begins (env : Env) (f : Function) (p : Program) (below : List Activation) (step : Lower α)
    (m m' : Moment) : Prop :=
  ∃ a g h Q, CodeOf env f step a g h m.spot Q ∧ Through p below g h f m m'

/-- A call takes a jump that depends on nothing. -/
def Jumps (f : Function) (p : Program) (below : List Activation) (m m' : Moment) : Prop :=
  Pass p below m m' ∧ m.call.rest = [] ∧ ∃ b, f.termAt m.call.block = some (.goto b)

/-- A call takes a jump that depends on whether the value of an operand is true. -/
def Decides (f : Function) (p : Program) (below : List Activation) (c : Operand) (holds : Bool)
    (m m' : Moment) : Prop :=
  Pass p below m m' ∧ m.call.rest = [] ∧ ∃ yes no v, f.termAt m.call.block = some (.branch c yes no) ∧
    operand p m.world.globals m.call c = .ok v ∧ v.truth? = .ok holds ∧
    m'.spot = f.start (if holds then yes else no)

/-- Something is evaluated, from one moment of a call to another. -/
def Happens (env : Env) (f : Function) (p : Program) (below : List Activation) (m m' : Moment) :
    Event → Prop
  | .value e => ∃ v, Crosses env f p below (rvalue e) v m m'
  | .test e holds => ∃ line c m₁,
      Crosses env f p below (descend fun sub => truth sub e line) c m m₁ ∧
        Decides f p below c holds m₁ m'
  | .declare d => ∃ base, Crosses env f p below (declareLocal d base) () m m'
  | .operand e => ∃ ty line o, Crosses env f p below (returned (some e) ty line) o m m'

/-- Something is being evaluated, since one moment of a call until another. -/
def IsUnderway (env : Env) (f : Function) (p : Program) (below : List Activation) (m m' : Moment) :
    Event → Prop
  | .value e => Begins env f p below (rvalue e) m m'
  | .test e _ => ∃ line, Begins env f p below (descend fun sub => truth sub e line) m m'
  | .declare d => ∃ base, Begins env f p below (declareLocal d base) m m'
  | .operand e => ∃ ty line, Begins env f p below (returned (some e) ty line) m m'

/-- From one moment of a call to another, some things are evaluated, one after the other. In between
there are only jumps. -/
inductive Traces (env : Env) (f : Function) (p : Program) (below : List Activation) :
    List Event → Moment → Moment → Prop
  | nil (m : Moment) : Traces env f p below [] m m
  | jump {tr : List Event} {m m' m'' : Moment} (h : Jumps f p below m m')
      (rest : Traces env f p below tr m' m'') : Traces env f p below tr m m''
  | event {ev : Event} {tr : List Event} {m m' m'' : Moment} (h : Happens env f p below m m' ev)
      (rest : Traces env f p below tr m' m'') : Traces env f p below (ev :: tr) m m''

theorem Crosses.reaches {step : Lower α} {a : α} (hc : Crosses env f p below step a m m') :
    Reaches p below m m' := by
  obtain ⟨g, h, -, hthrough⟩ := hc
  exact hthrough.reaches

theorem Crosses.func {step : Lower α} {a : α} (hc : Crosses env f p below step a m m') :
    m'.call.func = m.call.func := hc.reaches.func

theorem Happens.reaches (hev : Happens env f p below m m' ev) : Reaches p below m m' := by
  cases ev with
  | value e =>
    obtain ⟨v, hc⟩ := hev
    exact hc.reaches
  | test e holds =>
    obtain ⟨line, c, m₁, hc, hdecides⟩ := hev
    exact Relation.ReflTransGen.tail hc.reaches hdecides.1
  | declare d =>
    obtain ⟨base, hc⟩ := hev
    exact hc.reaches
  | operand e =>
    obtain ⟨ty, line, o, hc⟩ := hev
    exact hc.reaches

namespace Traces

theorem reaches (ht : Traces env f p below tr m m') : Reaches p below m m' := by
  induction ht with
  | nil => exact .refl
  | jump hjump _ ih => exact .head hjump.1 ih
  | event hev _ ih => exact Relation.ReflTransGen.trans hev.reaches ih

theorem func (ht : Traces env f p below tr m m') : m'.call.func = m.call.func := ht.reaches.func

theorem trans (ht : Traces env f p below tr m m₁) (ht' : Traces env f p below tr' m₁ m') :
    Traces env f p below (tr ++ tr') m m' := by
  induction ht with
  | nil => exact ht'
  | jump hjump _ ih => exact .jump hjump (ih ht')
  | event hev _ ih => exact .event hev (ih ht')

theorem of_jump (hj : Jumps f p below m m') : Traces env f p below [] m m' := .jump hj (.nil _)

theorem of_event (hev : Happens env f p below m m' ev) : Traces env f p below [ev] m m' :=
  .event hev (.nil _)

end Traces

/-! ### Where a statement leads -/

/-- The spot that control gets to when a statement is left, given the loop around it and where the code
of the statement ends. -/
def Arrives (env : Env) (f : Function) (L : Option LoopTargets) (Q : Option Spot) (sp : Spot) :
    Ending → Prop
  | .normal => Q = some sp
  | .brk => ∃ T, L = some T ∧ sp = f.start T.brk
  | .cont => ∃ T, L = some T ∧ sp = f.start T.cont
  | .ret id => ∃ value line, env.tree.stmt? id = some ⟨.ret value, line⟩ ∧
      ClosedBy env f (ret value line.toNat) sp ∧ ∃ op, f.termAt sp.block = some (.ret op)
  | .cut => False

/-- What a call has done until some moment, as far as it can be told from the executions `E` and from
where they arrive: it has come so far in one of them and does not return here, or to the end of one and
then some passes further. -/
def Explained (env : Env) (f : Function) (p : Program) (below : List Activation)
    (E : List Event → Ending → Prop) (A : Spot → Ending → Prop) (n : Nat) (m m' : Moment) : Prop :=
  (∃ tr m₁, E tr .cut ∧ Traces env f p below tr m m₁ ∧ ¬ f.ReturnsAt m'.spot ∧
    (m₁ = m' ∨ ∃ ev, E (tr ++ [ev]) .cut ∧ IsUnderway env f p below m₁ m' ev)) ∨
  ∃ tr x m₁ k, E tr x ∧ Traces env f p below tr m m₁ ∧ A m₁.spot x ∧ k ≤ n ∧ Passes p below k m₁ m'

namespace Explained

variable {E E' : List Event → Ending → Prop} {A A' : Spot → Ending → Prop}

/-- Where a call stands still, nothing has to be explained. -/
theorem stay (hcut : E tr .cut) (ht : Traces env f p below tr m m') (hret : ¬ f.ReturnsAt m'.spot) :
    Explained env f p below E A n m m' := .inl ⟨tr, m', hcut, ht, hret, .inl rfl⟩

/-- What a call does while an execution goes on with other ones, `E`. -/
theorem bind (hin : Explained env f p below E A k m m') (ht : Traces env f p below tr m₀ m)
    (hcut : ∀ tr', E tr' .cut → E' (tr ++ tr') .cut)
    (hdone : ∀ tr' x m₁ j, E tr' x → Traces env f p below (tr ++ tr') m₀ m₁ → A m₁.spot x → j ≤ k →
      Passes p below j m₁ m' → Explained env f p below E' A' n m₀ m') :
    Explained env f p below E' A' n m₀ m' := by
  rcases hin with ⟨tr', m₁, hE, ht', hret, hlast⟩ | ⟨tr', x, m₁, j, hE, ht', hA, hj, hrest⟩
  · refine .inl ⟨tr ++ tr', m₁, hcut _ hE, ht.trans ht', hret, hlast.imp_right ?_⟩
    rintro ⟨ev, hev, hunderway⟩
    exact ⟨ev, by rw [List.append_assoc]; exact hcut _ hev, hunderway⟩
  · exact hdone tr' x m₁ j hE (ht.trans ht') hA hj hrest

end Explained

/-! ### Layouts -/

/-- The code of a step is a region of the function. -/
def Region (env : Env) (f : Function) (step : Lower α) (a : α) (P Q : Spot) : Prop :=
  ∃ g h c d, CodeOf env f step a g h P Q ∧ g.Encloses h f c d ∧ P = f.behind g c ∧ Q = f.behind h d

/-- Control that gets to a spot, if it ever does, goes on at the beginning of a block. -/
def Joins (f : Function) (sp : Option Spot) (b : BlockId) : Prop :=
  ∀ P, sp = some P → P = f.start b ∨ P.rest = [] ∧ f.termAt P.block = some (.goto b)

/-- The condition of a loop, in front of a round that begins at the block `b`. Without a condition the
round always begins. -/
def Tests (env : Env) (f : Function) (cond : Option ExprId) (t b e : BlockId) : Prop :=
  match cond with
  | none => (f.start t).rest = [] ∧ f.termAt t = some (.goto b)
  | some c => ∃ line op R, Region env f (descend fun sub => truth sub c line) op (f.start t) R ∧
      R.rest = [] ∧ f.termAt R.block = some (.branch op b e)

/-- The step of a loop, from the block where a round goes on to the one in front of the next round. -/
def StepsTo (env : Env) (f : Function) (step : Option ExprId) (b t : BlockId) : Prop :=
  match step with
  | none => Joins f (some (f.start b)) t
  | some e => ∃ v R, Region env f (rvalue e) v (f.start b) R ∧ Joins f (some R) t

/-- The code of a `return`, which ends with its terminator. -/
def Returns (env : Env) (f : Function) (value : Option ExprId) (line : Nat) (P R : Spot) : Prop :=
  ClosedBy env f (ret value line) R ∧ (∃ op, f.termAt R.block = some (.ret op)) ∧
    match value with
    | none => R = P
    | some e => ∃ ty o, Region env f (returned (some e) ty line) o P R

/-- The code of a job lies in the function. It begins at one spot and ends at another one, and jumps to
the targets of a loop around it. A job may also begin nowhere: then control never gets there. -/
inductive Laid (env : Env) (f : Function) :
    Job → Option LoopTargets → Option Spot → Option Spot → Prop
  | dead (job : Job) (L : Option LoopTargets) (Q : Option Spot) : Laid env f job L none Q
  | expression {id : StmtId} {e : ExprId} {line : UInt32} {L : Option LoopTargets} {P Q : Spot}
      {v : Value} (h : env.tree.stmt? id = some ⟨.expression e, line⟩)
      (hcode : Region env f (rvalue e) v P Q) : Laid env f (.stmt id) L (some P) (some Q)
  | block {id : StmtId} {body : List StmtId} {line : UInt32} {L : Option LoopTargets}
      {P Q : Option Spot} (h : env.tree.stmt? id = some ⟨.block body, line⟩)
      (hbody : Laid env f (.seq body) L P Q) : Laid env f (.stmt id) L P Q
  | branch {id : StmtId} {cond : ExprId} {yes : StmtId} {no : Option StmtId} {line : UInt32}
      {L : Option LoopTargets} {P R : Spot} {op : Operand} {first second last : BlockId}
      {Q₁ Q₂ : Option Spot} (h : env.tree.stmt? id = some ⟨.branch cond yes no, line⟩)
      (hcode : Region env f (descend fun sub => truth sub cond line.toNat) op P R) (hrest : R.rest = [])
      (hterm : f.termAt R.block = some (.branch op first second))
      (hyes : Laid env f (.stmt yes) L (some (f.start first)) Q₁) (hjoin₁ : Joins f Q₁ last)
      (hno : Laid env f (.seq no.toList) L (some (f.start second)) Q₂) (hjoin₂ : Joins f Q₂ last) :
      Laid env f (.stmt id) L (some P) (some (f.start last))
  | whileLoop {id : StmtId} {cond : ExprId} {body : StmtId} {line : UInt32} {L : Option LoopTargets}
      {P Q : Option Spot} {test : BlockId}
      (h : env.tree.stmt? id = some ⟨.whileLoop cond body, line⟩) (hjoin : Joins f P test)
      (hloop : Laid env f (.loop (some cond) none body) L (some (f.start test)) Q) :
      Laid env f (.stmt id) L P Q
  | forLoop {id : StmtId} {init : Option StmtId} {cond step : Option ExprId} {body : StmtId}
      {line : UInt32} {L : Option LoopTargets} {P P₁ Q : Option Spot} {test : BlockId}
      (h : env.tree.stmt? id = some ⟨.forLoop init cond step body, line⟩)
      (hinit : Laid env f (.seq init.toList) L P P₁) (hjoin : Joins f P₁ test)
      (hloop : Laid env f (.loop cond step body) L (some (f.start test)) Q) :
      Laid env f (.stmt id) L P Q
  | ret {id : StmtId} {value : Option ExprId} {line : UInt32} {L : Option LoopTargets} {P R : Spot}
      (h : env.tree.stmt? id = some ⟨.ret value, line⟩)
      (hreturns : Returns env f value line.toNat P R) : Laid env f (.stmt id) L (some P) none
  | brk {id : StmtId} {line : UInt32} {T : LoopTargets} {P : Spot}
      (h : env.tree.stmt? id = some ⟨.brk, line⟩) (hrest : P.rest = [])
      (hterm : f.termAt P.block = some (.goto T.brk)) : Laid env f (.stmt id) (some T) (some P) none
  | cont {id : StmtId} {line : UInt32} {T : LoopTargets} {P : Spot}
      (h : env.tree.stmt? id = some ⟨.cont, line⟩) (hrest : P.rest = [])
      (hterm : f.termAt P.block = some (.goto T.cont)) : Laid env f (.stmt id) (some T) (some P) none
  | declaration {id : StmtId} {decl : VariableDecl} {line : UInt32} {L : Option LoopTargets}
      {P Q : Option Spot} (h : env.tree.stmt? id = some ⟨.variable decl, line⟩)
      (hdecl : Laid env f (.declarators decl.declarators) L P Q) : Laid env f (.stmt id) L P Q
  | seqNil {L : Option LoopTargets} {P : Option Spot} : Laid env f (.seq []) L P P
  | seqCons {id : StmtId} {rest : List StmtId} {L : Option LoopTargets} {P R Q : Option Spot}
      (hfirst : Laid env f (.stmt id) L P R) (hrest : Laid env f (.seq rest) L R Q) :
      Laid env f (.seq (id :: rest)) L P Q
  | declaratorsNil {L : Option LoopTargets} {P : Option Spot} : Laid env f (.declarators []) L P P
  | declaratorsCons {d : DeclaratorId} {rest : List DeclaratorId} {L : Option LoopTargets} {P R : Spot}
      {Q : Option Spot} {base : Ty} (hcode : Region env f (declareLocal d base) () P R)
      (hrest : Laid env f (.declarators rest) L (some R) Q) :
      Laid env f (.declarators (d :: rest)) L (some P) Q
  | loop {cond step : Option ExprId} {body : StmtId} {L : Option LoopTargets}
      {test first next last : BlockId} {Q : Option Spot} (htest : Tests env f cond test first last)
      (hbody : Laid env f (.stmt body) (some ⟨last, next⟩) (some (f.start first)) Q)
      (hjoin : Joins f Q next) (hstep : StepsTo env f step next test) :
      Laid env f (.loop cond step body) L (some (f.start test)) (some (f.start last))

/-! ### Passing along a layout -/

/-- A call at the beginning of a region is in it, or has got to its end and further. -/
theorem Region.cases {step : Lower α} {a : α} (hr : Region env f step a P Q)
    (hf : p.module.function? m.call.func = some f) (hspot : m.spot = P)
    (hpasses : Passes p below n m m') :
    (Begins env f p below step m m' ∧ ¬ f.ReturnsAt m'.spot) ∨
      ∃ k m₁, k ≤ n ∧ Crosses env f p below step a m m₁ ∧ m₁.spot = Q ∧ Passes p below k m₁ m' := by
  obtain ⟨g, h, c, d, hcode, hencloses, rfl, rfl⟩ := hr
  rcases passes_of_encloses hencloses hf hspot hpasses with
    ⟨hthrough, hret⟩ | ⟨k, m₁, hk, hthrough, hend, hrest⟩
  · exact .inl ⟨⟨a, g, h, _, hspot ▸ hcode, hthrough⟩, hret⟩
  · exact .inr ⟨k, m₁, hk, ⟨g, h, hend ▸ hspot ▸ hcode, hthrough⟩, hend, hrest⟩

/-- A call at the end of a block that ends with a plain jump stays there, or takes it. -/
theorem goto_cases (hf : p.module.function? m.call.func = some f) (hrest : m.spot.rest = [])
    (hterm : f.termAt m.spot.block = some (.goto b)) (hpasses : Passes p below n m m') :
    (m = m' ∧ ¬ f.ReturnsAt m'.spot) ∨
      ∃ k m₁, k + 1 = n ∧ Jumps f p below m m₁ ∧ m₁.spot = f.start b ∧ Passes p below k m₁ m' := by
  cases hpasses with
  | refl => exact .inl ⟨rfl, Function.not_returnsAt hterm (List.cons_ne_nil _ _)⟩
  | head hpass hpasses =>
    refine .inr ⟨_, _, rfl, ⟨hpass, hrest, b, hterm⟩, ?_, hpasses⟩
    cases hpass.cases hf with
    | ran hnot v w => exact nomatch hnot.symm.trans hrest
    | jumped hnil hfollow =>
      have hterm' : f.termAt m.call.block = some (.goto b) := hterm
      rw [hterm'] at hfollow
      simp only [follow, Exec.run_pure, Prod.mk.injEq, Except.ok.injEq, Sum.inr.injEq] at hfollow
      obtain ⟨rfl, -⟩ := hfollow
      rfl

/-- A call at the end of a block that ends with a choice stays there, or decides. -/
theorem branch_cases {op : Operand} {yes no : BlockId} (hf : p.module.function? m.call.func = some f)
    (hrest : m.spot.rest = []) (hterm : f.termAt m.spot.block = some (.branch op yes no))
    (hpasses : Passes p below n m m') :
    (m = m' ∧ ¬ f.ReturnsAt m'.spot) ∨ ∃ holds k m₁, k + 1 = n ∧ Decides f p below op holds m m₁ ∧
      m₁.spot = f.start (if holds then yes else no) ∧ Passes p below k m₁ m' := by
  cases hpasses with
  | refl => exact .inl ⟨rfl, Function.not_returnsAt hterm (List.cons_ne_nil _ _)⟩
  | @head k _ m₁ _ hpass hpasses =>
    right
    have hpassed := hpass.cases hf
    have hterm' : f.termAt m.call.block = some (.branch op yes no) := hterm
    cases hpassed with
    | ran hnot v w => exact nomatch hnot.symm.trans hrest
    | @jumped target w hnil hfollow =>
      rw [hterm'] at hfollow
      obtain ⟨v, w₁, hvalue, hfollow⟩ := Exec.run_bind_ok hfollow
      obtain ⟨holds, w₂, htruth, hfollow⟩ := Exec.run_bind_ok hfollow
      rw [run_value] at hvalue
      rw [Exec.run_liftM] at htruth
      simp only [Exec.run_pure, Prod.mk.injEq, Except.ok.injEq, Sum.inr.injEq] at hfollow hvalue htruth
      obtain ⟨rfl, -⟩ := hfollow
      exact ⟨holds, k, _, rfl, ⟨hpass, hrest, yes, no, v, hterm', hvalue.1, htruth.1, rfl⟩, rfl,
        hpasses⟩

/-- A call at a spot that joins a block stays there, or gets to the beginning of the block. -/
theorem Joins.cases (hj : Joins f (some P) b) (hf : p.module.function? m.call.func = some f)
    (hspot : m.spot = P) (hpasses : Passes p below n m m') :
    (m = m' ∧ ¬ f.ReturnsAt m'.spot) ∨ ∃ k m₁, k ≤ n ∧ Traces env f p below [] m m₁ ∧
      m₁.spot = f.start b ∧ Passes p below k m₁ m' := by
  subst hspot
  rcases hj _ rfl with hstart | ⟨hrest, hterm⟩
  · exact .inr ⟨n, m, Nat.le_refl _, .nil m, hstart, hpasses⟩
  · rcases goto_cases hf hrest hterm hpasses with hsame | ⟨k, m₁, rfl, hjump, hspot, hpasses⟩
    · exact .inl hsame
    · exact .inr ⟨k, m₁, Nat.le_succ k, .of_jump hjump, hspot, hpasses⟩

end Lower

end TreeFlow
