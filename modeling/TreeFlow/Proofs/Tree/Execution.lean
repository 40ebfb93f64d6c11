import TreeFlow.Tree.Basic

/-!
# Structured statements

What a body of blocks, branches, loops, jumps out of them, and declarations of local variables does when
it runs, as far as the order of things is concerned (`Tree.Executes`): what is evaluated, one after the
other, and how a statement is left. What a condition comes to is not determined here; every trace says
what it came to.

A run that has only come so far is a run too. Its trace is **cut** at some point, and then nothing is
said of what follows. So the traces of a body are closed under prefixes, and infinite runs need no
treatment of their own.
-/

namespace TreeFlow

/-! ### What is evaluated -/

/-- What is evaluated while a body runs. -/
inductive Event where
  /-- An expression statement, or the step of a loop. -/
  | value (e : ExprId)
  /-- A condition, and whether it held. -/
  | test (e : ExprId) (holds : Bool)
  /-- A declarator of local variables, with its initializer. -/
  | declare (d : DeclaratorId)
  /-- The operand of a `return`. -/
  | operand (e : ExprId)
  deriving DecidableEq, Repr

/-- How a statement is left. -/
inductive Ending where
  | normal
  | brk
  | cont
  /-- By the `return` at a handle. -/
  | ret (id : StmtId)
  /-- It is not left, or not yet. -/
  | cut
  deriving DecidableEq, Repr

/-- Does a loop go on when its body is left so? -/
def Ending.goesOn : Ending → Bool
  | .normal | .cont => true
  | .brk | .ret _ | .cut => false

/-- How a loop is left by a round that does not go on. -/
def Ending.ofLoop : Ending → Ending
  | .brk => .normal
  | x => x

namespace Tree

/-! ### Structured statements -/

/-- A statement made of blocks, branches, loops, `return`, expressions and declarations of automatic
variables, and of `break` and `continue` in loops only. -/
inductive Structured (t : Tree) : Bool → StmtId → Prop
  | expression {inLoop : Bool} {id : StmtId} {e : ExprId} {line : UInt32}
      (h : t.stmt? id = some ⟨.expression e, line⟩) : Structured t inLoop id
  | block {inLoop : Bool} {id : StmtId} {body : List StmtId} {line : UInt32}
      (h : t.stmt? id = some ⟨.block body, line⟩) (hbody : ∀ s ∈ body, Structured t inLoop s) :
      Structured t inLoop id
  | branch {inLoop : Bool} {id : StmtId} {cond : ExprId} {yes : StmtId} {no : Option StmtId}
      {line : UInt32} (h : t.stmt? id = some ⟨.branch cond yes no, line⟩)
      (hyes : Structured t inLoop yes) (hno : ∀ s ∈ no, Structured t inLoop s) : Structured t inLoop id
  | whileLoop {inLoop : Bool} {id : StmtId} {cond : ExprId} {body : StmtId} {line : UInt32}
      (h : t.stmt? id = some ⟨.whileLoop cond body, line⟩) (hbody : Structured t true body) :
      Structured t inLoop id
  | forLoop {inLoop : Bool} {id : StmtId} {init : Option StmtId} {cond step : Option ExprId}
      {body : StmtId} {line : UInt32} (h : t.stmt? id = some ⟨.forLoop init cond step body, line⟩)
      (hinit : ∀ s ∈ init, Structured t inLoop s) (hbody : Structured t true body) :
      Structured t inLoop id
  | ret {inLoop : Bool} {id : StmtId} {value : Option ExprId} {line : UInt32}
      (h : t.stmt? id = some ⟨.ret value, line⟩) : Structured t inLoop id
  | brk {id : StmtId} {line : UInt32} (h : t.stmt? id = some ⟨.brk, line⟩) : Structured t true id
  | cont {id : StmtId} {line : UInt32} (h : t.stmt? id = some ⟨.cont, line⟩) : Structured t true id
  | declaration {inLoop : Bool} {id : StmtId} {decl : VariableDecl} {line : UInt32}
      (h : t.stmt? id = some ⟨.variable decl, line⟩) (hstorage : decl.storage = .normal) :
      Structured t inLoop id

/-! ### Runs -/

/-- What there is to do. -/
inductive Job where
  | stmt (id : StmtId)
  | seq (ids : List StmtId)
  | declarators (ds : List DeclaratorId)
  /-- A loop, in front of its condition. -/
  | loop (cond step : Option ExprId) (body : StmtId)
  /-- A loop, behind a round. -/
  | next (cond step : Option ExprId) (body : StmtId)
  deriving DecidableEq, Repr

/-- The condition in front of a round, which held. -/
def holding (cond : Option ExprId) : List Event := cond.toList.map (Event.test · true)

/-- The step behind a round. -/
def stepping (step : Option ExprId) : List Event := step.toList.map Event.value

/-- A run of a job: what is evaluated in it, in order, and how it is left. -/
inductive Executes (t : Tree) : Job → List Event → Ending → Prop
  /-- A run may be looked at when it has not come any further. -/
  | cut (job : Job) : Executes t job [] .cut
  /-- A run may be looked at when it has come to its end, but the job is not left yet. -/
  | atEnd {job : Job} {tr : List Event} {x : Ending} (h : Executes t job tr x) : Executes t job tr .cut
  | expression {id : StmtId} {e : ExprId} {line : UInt32}
      (h : t.stmt? id = some ⟨.expression e, line⟩) : Executes t (.stmt id) [.value e] .normal
  | block {id : StmtId} {body : List StmtId} {line : UInt32} {tr : List Event} {x : Ending}
      (h : t.stmt? id = some ⟨.block body, line⟩) (hbody : Executes t (.seq body) tr x) :
      Executes t (.stmt id) tr x
  | yes {id : StmtId} {cond : ExprId} {yes : StmtId} {no : Option StmtId} {line : UInt32}
      {tr : List Event} {x : Ending} (h : t.stmt? id = some ⟨.branch cond yes no, line⟩)
      (hyes : Executes t (.stmt yes) tr x) : Executes t (.stmt id) (.test cond true :: tr) x
  | no {id : StmtId} {cond : ExprId} {yes : StmtId} {no : Option StmtId} {line : UInt32}
      {tr : List Event} {x : Ending} (h : t.stmt? id = some ⟨.branch cond yes no, line⟩)
      (hno : Executes t (.seq no.toList) tr x) : Executes t (.stmt id) (.test cond false :: tr) x
  | whileLoop {id : StmtId} {cond : ExprId} {body : StmtId} {line : UInt32} {tr : List Event}
      {x : Ending} (h : t.stmt? id = some ⟨.whileLoop cond body, line⟩)
      (hloop : Executes t (.loop (some cond) none body) tr x) : Executes t (.stmt id) tr x
  | forLoop {id : StmtId} {init : Option StmtId} {cond step : Option ExprId} {body : StmtId}
      {line : UInt32} {tr tr' : List Event} {x : Ending}
      (h : t.stmt? id = some ⟨.forLoop init cond step body, line⟩)
      (hinit : Executes t (.seq init.toList) tr .normal)
      (hloop : Executes t (.loop cond step body) tr' x) : Executes t (.stmt id) (tr ++ tr') x
  /-- A `for` may be left before it gets to its condition. -/
  | init {id : StmtId} {init : Option StmtId} {cond step : Option ExprId} {body : StmtId}
      {line : UInt32} {tr : List Event} {x : Ending}
      (h : t.stmt? id = some ⟨.forLoop init cond step body, line⟩)
      (hinit : Executes t (.seq init.toList) tr x) (hx : x ≠ .normal) : Executes t (.stmt id) tr x
  | ret {id : StmtId} {value : Option ExprId} {line : UInt32}
      (h : t.stmt? id = some ⟨.ret value, line⟩) :
      Executes t (.stmt id) (value.toList.map Event.operand) (.ret id)
  | brk {id : StmtId} {line : UInt32} (h : t.stmt? id = some ⟨.brk, line⟩) :
      Executes t (.stmt id) [] .brk
  | cont {id : StmtId} {line : UInt32} (h : t.stmt? id = some ⟨.cont, line⟩) :
      Executes t (.stmt id) [] .cont
  | declaration {id : StmtId} {decl : VariableDecl} {line : UInt32} {tr : List Event} {x : Ending}
      (h : t.stmt? id = some ⟨.variable decl, line⟩)
      (hdecl : Executes t (.declarators decl.declarators) tr x) : Executes t (.stmt id) tr x
  | seqNil : Executes t (.seq []) [] .normal
  | seqCons {id : StmtId} {rest : List StmtId} {tr tr' : List Event} {x : Ending}
      (hfirst : Executes t (.stmt id) tr .normal) (hrest : Executes t (.seq rest) tr' x) :
      Executes t (.seq (id :: rest)) (tr ++ tr') x
  | seqLeft {id : StmtId} {rest : List StmtId} {tr : List Event} {x : Ending}
      (hfirst : Executes t (.stmt id) tr x) (hx : x ≠ .normal) : Executes t (.seq (id :: rest)) tr x
  | declaratorsNil : Executes t (.declarators []) [] .normal
  | declaratorsCons {d : DeclaratorId} {rest : List DeclaratorId} {tr : List Event} {x : Ending}
      (hrest : Executes t (.declarators rest) tr x) :
      Executes t (.declarators (d :: rest)) (.declare d :: tr) x
  /-- The condition does not hold. -/
  | stop {cond : ExprId} {step : Option ExprId} {body : StmtId} :
      Executes t (.loop (some cond) step body) [.test cond false] .normal
  /-- A round is the last one. -/
  | last {cond step : Option ExprId} {body : StmtId} {tr : List Event} {x : Ending}
      (hbody : Executes t (.stmt body) tr x) (hx : x.goesOn = false) :
      Executes t (.loop cond step body) (holding cond ++ tr) x.ofLoop
  /-- The loop goes on behind a round. -/
  | round {cond step : Option ExprId} {body : StmtId} {tr tr' : List Event} {x y : Ending}
      (hbody : Executes t (.stmt body) tr x) (hx : x.goesOn = true)
      (hnext : Executes t (.next cond step body) tr' y) :
      Executes t (.loop cond step body) (holding cond ++ tr ++ tr') y
  | next {cond step : Option ExprId} {body : StmtId} {tr : List Event} {x : Ending}
      (hloop : Executes t (.loop cond step body) tr x) :
      Executes t (.next cond step body) (stepping step ++ tr) x

end Tree

end TreeFlow
