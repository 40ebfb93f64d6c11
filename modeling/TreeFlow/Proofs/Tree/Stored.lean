import TreeFlow.Tree.Handles

/-!
# Handles stored in a tree

Where a tree holds a handle is said here place by place, one rule for each place in the syntax that is meant
for one (`Tree.Stores`). `Tree.handles` lists exactly these handles (`Tree.mem_handles_iff`), so none is overlooked
where they are checked, and a tree passes validation exactly if all of them are in range
(`Tree.validate_eq_ok_iff_stores`).
-/

namespace TreeFlow

variable {h : Handle}

/-! ### Declarations -/

/-- A parameter holds the handle. -/
inductive ParamDecl.Stores (p : ParamDecl) : Handle → Prop
  | spec : Stores p (.spec p.spec)
  | declarator {d : DeclaratorId} (hd : p.declarator = some d) : Stores p (.declarator d)

/-- A declaration of variables holds the handle. -/
inductive VariableDecl.Stores (v : VariableDecl) : Handle → Prop
  | spec : Stores v (.spec v.spec)
  | declarator {d : DeclaratorId} (hd : d ∈ v.declarators) : Stores v (.declarator d)

/-- A struct or union holds the handle, in one of its fields. -/
inductive AggregateDecl.Stores (a : AggregateDecl) : Handle → Prop
  | field {fields : List VariableDecl} {v : VariableDecl} {h : Handle} (hfields : a.fields = some fields)
      (hv : v ∈ fields) (hh : v.Stores h) : Stores a h

/-- A function holds the handle. -/
inductive FunctionDecl.Stores (f : FunctionDecl) : Handle → Prop
  | result : Stores f (.spec f.result)
  | declarator : Stores f (.declarator f.declarator)
  | body {s : StmtId} (hs : f.body = some s) : Stores f (.stmt s)

/-! ### Nodes -/

/-- An expression holds the handle. -/
inductive ExprKind.Stores : ExprKind → Handle → Prop
  | callee {callee : ExprId} {args : List ExprId} : Stores (.call callee args) (.expr callee)
  | arg {callee : ExprId} {args : List ExprId} {e : ExprId} (he : e ∈ args) : Stores (.call callee args) (.expr e)
  | fieldBase {base : ExprId} {name : String} : Stores (.field base name) (.expr base)
  | indexBase {base position : ExprId} : Stores (.index base position) (.expr base)
  | position {base position : ExprId} : Stores (.index base position) (.expr position)
  | left {op : BinaryOp} {l r : ExprId} : Stores (.binary op l r) (.expr l)
  | right {op : BinaryOp} {l r : ExprId} : Stores (.binary op l r) (.expr r)
  | unary {op : UnaryOp} {e : ExprId} : Stores (.unary op e) (.expr e)
  | step {op : StepOp} {e : ExprId} : Stores (.step op e) (.expr e)
  | sizeOf {spec : SpecId} : Stores (.sizeOf spec) (.spec spec)
  | alignOf {spec : SpecId} : Stores (.alignOf spec) (.spec spec)
  | castSpec {spec : SpecId} {e : ExprId} : Stores (.cast spec e) (.spec spec)
  | castOperand {spec : SpecId} {e : ExprId} : Stores (.cast spec e) (.expr e)
  | globalScope {e : ExprId} : Stores (.globalScope e) (.expr e)
  | target {target value : ExprId} : Stores (.assign target value) (.expr target)
  | value {target value : ExprId} : Stores (.assign target value) (.expr value)
  | cond {cond yes no : ExprId} : Stores (.conditional cond yes no) (.expr cond)
  | yes {cond yes no : ExprId} : Stores (.conditional cond yes no) (.expr yes)
  | no {cond yes no : ExprId} : Stores (.conditional cond yes no) (.expr no)
  | first {first second : ExprId} : Stores (.comma first second) (.expr first)
  | second {first second : ExprId} : Stores (.comma first second) (.expr second)

/-- A statement holds the handle. -/
inductive StmtKind.Stores : StmtKind → Handle → Prop
  | expression {e : ExprId} : Stores (.expression e) (.expr e)
  | block {body : List StmtId} {s : StmtId} (hs : s ∈ body) : Stores (.block body) (.stmt s)
  | branchCond {cond : ExprId} {yes : StmtId} {no : Option StmtId} : Stores (.branch cond yes no) (.expr cond)
  | branchYes {cond : ExprId} {yes : StmtId} {no : Option StmtId} : Stores (.branch cond yes no) (.stmt yes)
  | branchNo {cond : ExprId} {yes no : StmtId} : Stores (.branch cond yes (some no)) (.stmt no)
  | whileCond {cond : ExprId} {body : StmtId} : Stores (.whileLoop cond body) (.expr cond)
  | whileBody {cond : ExprId} {body : StmtId} : Stores (.whileLoop cond body) (.stmt body)
  | forInit {init : StmtId} {cond step : Option ExprId} {body : StmtId} :
      Stores (.forLoop (some init) cond step body) (.stmt init)
  | forCond {init : Option StmtId} {cond : ExprId} {step : Option ExprId} {body : StmtId} :
      Stores (.forLoop init (some cond) step body) (.expr cond)
  | forStep {init : Option StmtId} {cond : Option ExprId} {step : ExprId} {body : StmtId} :
      Stores (.forLoop init cond (some step) body) (.expr step)
  | forBody {init : Option StmtId} {cond step : Option ExprId} {body : StmtId} :
      Stores (.forLoop init cond step body) (.stmt body)
  | ret {e : ExprId} : Stores (.ret (some e)) (.expr e)
  | label {name : String} {body : StmtId} : Stores (.label name body) (.stmt body)
  | variable {decl : VariableDecl} {h : Handle} (hh : decl.Stores h) : Stores (.variable decl) h
  | function {decl : FunctionDecl} {h : Handle} (hh : decl.Stores h) : Stores (.function decl) h
  | struct {decl : AggregateDecl} {h : Handle} (hh : decl.Stores h) : Stores (.struct decl) h
  | union {decl : AggregateDecl} {h : Handle} (hh : decl.Stores h) : Stores (.union decl) h
  | typedefSpec {spec : SpecId} {d : DeclaratorId} : Stores (.typedef spec d) (.spec spec)
  | typedefDeclarator {spec : SpecId} {d : DeclaratorId} : Stores (.typedef spec d) (.declarator d)
  | delegateResult {result : SpecId} {name : String} {ps : List ParamDecl} {variadic : Bool} :
      Stores (.delegate result name ps variadic) (.spec result)
  | delegateParam {result : SpecId} {name : String} {ps : List ParamDecl} {variadic : Bool} {p : ParamDecl}
      {h : Handle} (hp : p ∈ ps) (hh : p.Stores h) : Stores (.delegate result name ps variadic) h
  | namespaceBlock {name : String} {body : List StmtId} {s : StmtId} (hs : s ∈ body) :
      Stores (.namespaceBlock name body) (.stmt s)

/-- A type specifier holds the handle. -/
inductive SpecKind.Stores : SpecKind → Handle → Prop
  | struct {decl : AggregateDecl} {h : Handle} (hh : decl.Stores h) : Stores (.struct decl) h
  | union {decl : AggregateDecl} {h : Handle} (hh : decl.Stores h) : Stores (.union decl) h
  | typeOf {e : ExprId} : Stores (.typeOf e) (.expr e)
  | derived {base : SpecId} {pointers : UInt32} : Stores (.derived base pointers) (.spec base)

/-- A declarator holds the handle. -/
inductive DeclaratorKind.Stores : DeclaratorKind → Handle → Prop
  | pointer {inner : DeclaratorId} {depth : UInt32} : Stores (.pointer inner depth) (.declarator inner)
  | arrayInner {inner : DeclaratorId} {dims : List (Option ExprId)} :
      Stores (.array inner dims) (.declarator inner)
  | dim {inner : DeclaratorId} {dims : List (Option ExprId)} {e : ExprId} (he : some e ∈ dims) :
      Stores (.array inner dims) (.expr e)
  | functionInner {inner : DeclaratorId} {ps : List ParamDecl} {variadic : Bool} :
      Stores (.function inner ps variadic) (.declarator inner)
  | param {inner : DeclaratorId} {ps : List ParamDecl} {variadic : Bool} {p : ParamDecl} {h : Handle}
      (hp : p ∈ ps) (hh : p.Stores h) : Stores (.function inner ps variadic) h
  | initInner {inner : DeclaratorId} {value : ExprId} : Stores (.init inner value) (.declarator inner)
  | initValue {inner : DeclaratorId} {value : ExprId} : Stores (.init inner value) (.expr value)

/-- A tree holds the handle. -/
inductive Tree.Stores (t : Tree) : Handle → Prop
  | expr {e : Expr} {h : Handle} (he : e ∈ t.exprs) (hh : e.kind.Stores h) : Stores t h
  | stmt {s : Stmt} {h : Handle} (hs : s ∈ t.stmts) (hh : s.kind.Stores h) : Stores t h
  | spec {s : Spec} {h : Handle} (hs : s ∈ t.specs) (hh : s.kind.Stores h) : Stores t h
  | declarator {d : Declarator} {h : Handle} (hd : d ∈ t.declarators) (hh : d.kind.Stores h) : Stores t h
  | ahead {id : StmtId} (hid : id ∈ t.externs) : Stores t (.stmt id)
  | root {id : StmtId} (hid : id ∈ t.root) : Stores t (.stmt id)

/-! ### The lists of handles -/

theorem ParamDecl.mem_handles_iff {p : ParamDecl} : h ∈ p.handles ↔ p.Stores h := by
  simp only [handles, List.mem_cons, Option.mem_toList, Option.map_eq_some_iff]
  constructor
  · rintro (rfl | ⟨d, hd, rfl⟩)
    · exact .spec
    · exact .declarator hd
  · rintro (_ | hd)
    · exact .inl rfl
    · exact .inr ⟨_, hd, rfl⟩

theorem VariableDecl.mem_handles_iff {v : VariableDecl} : h ∈ v.handles ↔ v.Stores h := by
  simp only [handles, List.mem_cons, List.mem_map]
  constructor
  · rintro (rfl | ⟨d, hd, rfl⟩)
    · exact .spec
    · exact .declarator hd
  · rintro (_ | hd)
    · exact .inl rfl
    · exact .inr ⟨_, hd, rfl⟩

theorem AggregateDecl.mem_handles_iff {a : AggregateDecl} : h ∈ a.handles ↔ a.Stores h := by
  simp only [handles, List.mem_flatMap, VariableDecl.mem_handles_iff]
  constructor
  · rintro ⟨v, hv, hh⟩
    cases hfields : a.fields with
    | none => simp [hfields] at hv
    | some fields => exact .field hfields (by simpa [hfields] using hv) hh
  · rintro ⟨hfields, hv, hh⟩
    exact ⟨_, by simpa [hfields] using hv, hh⟩

attribute [local grind =] Option.map_eq_some_iff ParamDecl.mem_handles_iff VariableDecl.mem_handles_iff
  AggregateDecl.mem_handles_iff

theorem ExprKind.mem_handles_iff {k : ExprKind} : h ∈ k.handles ↔ k.Stores h := by
  constructor
  · cases k <;> grind [handles, Stores]
  · rintro ⟨⟩ <;> grind [handles]

theorem StmtKind.mem_handles_iff {k : StmtKind} : h ∈ k.handles ↔ k.Stores h := by
  constructor
  · cases k <;> grind [handles, Stores, FunctionDecl.Stores]
  · rintro ⟨⟩ <;> grind [handles, FunctionDecl.Stores]

theorem SpecKind.mem_handles_iff {k : SpecKind} : h ∈ k.handles ↔ k.Stores h := by
  constructor
  · cases k <;> grind [handles, Stores]
  · rintro ⟨⟩ <;> grind [handles]

theorem DeclaratorKind.mem_handles_iff {k : DeclaratorKind} : h ∈ k.handles ↔ k.Stores h := by
  constructor
  · cases k <;> grind [handles, Stores]
  · rintro ⟨⟩ <;> grind [handles]

namespace Tree

variable {t : Tree}

/-- **No handle is overlooked**: the list of handles holds exactly those that are stored somewhere. -/
theorem mem_handles_iff : h ∈ t.handles ↔ t.Stores h := by
  simp only [handles, List.mem_append, List.mem_flatMap, List.mem_map, Array.mem_toList_iff,
    ExprKind.mem_handles_iff, StmtKind.mem_handles_iff, SpecKind.mem_handles_iff, DeclaratorKind.mem_handles_iff]
  constructor
  · rintro ((((⟨e, he, hh⟩ | ⟨s, hs, hh⟩) | ⟨s, hs, hh⟩) | ⟨d, hd, hh⟩) | ⟨id, hid | hid, rfl⟩)
    · exact .expr he hh
    · exact .stmt hs hh
    · exact .spec hs hh
    · exact .declarator hd hh
    · exact .ahead hid
    · exact .root hid
  · rintro (⟨he, hh⟩ | ⟨hs, hh⟩ | ⟨hs, hh⟩ | ⟨hd, hh⟩ | hid | hid)
    · exact .inl (.inl (.inl (.inl ⟨_, he, hh⟩)))
    · exact .inl (.inl (.inl (.inr ⟨_, hs, hh⟩)))
    · exact .inl (.inl (.inr ⟨_, hs, hh⟩))
    · exact .inl (.inr ⟨_, hd, hh⟩)
    · exact .inr ⟨_, .inl hid, rfl⟩
    · exact .inr ⟨_, .inr hid, rfl⟩

/-- **Validation is exact.** -/
theorem validate_eq_ok_iff_stores : t.validate = .ok () ↔ ∀ h, t.Stores h → h.InRange t :=
  (validate_eq_ok_iff t).trans (forall_congr' fun _ => imp_congr_left mem_handles_iff)

end Tree

end TreeFlow
