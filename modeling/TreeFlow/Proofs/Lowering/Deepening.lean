import TreeFlow.Proofs.Lowering.Termination

/-!
# More depth changes nothing

A walk that goes at most so deep is cut off where it would go deeper. It says so, and nothing that is done
around it keeps silent about that: neither an attempt nor a probe goes on. So a walk that was not cut off
does not depend on how deep it may go (`descentTo_deepens`).
-/

namespace TreeFlow.Lower

variable {α β : Type}

/-! ### Steps -/

/-- One step does what another one does, unless it is cut off. -/
def Deepens (m n : Lower α) : Prop := ∀ env s, (m env s).1 = .stuck .endless ∨ n env s = m env s

namespace Deepens

variable {m n : Lower α}

@[grind ←] theorem refl (m : Lower α) : Deepens m m := fun _ _ => .inr rfl

theorem of_endless (h : ∀ env s, (m env s).1 = .stuck .endless) : Deepens m n := fun env s => .inl (h env s)

@[grind ←] theorem bind {next next' : α → Lower β} (hm : Deepens m n)
    (hnext : ∀ a, Deepens (next a) (next' a)) : Deepens (m >>= next) (n >>= next') := by
  intro env s
  rcases hm env s with hcut | hsame
  · exact .inl (bind_stuck hcut)
  · show (Lower.bind m next env s).1 = _ ∨ Lower.bind n next' env s = Lower.bind m next env s
    unfold Lower.bind
    rw [hsame]
    rcases m env s with ⟨a | _ | _, t⟩
    · exact hnext a env t
    · exact .inr rfl
    · exact .inr rfl

@[grind ←] theorem attempt (hm : Deepens m n) : Deepens (Lower.attempt m) (Lower.attempt n) := by
  intro env s
  rcases hm env s with hcut | hsame
  · exact .inl (attempt_stuck hcut)
  · unfold Lower.attempt
    rw [hsame]
    exact .inr rfl

@[grind ←] theorem ignoring (hm : Deepens m n) : Deepens (Lower.ignoring m) (Lower.ignoring n) :=
  hm.attempt.bind fun _ => .refl _

/-- Two steps between the same changes of the state. -/
theorem between (hm : Deepens m n) (before : State → State) (after : State → State → State) {m' n' : Lower α}
    (hm' : ∀ env s, m' env s = ((m env (before s)).1, after s (m env (before s)).2))
    (hn' : ∀ env s, n' env s = ((n env (before s)).1, after s (n env (before s)).2)) : Deepens m' n' := by
  intro env s
  rw [hm', hn']
  rcases hm env (before s) with hcut | hsame
  · exact .inl hcut
  · exact .inr (by rw [hsame])

@[grind ←] theorem withLvalue (on : Bool) (hm : Deepens m n) :
    Deepens (Lower.withLvalue on m) (Lower.withLvalue on n) :=
  hm.between (fun s => { s with lvalue := on }) (fun s t => { t with lvalue := s.lvalue })
    (fun _ _ => rfl) fun _ _ => rfl

@[grind ←] theorem probe (hm : Deepens m n) : Deepens (Lower.probe m) (Lower.probe n) :=
  hm.between (fun s => { s with builder := s.builder.snapshot.2 })
    (fun s t => { t with builder := t.builder.restore s.builder.snapshot.1 .types, lvalue := s.lvalue })
    (fun _ _ => rfl) fun _ _ => rfl

end Deepens

/-! ### The children of a node -/

/-- Children are lowered as others are, unless the walk below them is cut off. -/
structure DescentDeepens (sub sub' : Descent) : Prop where
  raw : ∀ e, Deepens (sub.raw e) (sub'.raw e)
  spec : ∀ id, Deepens (sub.spec id) (sub'.spec id)
  link : ∀ mode id info, Deepens (sub.link mode id info) (sub'.link mode id info)

section Children

variable {sub sub' : Descent} (h : DescentDeepens sub sub') (e left right : ExprId) (line : Nat)
include h

@[grind ←] theorem deepens_raw : Deepens (sub.raw e) (sub'.raw e) := h.raw e

@[grind ←] theorem deepens_spec (id : SpecId) : Deepens (sub.spec id) (sub'.spec id) := h.spec id

@[grind ←] theorem deepens_link (mode : DeclaratorMode) (id : DeclaratorId) (info : DeclaratorInfo) :
    Deepens (sub.link mode id info) (sub'.link mode id info) := h.link mode id info

@[grind ←] theorem deepens_expr : Deepens (sub.expr e) (sub'.expr e) := by grind [Descent.expr]

@[grind ←] theorem deepens_rvalue : Deepens (sub.rvalue e) (sub'.rvalue e) := by grind [Descent.rvalue]

@[grind ←] theorem deepens_lvalue : Deepens (sub.lvalue e) (sub'.lvalue e) := by grind [Descent.lvalue]

@[grind ←] theorem deepens_storage : Deepens (sub.storage e) (sub'.storage e) := by grind [Descent.storage]

@[grind ←] theorem deepens_typeOf : Deepens (sub.typeOf e) (sub'.typeOf e) := by grind [Descent.typeOf]

@[grind ←] theorem deepens_constInt : Deepens (sub.constInt e) (sub'.constInt e) := by grind [Descent.constInt]

/-! ### Operators -/

@[grind ←] theorem deepens_truth : Deepens (truth sub e line) (truth sub' e line) := by grind [truth]

@[grind ←] theorem deepens_logical (and : Bool) :
    Deepens (logical sub and left right line) (logical sub' and left right line) := by
  refine (deepens_truth h left line).bind fun lb => ?_
  split
  · grind
  · refine .bind (.refl _) fun o => ?_
    cases o with
    | none => exact .refl _
    | some source =>
      refine .bind (.refl _) fun rightBlock => .bind (.refl _) fun endBlock => ?_
      cases and <;> grind

@[grind ←] theorem deepens_binary (op : BinaryOp) :
    Deepens (binary sub op left right line) (binary sub' op left right line) := by
  unfold binary
  split
  · exact deepens_logical h left right line true
  · exact deepens_logical h left right line false
  · exact (deepens_rvalue h left).attempt.bind fun _ => (deepens_rvalue h right).attempt.bind fun _ => .refl _

@[grind ←] theorem deepens_step (up before : Bool) :
    Deepens (step sub e up before line) (step sub' e up before line) := by grind [step]

@[grind ←] theorem deepens_addressOf : Deepens (addressOf sub e line) (addressOf sub' e line) := by
  grind [addressOf]

@[grind ←] theorem deepens_deref : Deepens (deref sub e line) (deref sub' e line) := by grind [deref]

@[grind ←] theorem deepens_negate : Deepens (negate sub e line) (negate sub' e line) := by grind [negate]

@[grind ←] theorem deepens_unary (op : UnaryOp) : Deepens (unary sub op e line) (unary sub' op e line) := by
  cases op <;> grind [unary]

/-! ### Declarators -/

@[grind ←] theorem deepens_arrayLength : Deepens (arrayLength sub e line) (arrayLength sub' e line) := by
  grind [arrayLength]

@[grind ←] theorem deepens_addDimensions (mode : DeclaratorMode) (dims : List (Option ExprId)) (ty : Ty) :
    Deepens (addDimensions sub mode line dims ty) (addDimensions sub' mode line dims ty) := by
  induction dims generalizing ty with
  | nil => exact .refl _
  | cons dim dims ih =>
    unfold addDimensions
    split
    · exact ih _
    · exact ih _
    · exact (deepens_arrayLength h _ line).bind fun _ => ih _

@[grind ←] theorem deepens_declare (mode : DeclaratorMode) (id : DeclaratorId) (base : Ty) :
    Deepens (declare sub mode id base) (declare sub' mode id base) := by grind [declare]

@[grind ←] theorem deepens_param (p : ParamDecl) : Deepens (param sub line p) (param sub' line p) := by
  grind [param]

omit h in
@[grind ←] theorem deepens_each {step step' : α → Lower β} (hstep : ∀ a, Deepens (step a) (step' a))
    (items : List α) : Deepens (each step items) (each step' items) := by
  induction items with
  | nil => exact .refl _
  | cons a rest ih => exact (hstep a).attempt.bind fun _ => ih.bind fun _ => .refl _

@[grind ←] theorem deepens_params (ps : List ParamDecl) : Deepens (params sub ps line) (params sub' ps line) := by
  grind [params]

@[grind ←] theorem deepens_linkWith (mode : DeclaratorMode) (id : DeclaratorId) (info : DeclaratorInfo) :
    Deepens (linkWith sub mode id info) (linkWith sub' mode id info) := by grind [linkWith]

/-! ### Type specifiers -/

@[grind ←] theorem deepens_field (kind : AggregateKind) (base : Ty) (id : DeclaratorId) :
    Deepens (field sub kind base id) (field sub' kind base id) := by grind [field]

@[grind ←] theorem deepens_fieldsOf (kind : AggregateKind) (decl : VariableDecl) :
    Deepens (fieldsOf sub kind decl) (fieldsOf sub' kind decl) := by grind [fieldsOf]

@[grind ←] theorem deepens_defineAggregate (kind : AggregateKind) (decl : AggregateDecl) :
    Deepens (defineAggregate sub kind decl line) (defineAggregate sub' kind decl line) := by
  grind [defineAggregate]

@[grind ←] theorem deepens_aggregateType (kind : AggregateKind) (decl : AggregateDecl) :
    Deepens (aggregateType sub kind decl line) (aggregateType sub' kind decl line) := by
  grind [aggregateType]

theorem deepens_specWith (id : SpecId) : Deepens (specWith sub id) (specWith sub' id) := by
  grind [specWith]

/-! ### Expressions -/

@[grind ←] theorem deepens_globalScope : Deepens (globalScope sub e line) (globalScope sub' e line) := by
  grind [globalScope]

@[grind ←] theorem deepens_arguments (params : List Ty) (args : List ExprId) :
    Deepens (arguments sub line params args) (arguments sub' line params args) := by
  induction args generalizing params with
  | nil => exact .refl _
  | cons e es ih => exact (deepens_rvalue h e).bind fun v => .bind (.refl _) fun _ => (ih _).bind fun _ => .refl _

@[grind ←] theorem deepens_call (args : List ExprId) : Deepens (call sub e args line) (call sub' e args line) := by
  refine .bind (.refl _) fun mode => ?_
  split
  · exact .refl _
  · refine (deepens_rvalue h e).bind fun f => ?_
    split
    · exact .refl _
    · split
      · exact .refl _
      · exact (deepens_arguments h line _ args).bind fun _ => .refl _

@[grind ←] theorem deepens_fieldAccess (name : String) :
    Deepens (fieldAccess sub e name line) (fieldAccess sub' e name line) := by grind [fieldAccess]

@[grind ←] theorem deepens_element : Deepens (element sub left right line) (element sub' left right line) := by
  grind [element]

@[grind ←] theorem deepens_layoutQuery (id : SpecId) (size : Bool) :
    Deepens (layoutQuery sub id size line) (layoutQuery sub' id size line) := by grind [layoutQuery]

@[grind ←] theorem deepens_cast (id : SpecId) : Deepens (cast sub id e line) (cast sub' id e line) := by
  grind [cast]

@[grind ←] theorem deepens_assignTo (target : Value) :
    Deepens (assignTo sub target e line) (assignTo sub' target e line) := by
  unfold assignTo
  split
  · exact (deepens_storage h e).bind fun _ => .refl _
  · exact (deepens_rvalue h e).bind fun _ => .refl _

@[grind ←] theorem deepens_assign : Deepens (assign sub left right line) (assign sub' left right line) := by
  refine .bind (.refl _) fun node => (deepens_lvalue h left).attempt.bind fun target => ?_
  split
  · exact (deepens_rvalue h right).ignoring.bind fun _ => .refl _
  · split
    · exact .refl _
    · exact deepens_assignTo h right line _

@[grind ←] theorem deepens_alternativeIn (block : BlockId) :
    Deepens (alternativeIn sub block e) (alternativeIn sub' block e) := by grind [alternativeIn]

@[grind ←] theorem deepens_conditional :
    Deepens (conditional sub e left right line) (conditional sub' e left right line) := by
  refine (deepens_truth h e line).bind fun c => ?_
  refine .bind (.refl _) fun yesBlock => .bind (.refl _) fun noBlock => .bind (.refl _) fun join => ?_
  refine .bind (.refl _) fun _ => (deepens_alternativeIn h left yesBlock).bind fun yes => ?_
  exact (deepens_alternativeIn h right noBlock).bind fun no => .refl _

@[grind ←] theorem deepens_comma : Deepens (comma sub left right) (comma sub' left right) := by grind [comma]

theorem deepens_rawWith : Deepens (rawWith sub e) (rawWith sub' e) := by
  refine .bind (.refl _) fun node => ?_
  cases node.kind <;> grind

end Children

/-! ### All nodes -/

/-- **More depth changes nothing** where less was enough. -/
theorem descentTo_deepens {d d' : Nat} (hd : d ≤ d') : DescentDeepens (descentTo d) (descentTo d') := by
  induction d generalizing d' with
  | zero => exact ⟨fun _ => .of_endless fun _ _ => rfl, fun _ => .of_endless fun _ _ => rfl,
      fun _ _ _ => .of_endless fun _ _ => rfl⟩
  | succ d ih =>
    obtain ⟨e, rfl⟩ : ∃ e, d' = e + 1 := ⟨d' - 1, by omega⟩
    have h := ih (Nat.le_of_succ_le_succ hd)
    exact ⟨deepens_rawWith h, deepens_specWith h, deepens_linkWith h⟩

end TreeFlow.Lower
