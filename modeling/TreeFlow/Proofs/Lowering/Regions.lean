import TreeFlow.Proofs.Lowering.Written

/-!
# The code of an expression is a region

Wherever an expression is lowered, its code sprouts from the block at the cursor, and no block but the one
at the cursor is left open behind it (`sprouting_descentTo`). So in every function that it becomes a part of,
the code of an expression is a region (`region_of_sprouting`). This holds of every expression and every state,
also of states that no unit leads to. Only expressions that fail may leave blocks open.

The expressions that choose leave a block for one of two others, and come together again in a third one
(`Function.Forks`, `Function.Leads`, `Function.Joins`). Besides, this module says what their code is made of:
that of a short-circuit operator (`logical_eq`, `joinRight_eq`), and that of a conditional (`exists_stages`).
-/

namespace TreeFlow

/-! ### Forks and joins -/

namespace Function

variable {g h : Function} {c d e yes no : BlockId} {es : List BlockId} {op : Operand}

/-- A block was closed with a jump, on the truth of an operand, to one of two blocks that are new and
empty. -/
structure Forks (g : Function) (c : BlockId) (op : Operand) (yes no : BlockId) (h : Function) : Prop where
  precedes : g.Precedes h
  code : h.codeAt c = g.codeAt c
  term : h.termAt c = some (.branch op yes no)
  arms : ∀ b, b = yes ∨ b = no → ¬ g.Has b ∧ h.codeAt b = []

/-- A block was closed with a jump to another one, and nothing else was written. -/
structure Leads (g : Function) (d e : BlockId) (h : Function) : Prop where
  precedes : g.Precedes h
  code : ∀ b, h.codeAt b = g.codeAt b
  term : h.termAt d = some (.goto e)

/-- A phi was added to a block, or nothing, where a constant serves in its place. -/
structure Joins (g : Function) (e : BlockId) (sources : List (Operand × BlockId)) (ty : Ty) (op : Operand)
    (h : Function) : Prop where
  precedes : g.Precedes h
  joined : Build.commonConstant? sources = some op ∧ h = g ∨
    ∃ x, op = .inst x ∧ h.codeAt e = g.codeAt e ++ [x] ∧ h.inst? x = some ⟨.phi sources, ty⟩

theorem leads_terminate (hd : g.Has d) (hopen : g.termAt d = none) :
    g.Leads d e (g.terminate d (.goto e)) where
  precedes := (extends_terminate (P := fun _ => none) hd hopen).precedes
  code _ := codeAt_terminate
  term := (termAt_terminate hd).trans (if_pos rfl)

/-- The ends besides the block itself are new. -/
theorem Sprouts.not_has (hs : g.Sprouts c h (c :: es)) (he : e ∈ es) : ¬ g.Has e := by
  rcases (hs.isEnd e (List.mem_cons_of_mem c he)).1 with rfl | hnew
  · exact absurd he (List.nodup_cons.1 hs.nodup).1
  · exact hnew

/-- Where nothing was added but blocks, a branch to two of them is a fork. -/
theorem Sprouts.forks (hs : g.Sprouts c h (c :: es)) (hcode : ∀ b, h.codeAt b = g.codeAt b) (op : Operand)
    (hyes : yes ∈ es) (hno : no ∈ es) : g.Forks c op yes no (h.terminate c (.branch op yes no)) := by
  obtain ⟨-, hhas, -⟩ := hs.isEnd c List.mem_cons_self
  have hends : ∀ b, b = yes ∨ b = no → b ∈ es := by
    rintro b (rfl | rfl) <;> assumption
  have hclosed : g.Sprouts c (h.terminate c (.branch op yes no)) es := hs.terminate nofun fun b hb => by
    have hb := hends b (by simpa [Terminator.successors] using hb)
    exact ⟨hs.not_has hb, (hs.isEnd b (List.mem_cons_of_mem c hb)).2.1⟩
  have hcode' : ∀ b, (h.terminate c (.branch op yes no)).codeAt b = g.codeAt b := fun b =>
    codeAt_terminate.trans (hcode b)
  exact ⟨hclosed.precedes, hcode' c, (termAt_terminate hhas).trans (if_pos rfl), fun b hb =>
    ⟨hs.not_has (hends b hb), (hcode' b).trans (codeAt_of_not_has (hs.not_has (hends b hb)))⟩⟩

end Function

namespace Builder.Among

variable {b : Builder} {id : FuncId} {g₀ g h : Function} {c₀ c d e : BlockId} {es vs : List BlockId}

/-- Values are joined at the cursor. -/
theorem exists_joins (hb : b.Among id g₀ c₀ g e es) (sources : List (Operand × BlockId)) (ty : Ty) :
    ∃ op h b', Build.phi sources ty b = .ok (op, b') ∧ b'.Among id g₀ c₀ h e es ∧
      g.Joins e sources ty op h := by
  rw [Build.phi]
  cases hcommon : Build.commonConstant? sources with
  | some op => exact ⟨op, g, b, rfl, hb, .refl g, .inl ⟨hcommon, rfl⟩⟩
  | none =>
    obtain ⟨h₁, hs⟩ := hb.append (i := ⟨.phi sources, ty⟩) rfl
    refine ⟨_, _, _, hb.insert_eq _ _, ⟨h₁, hb.sprouts.trans hs⟩, hs.precedes, .inr ⟨_, rfl, ?_, ?_⟩⟩
    · exact (Function.slots_code_append hb.whole hb.has rfl).2.trans (if_pos rfl)
    · exact Function.inst?_append.trans (if_pos rfl)

/-- What sprouts from the end at the cursor leaves the other ends as they are. -/
theorem codeAt_eq (hb : b.Among id g₀ c₀ g c es) (hs : g.Sprouts c h vs) (he : e ∈ es) :
    h.codeAt e = g.codeAt e := by
  obtain ⟨-, hhas, -⟩ := hb.sprouts.isEnd e (List.mem_cons_of_mem c he)
  refine (hs.frozen e hhas ?_).1
  rintro rfl
  exact (List.nodup_cons.1 hb.sprouts.nodup).1 he

end Builder.Among

namespace Lower

variable {α β : Type} {sub : Descent} {and : Bool} {left right : ExprId} {line : Nat} {env : Env}
  {s t u : State} {id : FuncId} {f g g₀ h : Function} {c c₀ d e : BlockId} {es : List BlockId}
  {op lb : Operand} {m : Lower α} {a : α}

/-! ### Regions -/

/-- A step was carried out where the cursor was at the open block `c` of the stage `g` of a function. Its code
sprouted from there, and the cursor was at the open block `d` of the stage `h` then. -/
structure Sprouted (env : Env) (id : FuncId) (m : Lower α) (a : α) (g : Function) (c : BlockId) (h : Function)
    (d : BlockId) : Prop where
  run : ∃ s t, m env s = (.done a, t) ∧ s.builder.At id g c ∧ t.builder.At id h d
  code : g.Sprouts c h [d]

theorem exists_sprouted (hm : Sprouting m) (hs : s.builder.Among id g₀ c₀ g c es)
    (hrun : m env s = (.done a, t)) :
    ∃ h d, t.builder.Among id g₀ c₀ h d es ∧ Sprouted env id m a g c h d := by
  obtain ⟨h, d, ht, hcode⟩ := hs.grow (hm.of_eq_done hrun).code
  exact ⟨h, d, ht, ⟨s, t, hrun, hs.toAt, ht.toAt⟩, hcode⟩

/-- The code of a step is a region of a function, which begins at one spot and ends at another one. -/
def RegionOf (env : Env) (f : Function) (m : Lower α) (a : α) (g h : Function) (P Q : Spot) : Prop :=
  CodeOf env f m a g h P Q ∧ ∃ c d, g.Encloses h f c d ∧ P = f.behind g c ∧ Q = f.behind h d

theorem Sprouted.region (hm : Sprouted env id m a g c h d) (hf : h.Precedes f)
    (hplain : ∀ b, ¬ g.Has b → f.instsAt b = f.codeAt b) :
    RegionOf env f m a g h (f.behind g c) (f.behind h d) := by
  obtain ⟨s, t, hrun, hs, ht⟩ := hm.run
  exact ⟨⟨s, t, hrun, hs.function?, ht.function?, hf, hs.spot? f, ht.spot? f⟩,
    c, d, hm.code.encloses hs.has hs.isOpen hf hplain, rfl, rfl⟩

/-- **What a step writes at the cursor is a region** of every function that its code becomes a part of. -/
theorem region_of_sprouting (hm : Sprouting m) (hs : s.builder.At id g c) (hrun : m env s = (.done a, t)) :
    ∃ h d, t.builder.At id h d ∧ g.Sprouts c h [d] ∧ ∀ f, h.Precedes f →
      (∀ b, ¬ g.Has b → f.instsAt b = f.codeAt b) → RegionOf env f m a g h (f.behind g c) (f.behind h d) := by
  obtain ⟨h, d, ht, hsprouted⟩ := exists_sprouted hm (.of_at hs) hrun
  exact ⟨h, d, ht.toAt, hsprouted.code, fun f hf hplain => hsprouted.region hf hplain⟩

/-! ### Short circuits -/

/-- What follows the right operand of a short-circuit operator. Control comes to the block `endBlock` from the
block `source`, where the left operand decides, and from where the code of the right one ends. -/
def joinRight (and : Bool) (source rightBlock endBlock : BlockId) (line : Nat) (rb : Operand) :
    Lower Value := do
  let rightEnd := (← currentBlock).getD rightBlock
  emit line (Build.goto endBlock)
  setBlock endBlock
  let joined ← emit line (Build.phi [(.const (.ofBool !and), source), (rb, rightEnd)] .bool)
  return .ofOperand joined .bool

theorem currentBlock_eq (h : s.builder.block = some c) : currentBlock env s = (.done (some c), s) :=
  congrArg (fun o => (Outcome.done o, s)) h

/-- Where the left operand is not known in advance, the right one is lowered in a block of its own. -/
theorem logical_eq (and : Bool) (right : ExprId) (hleft : truth sub left line env s = (.done lb, u))
    (hlb : lb.const?.bind Constant.truth? = none) (hu : u.builder.Among id g₀ c₀ g c []) :
    ∃ h R E t, logical sub and left right line env s =
        (truth sub right line >>= joinRight and c R E line) env t ∧
      t = { u with builder := t.builder } ∧ t.builder.Among id g₀ c₀ h R [E] ∧ ¬ g₀.Has R ∧ ¬ g₀.Has E ∧
      g.Forks c lb (if and then R else E) (if and then E else R) h := by
  obtain ⟨g₁, hrun₁, h₁, hnew₁, hs₁, hcode₁⟩ := hu.newBlock
  obtain ⟨g₂, hrun₂, h₂, hnew₂, hs₂, hcode₂⟩ := h₁.newBlock
  let R := g.nextBlock
  let E := g₁.nextBlock
  let term : Terminator := .branch lb (if and then R else E) (if and then E else R)
  have htargets : ∀ d ∈ term.successors, ¬ g₀.Has d ∧ d ∈ [E, R] := by
    cases and <;> simp [term, Terminator.successors, hnew₁, hnew₂, R, E]
  have h₃ := h₂.leave (t := term) (.swap R E []) (by simp [term]) htargets
  refine ⟨_, R, E, { u with builder := _ }, ?_, rfl, h₃, hnew₁, hnew₂, ?_⟩
  · show (truth sub left line >>= _) env s = _
    rw [bind_run hleft]
    simp only [hlb]
    rw [bind_run (currentBlock_eq hu.block)]
    dsimp only
    rw [bind_run (emit_of_ok hrun₁), bind_run (emit_of_ok hrun₂)]
    have hclose := h₂.terminate_eq term
    have henter : ∀ w, setBlock R env w = (.done (), { w with builder := w.builder.setBlock R }) :=
      fun _ => rfl
    cases and
    · dsimp only
      rw [if_neg Bool.false_ne_true, bind_run (emit_of_ok hclose), bind_run (henter _)]
      rfl
    · dsimp only
      rw [if_pos rfl, bind_run (emit_of_ok hclose), bind_run (henter _)]
      rfl
  · exact (hs₁.trans hs₂).forks (fun b => (hcode₂ b).trans (hcode₁ b)) lb (by cases and <;> simp [R, E])
      (by cases and <;> simp [R, E])

/-- The right operand joins in, whatever it was lowered to. -/
theorem joinRight_eq (and : Bool) (c R : BlockId) (rb : Operand) (line : Nat) (env : Env)
    (ht : t.builder.Among id g₀ c₀ g d [e]) (he : ¬ g₀.Has e) :
    ∃ op h k u, joinRight and c R e line rb env t = (.done (.ofOperand op .bool), u) ∧
      u.builder.Among id g₀ c₀ k e [] ∧ g.Leads d e h ∧
      h.Joins e [(.const (.ofBool !and), c), (rb, d)] .bool op k := by
  have h₁ := ht.leave (t := .goto e) (.refl [e]) nofun fun x hx => by
    obtain rfl := List.mem_singleton.1 hx
    exact ⟨he, List.mem_singleton_self x⟩
  obtain ⟨op, k, b, hphi, hk, hjoins⟩ := h₁.exists_joins [(.const (.ofBool !and), c), (rb, d)] .bool
  refine ⟨op, _, k, { t with builder := b }, ?_, hk, Function.leads_terminate ht.has ht.isOpen, hjoins⟩
  show (currentBlock >>= _) env t = _
  have hgoto : Build.goto e t.builder = _ := ht.terminate_eq (.goto e)
  rw [bind_run (currentBlock_eq ht.block), bind_run (emit_of_ok hgoto)]
  have henter : ∀ w, setBlock e env w = (.done (), { w with builder := w.builder.setBlock e }) :=
    fun _ => rfl
  rw [bind_run (henter _)]
  exact bind_run (emit_of_ok hphi)

theorem moded_truth (h : SproutingDescent sub) (e : ExprId) (line : Nat) : Moded (truth sub e line) :=
  .of_sprouting (brings_truth h e line)

theorem moded_logical (h : SproutingDescent sub) (and : Bool) (left right : ExprId) (line : Nat) :
    Moded (logical sub and left right line) := by
  have hright := moded_truth h right line
  refine .bind (moded_truth h left line) fun lb => ?_
  split
  · grind
  · refine .bind Moded.currentBlock fun o => ?_
    cases o with
    | none => grind
    | some source =>
      refine .bind (Moded.emit _ _) fun rightBlock => .bind (Moded.emit _ _) fun endBlock => ?_
      cases and <;> refine .bind (Moded.emit _ _) fun _ => ?_ <;> grind

theorem sprouting_logical (h : SproutingDescent sub) (and : Bool) (left right : ExprId) (line : Nat) :
    Sprouting (logical sub and left right line) := by
  refine .of_moded (moded_logical h and left right line) fun env s v t hrun id g c hs => ?_
  obtain ⟨lb, u, hleft, hrest⟩ := bind_eq_done hrun
  obtain ⟨g₁, c₁, hu, -⟩ := exists_sprouted (brings_truth h left line) (.of_at hs) hleft
  cases hlb : lb.const?.bind Constant.truth? with
  | some known =>
    simp only [hlb] at hrest
    have hknown : u.builder.Sprouts t.builder := by
      split at hrest
      · exact (Brings.of_eq_done (D := State.Sprouts) (F := State.SameMode)
          (.bind (brings_truth h right line) fun _ => .pure _) hrest).code
      · exact (Brings.of_eq_done (D := State.Sprouts) (F := State.SameMode) (.pure _) hrest).code
    obtain ⟨g₂, c₂, ht, -⟩ := hu.grow hknown
    exact ⟨g₂, c₂, ht.toAt, ht.sprouts⟩
  | none =>
    obtain ⟨k, R, E, t₀, heq, -, ht₀, -, hE, -⟩ := logical_eq and right hleft hlb hu
    obtain ⟨rb, t₁, hright, hjoin⟩ := bind_eq_done (heq.symm.trans hrun)
    obtain ⟨k₁, d, ht₁, -⟩ := exists_sprouted (brings_truth h right line) ht₀ hright
    obtain ⟨op, -, k₂, u', hjoin', hu', -⟩ := joinRight_eq and c₁ R rb line env ht₁ hE
    obtain ⟨-, rfl⟩ := Prod.mk.inj (hjoin'.symm.trans hjoin)
    exact ⟨k₂, E, hu'.toAt, hu'.sprouts⟩

/-! ### Choices -/

/-- One alternative of a choice. -/
structure Arm where
  expr : ExprId
  /-- What it was lowered to. -/
  value : Value
  /-- What that was converted to. -/
  op : Operand
  /-- The code of the expression was written between two stages of a function. -/
  before : Function
  after : Function
  /-- That of the conversion was written between two later ones. -/
  before' : Function
  after' : Function

/-- A choice between two alternatives. -/
structure Choice where
  env : Env
  sub : Descent
  cond : ExprId
  line : Nat
  /-- The type of the choice, which both alternatives are converted to. -/
  ty : Ty
  /-- The alternative that is chosen, for each truth value of the condition. -/
  arm : Bool → Arm

namespace Choice

variable (x : Choice)

/-- Lowers an alternative. -/
def lower (b : Bool) : Lower Value := x.sub.rvalue (x.arm b).expr

/-- Converts it to the type of the choice. -/
def convert (b : Bool) : Lower Operand := alternative (x.arm b).value x.ty x.line

/-- An alternative was lowered in the empty block `first`, and converted where its code ended. From the block
`last`, where it was left, control goes on to the block `join`. -/
structure Lowers (id : FuncId) (b : Bool) (first last join : BlockId) (next : Function) : Prop where
  empty : (x.arm b).before.codeAt first = []
  parts : ∃ mid,
    Sprouted x.env id (x.lower b) (x.arm b).value (x.arm b).before first (x.arm b).after mid ∧
    (x.arm b).before'.codeAt mid = (x.arm b).after.codeAt mid ∧
    Sprouted x.env id (x.convert b) (x.arm b).op (x.arm b).before' mid (x.arm b).after' last
  leads : (x.arm b).after'.Leads last join next

/-- The stages of a function at which the parts of a choice were written, from the block `c` of the stage `g`
to the block `join` of the stage `k`, where the operand `op` is what was chosen. -/
structure Stages (id : FuncId) (g : Function) (c : BlockId) (op : Operand) (k : Function)
    (join : BlockId) where
  test : Operand
  tested : Function
  fork : BlockId
  first : Bool → BlockId
  last : Bool → BlockId
  next : Bool → Function
  joinTy : Ty
  tests : Sprouted x.env id (truth x.sub x.cond x.line) test g c tested fork
  forks : tested.Forks fork test (first true) (first false) (x.arm true).before
  lowers : ∀ b, x.Lowers id b (first b) (last b) join (next b)
  -- The second alternative was lowered before the first one was converted.
  lowered : (x.arm true).after.Precedes (x.arm false).before
  converts : (x.arm false).after.Precedes (x.arm true).before'
  converted : (next true).Precedes (x.arm false).before'
  last_ne : last true ≠ last false
  new_join : ¬ g.Has join
  empty_join : (next false).codeAt join = []
  joins : (next false).Joins join [((x.arm true).op, last true), ((x.arm false).op, last false)] joinTy op k

end Choice

section Steps

variable {vs : List BlockId} (hs : s.builder.Among id g₀ c₀ g c es)
include hs

theorem exists_among_of_newBlock (hrun : emit line Build.newBlock env s = (.done e, t)) :
    ∃ h, t.builder.Among id g₀ c₀ h c (e :: es) ∧ ¬ g₀.Has e ∧ g.Sprouts c h [c, e] ∧
      ∀ b, h.codeAt b = g.codeAt b := by
  obtain ⟨h, hbuild, ht, hnew, hsprouts⟩ := hs.newBlock
  obtain ⟨rfl, hb⟩ := Prod.mk.inj (Except.ok.inj (hbuild.symm.trans (Leaves.of_emit hrun)))
  exact ⟨h, hb ▸ ht, hnew, hsprouts⟩

theorem among_of_terminate (term : Terminator) (he : es.Perm (e :: vs)) (hret : ∀ op, term ≠ .ret op)
    (htargets : ∀ d ∈ term.successors, ¬ g₀.Has d ∧ d ∈ es)
    (hrun : emit line (Build.terminate term) env s = (.done (), t)) :
    (t.builder.setBlock e).Among id g₀ c₀ (g.terminate c term) e vs := by
  have hleave := hs.leave he hret htargets
  obtain ⟨-, hb⟩ := Prod.mk.inj (Except.ok.inj ((hs.terminate_eq term).symm.trans (Leaves.of_emit hrun)))
  exact hb ▸ hleave

theorem exists_joins_of_emit {sources : List (Operand × BlockId)} {ty : Ty}
    (hrun : emit line (Build.phi sources ty) env s = (.done op, t)) :
    ∃ k, t.builder.Among id g₀ c₀ k c es ∧ g.Joins c sources ty op k := by
  obtain ⟨op', k, b, hphi, hk, hjoins⟩ := hs.exists_joins sources ty
  obtain ⟨rfl, hb⟩ := Prod.mk.inj (Except.ok.inj (hphi.symm.trans (Leaves.of_emit hrun)))
  exact ⟨k, hb ▸ hk, hjoins⟩

end Steps

/-- Control forks to two of three new blocks, and the cursor goes to the first one. -/
theorem exists_forks {yes no join : BlockId} {s₁ s₂ s₃ : State} (hs : s.builder.Among id g₀ c₀ g c [])
    (hyes : emit line Build.newBlock env s = (.done yes, s₁))
    (hno : emit line Build.newBlock env s₁ = (.done no, s₂))
    (hjoin : emit line Build.newBlock env s₂ = (.done join, s₃))
    (hbranch : emit line (Build.branch op yes no) env s₃ = (.done (), t)) :
    ∃ h, (t.builder.setBlock yes).Among id g₀ c₀ h yes [join, no] ∧ g.Forks c op yes no h ∧
      ¬ g₀.Has join ∧ h.codeAt join = [] := by
  obtain ⟨g₁, h₁, hyesNew, hs₁, hcode₁⟩ := exists_among_of_newBlock hs hyes
  obtain ⟨g₂, h₂, hnoNew, hs₂, hcode₂⟩ := exists_among_of_newBlock h₁ hno
  obtain ⟨g₃, h₃, hjoinNew, hs₃, hcode₃⟩ := exists_among_of_newBlock h₂ hjoin
  have hsprouts : g.Sprouts c g₃ [c, join, no, yes] := (hs₁.trans hs₂).trans hs₃
  have hcode : ∀ b, g₃.codeAt b = g.codeAt b := fun b =>
    (hcode₃ b).trans ((hcode₂ b).trans (hcode₁ b))
  have hfirst : [join, no, yes].Perm [yes, join, no] := List.perm_append_singleton yes [join, no]
  refine ⟨_, among_of_terminate h₃ (.branch op yes no) hfirst nofun ?_ hbranch,
    hsprouts.forks hcode op (by simp) (by simp), hjoinNew, ?_⟩
  · simp [Terminator.successors, hyesNew, hnoNew]
  · have hnew : ¬ g.Has join := hsprouts.not_has (by simp)
    exact Function.codeAt_terminate.trans ((hcode join).trans (Function.codeAt_of_not_has hnew))

/-- An alternative that can be lowered is lowered in its block. -/
theorem exists_sprouted_of_alternativeIn (h : SproutingDescent sub) {x : ExprId} {v : Value} {last : BlockId}
    (hs : (s.builder.setBlock e).Among id g₀ c₀ g e es)
    (hrun : alternativeIn sub e x env s = (.done (some v, last), t)) :
    ∃ k, t.builder.Among id g₀ c₀ k last es ∧ Sprouted env id (sub.rvalue x) v g e k last := by
  obtain ⟨_, s₁, hset, hrun⟩ := bind_eq_done hrun
  cases hset
  obtain ⟨o, s₂, hattempt, hrun⟩ := bind_eq_done hrun
  obtain ⟨cur, s₃, hcur, hrun⟩ := bind_eq_done hrun
  cases hcur
  cases hrun
  obtain ⟨k, d, ht, hsprouted⟩ := exists_sprouted (brings_subRvalue h x) hs (of_attempt_some hattempt)
  obtain rfl : d = t.builder.block.getD e := by rw [ht.block]; rfl
  exact ⟨k, ht, hsprouted⟩

/-- An alternative is converted where it was computed, and then control goes on. -/
theorem exists_sprouted_of_joinFrom {source join last : BlockId} {v : Value} {ty : Ty} {vs : List BlockId}
    (hs : (s.builder.setBlock source).Among id g₀ c₀ g source es) (he : es.Perm (e :: vs))
    (hnew : ¬ g₀.Has join) (hjoin : join ∈ es)
    (hrun : joinFrom source join v ty line env s = (.done (op, last), t)) :
    ∃ k k', Sprouted env id (alternative v ty line) op g source k last ∧ k.Leads last join k' ∧
      (t.builder.setBlock e).Among id g₀ c₀ k' e vs := by
  obtain ⟨_, s₁, hset, hrun⟩ := bind_eq_done hrun
  cases hset
  obtain ⟨o, s₂, halternative, hrun⟩ := bind_eq_done hrun
  obtain ⟨cur, s₃, hcur, hrun⟩ := bind_eq_done hrun
  cases hcur
  obtain ⟨_, s₄, hgoto, hrun⟩ := bind_eq_done hrun
  cases hrun
  obtain ⟨k, d, ht, hsprouted⟩ := exists_sprouted (brings_alternative line v ty) hs halternative
  obtain rfl : d = s₂.builder.block.getD source := by rw [ht.block]; rfl
  exact ⟨k, _, hsprouted, Function.leads_terminate ht.has ht.isOpen,
    among_of_terminate ht (.goto join) he nofun (fun d hd => List.mem_singleton.1 hd ▸ ⟨hnew, hjoin⟩) hgoto⟩

/-- What is void is converted to nothing. -/
theorem op_of_alternative {v : Value} {ty : Ty} (hty : ty.isVoid = true)
    (hrun : alternative v ty line env s = (.done op, t)) : op = .const (.undef .void) := by
  rw [alternative, if_pos hty] at hrun
  cases hrun
  rfl

/-- What a choice is joined to: nothing, where it is void, the storage of an aggregate, or a value. -/
theorem exists_joins_of_choice {sources : List (Operand × BlockId)} {ty : Ty} {w : Value}
    (hs : s.builder.Among id g₀ c₀ g c es)
    (hvoid : ty.isVoid = true → Build.commonConstant? sources = some (.const (.undef .void)))
    (hrun : (if ty.isVoid then (return .nothing : Lower Value)
      else if ty.isAggregate then do return .inStorage (← emit line (Build.phi sources ty.pointerTo)) ty
      else do return .ofOperand (← emit line (Build.phi sources ty)) ty) env s = (.done w, t)) :
    ∃ k joinTy, t.builder.Among id g₀ c₀ k c es ∧ g.Joins c sources joinTy w.op k ∧ w.ty = ty := by
  split at hrun
  · next hty =>
    cases hrun
    refine ⟨g, ty, hs, ⟨.refl g, .inl ⟨hvoid hty, rfl⟩⟩, ?_⟩
    cases ty with
    | void => rfl
    | _ => cases hty
  · split at hrun
    all_goals
      obtain ⟨op, s₁, hphi, hrun⟩ := bind_eq_done hrun
      cases hrun
      obtain ⟨k, hk, hjoins⟩ := exists_joins_of_emit hs hphi
      exact ⟨k, _, hk, hjoins, rfl⟩

/-- The parts that a conditional was lowered in. -/
theorem exists_stages (h : SproutingDescent sub) {cond yes no : ExprId} {w : Value}
    (hs : s.builder.At id g c) (hrun : conditional sub cond yes no line env s = (.done w, t)) :
    ∃ arm k join, (∀ b, Arm.expr (arm b) = if b then yes else no) ∧
      choiceTy? (Arm.value (arm true)).ty (Arm.value (arm false)).ty = some w.ty ∧
      Nonempty (Choice.Stages ⟨env, sub, cond, line, w.ty, arm⟩ id g c w.op k join) ∧
      t.builder.Among id g c k join [] := by
  obtain ⟨test, s₁, hcond, hrun⟩ := bind_eq_done hrun
  obtain ⟨g₁, c₁, h₁, htests⟩ := exists_sprouted (brings_truth h cond line) (.of_at hs) hcond
  obtain ⟨yesBlock, s₂, hyes, hrun⟩ := bind_eq_done hrun
  obtain ⟨noBlock, s₃, hno, hrun⟩ := bind_eq_done hrun
  obtain ⟨join, s₄, hjoin, hrun⟩ := bind_eq_done hrun
  obtain ⟨_, s₅, hbranch, hrun⟩ := bind_eq_done hrun
  obtain ⟨g₂, h₂, hforks, hjoinNew, hempty₂⟩ := exists_forks h₁ hyes hno hjoin hbranch
  obtain ⟨⟨y, yesEnd⟩, s₆, hy, hrun⟩ := bind_eq_done hrun
  obtain ⟨⟨n, noEnd⟩, s₇, hn, hrun⟩ := bind_eq_done hrun
  cases y with
  | none => cases hrun
  | some y =>
  cases n with
  | none => cases hrun
  | some n =>
  -- The ends are the join, the second alternative and the first one, which the cursor enters.
  obtain ⟨g₃, h₃, hyesCode⟩ := exists_sprouted_of_alternativeIn h h₂ hy
  have h₃' := h₃.moveTo (.swap noBlock join [])
  obtain ⟨g₄, h₄, hnoCode⟩ := exists_sprouted_of_alternativeIn h h₃' hn
  cases hty : choiceTy? y.ty n.ty with
  | none =>
    simp only [hty] at hrun
    cases hrun
  | some ty =>
    simp only [hty] at hrun
    -- Each of the two ends is gone on with, and then closed.
    obtain ⟨⟨yesOp, yesLast⟩, s₈, hyesJoin, hrun⟩ := bind_eq_done hrun
    have h₄' := h₄.moveTo (.refl [yesEnd, join])
    obtain ⟨g₅, g₆, hyesConversion, hyesLeads, h₆⟩ :=
      exists_sprouted_of_joinFrom h₄' (.refl [noEnd, join]) hjoinNew (by simp) hyesJoin
    obtain ⟨⟨noOp, noLast⟩, s₉, hnoJoin, hrun⟩ := bind_eq_done hrun
    obtain ⟨g₇, g₈, hnoConversion, hnoLeads, h₈⟩ :=
      exists_sprouted_of_joinFrom h₆ (.refl [join]) hjoinNew (by simp) hnoJoin
    obtain ⟨_, s₁₀, hset, hrun⟩ := bind_eq_done hrun
    cases hset
    have hvoid (hty : ty.isVoid = true) :
        Build.commonConstant? [(yesOp, yesLast), (noOp, noLast)] = some (.const (.undef .void)) := by
      obtain ⟨_, _, hyesRun, -⟩ := hyesConversion.run
      obtain ⟨_, _, hnoRun, -⟩ := hnoConversion.run
      rw [op_of_alternative hty hyesRun, op_of_alternative hty hnoRun]
      rfl
    obtain ⟨k, joinTy, hk, hjoins, rfl⟩ := exists_joins_of_choice h₈ hvoid hrun
    let x : Choice := ⟨env, sub, cond, line, w.ty, fun b =>
      bif b then ⟨yes, y, yesOp, g₂, g₃, g₄, g₅⟩ else ⟨no, n, noOp, g₃, g₄, g₆, g₇⟩⟩
    -- What was written meanwhile left the ends and the join as they were.
    have hyesLowers : x.Lowers id true yesBlock yesLast join g₆ := {
      empty := (hforks.arms yesBlock (.inl rfl)).2
      parts := ⟨yesEnd, hyesCode, h₃'.codeAt_eq hnoCode.code (by simp), hyesConversion⟩
      leads := hyesLeads }
    have hnoLowers : x.Lowers id false noBlock noLast join g₈ := {
      empty := (h₂.codeAt_eq hyesCode.code (by simp)).trans (hforks.arms noBlock (.inr rfl)).2
      parts := ⟨noEnd, hnoCode,
        (hyesLeads.code noEnd).trans (h₄'.codeAt_eq hyesConversion.code (by simp)), hnoConversion⟩
      leads := hnoLeads }
    have hjoinCode : g₈.codeAt join = [] := by
      rw [hnoLeads.code, h₆.codeAt_eq hnoConversion.code (by simp), hyesLeads.code,
        h₄'.codeAt_eq hyesConversion.code (by simp), h₃'.codeAt_eq hnoCode.code (by simp),
        h₂.codeAt_eq hyesCode.code (by simp), hempty₂]
    have hne : yesLast ≠ noLast := by
      rintro rfl
      obtain ⟨-, hclosed⟩ := hnoConversion.code.precedes.closed yesLast _ hyesLeads.term
      obtain ⟨-, -, hopen⟩ := hnoConversion.code.isEnd yesLast (by simp)
      cases hopen.symm.trans hclosed
    refine ⟨x.arm, k, join, fun b => by cases b <;> rfl, hty, ⟨?_⟩, hk⟩
    exact {
      test := test
      tested := g₁
      fork := c₁
      first := fun b => bif b then yesBlock else noBlock
      last := fun b => bif b then yesLast else noLast
      next := fun b => bif b then g₆ else g₈
      joinTy := joinTy
      tests := htests
      forks := hforks
      lowers := Bool.forall_bool.2 ⟨hnoLowers, hyesLowers⟩
      lowered := .refl g₃
      converts := .refl g₄
      converted := .refl g₆
      last_ne := hne
      new_join := hjoinNew
      empty_join := hjoinCode
      joins := hjoins }

theorem moded_alternativeIn (h : SproutingDescent sub) (block : BlockId) (e : ExprId) :
    Moded (alternativeIn sub block e) :=
  .bind (Moded.setBlock block) fun _ =>
    .bind (Brings.attempt (Moded.of_sprouting (brings_subRvalue h e))) fun _ =>
      .bind Moded.currentBlock fun _ => .pure _

theorem moded_joinFrom (source join : BlockId) (v : Value) (ty : Ty) (line : Nat) :
    Moded (joinFrom source join v ty line) :=
  .bind (Moded.setBlock source) fun _ => .bind (Moded.of_sprouting (brings_alternative line v ty)) fun _ =>
    .bind Moded.currentBlock fun _ => .bind (Moded.emit _ _) fun _ => .pure _

theorem moded_conditional (h : SproutingDescent sub) (cond yes no : ExprId) (line : Nat) :
    Moded (conditional sub cond yes no line) := by
  refine .bind (moded_truth h cond line) fun c => ?_
  refine .bind (Moded.emit _ _) fun yesBlock => .bind (Moded.emit _ _) fun noBlock => ?_
  refine .bind (Moded.emit _ _) fun join => .bind (Moded.emit _ _) fun _ => ?_
  refine .bind (moded_alternativeIn h _ _) fun y => .bind (moded_alternativeIn h _ _) fun n => ?_
  dsimp only
  split
  · split
    · grind
    · refine .bind (moded_joinFrom _ _ _ _ _) fun fromYes => .bind (moded_joinFrom _ _ _ _ _) fun fromNo => ?_
      grind
  · grind

theorem sprouting_conditional (h : SproutingDescent sub) (cond yes no : ExprId) (line : Nat) :
    Sprouting (conditional sub cond yes no line) := by
  refine .of_moded (moded_conditional h cond yes no line) fun env s v t hrun id g c hs => ?_
  obtain ⟨-, k, join, -, -, -, ht⟩ := exists_stages h hs hrun
  exact ⟨k, join, ht.toAt, ht.sprouts⟩

/-- **The code of every expression sprouts from where it is lowered.** -/
theorem sprouting_descentTo (depth : Nat) : SproutingDescent (descentTo depth) :=
  brings_descentTo (fun h => sprouting_logical h) (fun h => sprouting_conditional h) depth

end Lower

end TreeFlow
