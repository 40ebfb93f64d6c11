import TreeFlow.Proofs.Lowering.Operators
import TreeFlow.Proofs.Lowering.Regions
import TreeFlow.Proofs.Machine.Truth

/-!
# Truth values that are known in advance

A short-circuit operator looks at what its left operand was lowered to, and relies on the truth value of a
constant before the program has run. An address counts as true then, wherever it is. That is safe since
what is lowered for its truth value never is the constant address of something (`plain_truth`): a value of
type `bool` in its natural form is no address, and what is not of type `bool` is compared with zero. So the
truth value that is known in advance is the one that the program comes to (`truth?_of_truth`).

The invariant is about what steps yield, and not about states (`Yielding`), except that the value of an
expression is only loaded from its storage if the mode is the one that was asked for (`Moded`).
-/

namespace TreeFlow

/-- A constant that is neither an address nor the zero of any type. -/
def Constant.isPlain : Constant → Bool
  | .zero _ | .global .. | .function .. => false
  | _ => true

theorem Constant.truth?_of_isPlain {c : Constant} {b : Bool} (hc : c.isPlain = true) (hb : c.truth? = some b)
    (p : Program) (m : Moment) : m.truth? p (.const c) = .ok b := by
  cases c with
  | int v ty =>
    obtain rfl := Option.some.inj hb
    rfl
  | float x | double x =>
    obtain rfl := Option.some.inj hb
    rfl
  | null ty =>
    obtain rfl := Option.some.inj hb
    rfl
  | zero | global | function => cases hc
  | bytes | undef => cases hb

/-- An operand that is a plain constant, if it is one at all. -/
def Operand.IsPlain (op : Operand) : Prop := ∀ c, op = .const c → c.isPlain = true

theorem Operand.IsPlain.inst (x : InstId) : Operand.IsPlain (.inst x) := fun _ h => by cases h

theorem Operand.IsPlain.const {c : Constant} (h : c.isPlain = true) : Operand.IsPlain (.const c) :=
  fun k hk => by
  cases hk
  exact h

/-- A value that is plain, if it is a truth value. -/
def Value.IsPlain (v : Value) : Prop := v.ty = .bool → v.op.IsPlain

theorem Value.IsPlain.of_ne {v : Value} (h : v.ty ≠ .bool) : v.IsPlain := fun hty => absurd hty h

theorem Ty.ne_bool_of_isPointer {t : Ty} (h : t.isPointer = true) : t ≠ .bool := by
  rintro rfl
  cases h

/-- What an expression was lowered to, whose value is plain. -/
def Value.IsNatural (v : Value) : Prop := v.form = .value → v.IsPlain

theorem Constant.isPlain_integral (v : Int) (ty : Ty) : (Constant.integral v ty).isPlain = true := by
  cases ty <;> rfl

theorem Constant.isPlain_of_foldBinary? {op : BinOp} {l r c : Constant} {ty : Ty}
    (h : foldBinary? op l r ty = some c) : c.isPlain = true := by
  unfold foldBinary? at h
  split at h
  · obtain ⟨x, -, h⟩ := Option.bind_eq_some_iff.1 h
    obtain ⟨y, -, h⟩ := Option.bind_eq_some_iff.1 h
    obtain ⟨z, -, h⟩ := Option.bind_eq_some_iff.1 h
    obtain rfl := Option.some.inj h
    cases ty <;> rfl
  · obtain ⟨x, -, h⟩ := Option.bind_eq_some_iff.1 h
    obtain ⟨y, -, h⟩ := Option.bind_eq_some_iff.1 h
    obtain ⟨z, -, h⟩ := Option.bind_eq_some_iff.1 h
    obtain rfl := Option.some.inj h
    exact isPlain_integral z ty

theorem Value.IsPlain.natural {v : Value} (h : v.IsPlain) : v.IsNatural := fun _ => h

/-! ### Operations -/

namespace Build

variable {l r : Operand} {ty : Ty} {b b' : Builder}

/-- An operation yields a plain operand. -/
def IsPlain (m : Build Operand) : Prop := ∀ b a b', m b = .ok (a, b') → a.IsPlain

theorem isPlain_insert (kind : InstKind) (ty : Ty) : IsPlain (insert kind ty) := fun b a b' h => by
  simp only [insert, bind, StateT.bind, Except.bind] at h
  split at h
  · cases h
  · obtain ⟨id, f, -, -, rfl, -⟩ := Steady.withFunction_ok h
    exact .inst _

theorem isPlain_const {c : Constant} (h : c.isPlain = true) : IsPlain (pure (.const c)) :=
  fun b a b' hrun => by
  cases hrun
  exact .const h

theorem isPlain_binary (op : BinOp) (l r : Operand) (ty : Ty) : IsPlain (binary op l r ty) := by
  unfold binary
  split
  · next c hfold =>
    obtain ⟨x, -, hfold⟩ := Option.bind_eq_some_iff.1 hfold
    obtain ⟨y, -, hfold⟩ := Option.bind_eq_some_iff.1 hfold
    exact isPlain_const (Constant.isPlain_of_foldBinary? hfold)
  · exact isPlain_insert _ _

theorem isPlain_cmp (op : CmpOp) (l r : Operand) : IsPlain (cmp op l r) := by
  rcases cmp_eq_or op l r with ⟨x, y, k, -, -, hfold, h⟩ | h <;> rw [h]
  · obtain ⟨vx, vy, b, -, -, -, rfl⟩ := Constant.eval_of_foldCmp? default #[] hfold
    exact isPlain_const rfl
  · exact isPlain_insert _ _

theorem isPlain_phi {incoming : List (Operand × BlockId)} (h : ∀ s ∈ incoming, s.1.IsPlain) (ty : Ty) :
    IsPlain (phi incoming ty) := by
  unfold phi
  split
  · next op hcommon =>
    intro b a b' hrun
    cases hrun
    cases incoming with
    | nil => cases hcommon
    | cons first rest =>
      obtain ⟨-, rfl⟩ : _ ∧ first.1 = op := by simpa [commonConstant?] using hcommon
      exact h first List.mem_cons_self
  · exact isPlain_insert _ _

end Build

namespace Lower

variable {α β : Type}

/-! ### What steps yield -/

/-- What a step yields satisfies a condition. -/
def Yielding (P : α → Prop) (m : Lower α) : Prop := ∀ env s a t, m env s = (.done a, t) → P a

namespace Yielding

variable {P Q : α → Prop} {R : β → Prop} {m : Lower α} {next : α → Lower β}

theorem imp (h : Yielding P m) (hPQ : ∀ a, P a → Q a) : Yielding Q m :=
  fun env s a t ht => hPQ a (h env s a t ht)

theorem pure {a : α} (h : P a) : Yielding P (Pure.pure a : Lower α) := fun env s b t ht => by
  cases ht
  exact h

theorem fail : Yielding P (Lower.fail : Lower α) := fun env s a t ht => by cases ht

theorem halt (why : Stuck) : Yielding P (Lower.halt why : Lower α) := fun env s a t ht => by cases ht

/-- What a step yields is what the rest of it makes of the first part. -/
theorem after (h : Yielding P m) (hnext : ∀ a, P a → Yielding R (next a)) : Yielding R (m >>= next) :=
  fun env s b u hu => by
    obtain ⟨a, t, ht, hu⟩ := bind_eq_done hu
    exact hnext a (h env s a t ht) env t b u hu

/-- What a step yields depends on nothing that was yielded before. -/
theorem bind (hnext : ∀ a, Yielding R (next a)) : Yielding R (m >>= next) :=
  .after (P := fun _ => True) (fun _ _ _ _ _ => trivial) fun a _ => hnext a

theorem failWith (kind : DiagnosticKind) (line : Nat) : Yielding P (Lower.failWith kind line : Lower α) :=
  .bind fun _ => .fail

theorem attempt (h : Yielding P m) : Yielding (fun o => ∀ a, o = some a → P a) (Lower.attempt m) :=
  fun env s _ t ht a ho => h env s a t (of_attempt_some (ho ▸ ht))

theorem emit (line : Nat) {m : Build Operand} (hm : m.IsPlain) :
    Yielding Operand.IsPlain (Lower.emit line m) :=
  fun _ _ _ _ ht => hm _ _ _ (Leaves.of_emit ht)

end Yielding

/-! ### Values -/

section Values

variable {v l r : Value} {ty : Ty} (line : Nat)

/-- What is loaded from storage is no address. -/
theorem plain_toRvalue (h : v.IsNatural) : Yielding Value.IsPlain (toRvalue v line) := by
  obtain ⟨op, ty, form, effects⟩ := v
  unfold toRvalue
  cases form with
  | function => exact .pure (.of_ne ty.pointerTo_ne_bool)
  | value => exact .pure (h rfl)
  | storage =>
    cases ty with
    | struct | union => exact .pure (.of_ne nofun)
    | array element n => exact .bind fun _ => .pure (.of_ne element.pointerTo_ne_bool)
    | void => exact .pure (.of_ne nofun)
    | _ => exact .after (.emit line (Build.isPlain_insert _ _)) fun _ h => .pure fun _ => h

theorem plain_toBool (h : v.IsPlain) : Yielding Operand.IsPlain (toBool v line) := by
  unfold toBool
  split
  · next hbool => exact .pure (h (Ty.eq_bool_of_isBool hbool))
  · cases zeroOf? v.ty with
    | none => exact .failWith _ line
    | some zero => exact .emit line (Build.isPlain_cmp _ _ _)

/-- A value that becomes a truth value is plain then. -/
theorem plain_convert (h : v.IsPlain) : Yielding (fun op => ty = .bool → op.IsPlain) (convert v ty line) := by
  by_cases hty : ty = .bool
  · subst hty
    unfold convert
    split
    · next heq => exact .pure fun _ => h heq
    · split
      · exact .fail
      · split
        · exact (plain_toBool line h).imp fun _ h _ => h
        · next hscalar =>
          have hnone : conversion? v.ty .bool = none := by
            cases hv : v.ty <;>
              simp [hv, Ty.isScalar, Ty.isArithmetic, Ty.isBool, Ty.isInteger, Ty.isFloat, Ty.isPointer] at hscalar
            all_goals rfl
          rw [hnone]
          exact .fail
  · exact fun _ _ _ _ _ heq => absurd heq hty

theorem plain_convertOrReport (h : v.IsPlain) :
    Yielding (fun op => ty = .bool → op.IsPlain) (convertOrReport v ty line) := by
  refine .after (plain_convert line h).attempt fun o ho => ?_
  cases o with
  | some op => exact .pure (ho op rfl)
  | none => exact .failWith _ line

/-- An operation on numbers yields no address. -/
theorem plain_emit {m : Build Operand} (hm : m.IsPlain) :
    Yielding Value.IsNatural (do return .ofOperand (← emit line m) ty) :=
  .after (.emit line hm) fun _ h => .pure fun _ _ => h

/-- A value of another type. -/
theorem plain_of_ne {m : Lower Operand} (hty : ty ≠ .bool) :
    Yielding Value.IsNatural (do return .ofOperand (← m) ty) :=
  .bind fun _ => .pure fun _ => .of_ne hty

theorem plain_pointerOffset (back : Bool) (h : l.ty.isPointer = true) :
    Yielding Value.IsNatural (pointerOffset l r back line) := by
  have hty := Ty.ne_bool_of_isPointer h
  refine .bind fun forward => ?_
  dsimp only
  split
  · exact .bind fun _ => plain_of_ne hty
  · exact .bind fun _ => plain_of_ne hty

theorem plain_pointerDifference : Yielding Value.IsNatural (pointerDifference l r line) := by
  refine .bind fun size => .bind fun lo => .bind fun ro => .bind fun bytes => ?_
  split
  · exact .pure fun _ => .of_ne nofun
  · exact plain_of_ne nofun

theorem plain_pointerCompare (op : BinaryOp) : Yielding Value.IsNatural (pointerCompare op l r line) := by
  refine .bind fun lo => .bind fun ro => ?_
  split
  · exact plain_emit line (Build.isPlain_cmp _ _ _)
  · exact .fail
  · exact .failWith _ line

theorem plain_arithmetic (op : BinaryOp) : Yielding Value.IsNatural (arithmetic op l r line) := by
  refine .bind fun l' => .bind fun r' => ?_
  split
  · exact .failWith _ line
  refine .bind fun found => ?_
  split
  · exact .failWith _ line
  split
  · split
    · exact plain_emit line (Build.isPlain_cmp _ _ _)
    · exact .fail
  · split
    · exact plain_emit line (Build.isPlain_binary _ _ _ _)
    · exact .failWith _ line

theorem plain_combine (op : BinaryOp) : Yielding Value.IsNatural (combine op l r line) := by
  unfold combine
  split
  · next h => exact plain_pointerOffset line _ (by simp_all)
  split
  · next h => exact plain_pointerOffset line _ (by simp_all)
  split
  · exact plain_pointerDifference line
  split
  · exact plain_pointerCompare line op
  · exact plain_arithmetic line op

end Values

/-! ### Expressions -/

section Operands

variable (sub : Descent) (e left right : ExprId) (line : Nat)

theorem plain_addressOf : Yielding Value.IsNatural (addressOf sub e line) := by
  refine .bind fun v => ?_
  split
  · exact .pure fun _ => .of_ne v.ty.pointerTo_ne_bool
  · exact .failWith _ line

theorem plain_deref : Yielding Value.IsNatural (deref sub e line) := by
  refine .bind fun v => ?_
  split
  · exact .failWith _ line
  · split
    · exact .pure nofun
    · exact .pure nofun

theorem plain_negate : Yielding Value.IsNatural (negate sub e line) := by
  refine .bind fun v => ?_
  split
  · exact plain_emit line (Build.isPlain_binary _ _ _ _)
  split
  · exact .bind fun _ => plain_emit line (Build.isPlain_binary _ _ _ _)
  · exact .failWith _ line

theorem plain_step (up before : Bool) : Yielding Value.IsNatural (step sub e up before line) := by
  refine .bind fun node => .bind fun target => ?_
  dsimp only
  split
  · exact .failWith _ line
  refine .after (.emit line (Build.isPlain_insert _ _)) fun old hold => ?_
  have hboth : ∀ {new : Operand} {m : Lower Unit}, (target.ty = .bool → new.IsPlain) →
      Yielding Value.IsNatural (do
        m
        return .ofOperand (if before then new else old) target.ty) := fun hnew =>
    .bind fun _ => .pure fun _ hty => by
      cases before
      · exact hold
      · exact hnew hty
  split
  · next hpointer => exact .bind fun _ => hboth fun hty => absurd hty (Ty.ne_bool_of_isPointer hpointer)
  split
  · exact .after (.emit line (Build.isPlain_binary _ _ _ _)) fun _ hnew => hboth fun _ => hnew
  split
  · exact .after (P := fun _ => False) (.failWith _ line) fun _ hnone => hnone.elim
  · exact .after (.emit line (Build.isPlain_binary _ _ _ _)) fun _ hnew => hboth fun _ => hnew

theorem plain_identifier (name : String) (globally : Bool) :
    Yielding Value.IsNatural (identifier name globally line) := by
  refine .bind fun scopes => ?_
  split
  · next b _ =>
    refine .pure ?_
    split <;> exact nofun
  · exact .failWith _ line

theorem plain_call (args : List ExprId) : Yielding Value.IsNatural (call sub e args line) := by
  refine .bind fun on => ?_
  split
  · exact .failWith _ line
  refine .bind fun f => ?_
  split
  · exact .failWith _ line
  split
  · exact .failWith _ line
  · exact .bind fun ops => plain_emit line (Build.isPlain_insert _ _)

theorem plain_fieldAccess (name : String) : Yielding Value.IsNatural (fieldAccess sub e name line) := by
  refine .bind fun base => .bind fun found => .bind fun table => ?_
  dsimp only
  split
  · exact .bind fun _ => .failWith _ line
  split
  · exact .bind fun _ => .failWith _ line
  split
  · exact .failWith _ line
  · exact .bind fun _ => .pure nofun

theorem plain_element : Yielding Value.IsNatural (element sub left right line) := by
  refine .bind fun b => ?_
  split
  · exact .failWith _ line
  refine .bind fun ptr => .bind fun index => ?_
  split
  · exact .failWith _ line
  · exact .bind fun _ => .bind fun _ => .pure nofun

theorem plain_layoutQuery (id : SpecId) (size : Bool) :
    Yielding Value.IsNatural (layoutQuery sub id size line) := by
  refine .bind fun ty => .bind fun found => .bind fun table => ?_
  split
  · split
    · exact .pure fun _ => .of_ne nofun
    · exact .failWith _ line
  · exact .halt _
  · exact .failWith _ line
  · exact .failWith _ line

end Operands

/-- However the children are lowered, the values of expressions are plain. -/
structure PlainDescent (sub : Descent) : Prop extends SproutingDescent sub where
  plain : ∀ e, Yielding Value.IsNatural (sub.raw e)

section Children

variable {sub : Descent} (h : PlainDescent sub) (e left right : ExprId) (line : Nat)
include h

/-- In the mode in which values are asked for, they are loaded from storage. -/
theorem plain_subRvalue : Yielding Value.IsPlain (sub.rvalue e) := fun env s v t hrun => by
  obtain ⟨hrun, -⟩ := Prod.mk.inj hrun
  obtain ⟨u, hu⟩ : ∃ u, sub.expr e env { s with lvalue := false } = (.done v, u) := ⟨_, Prod.ext hrun rfl⟩
  obtain ⟨raw, t₁, hraw, hrest⟩ := bind_eq_done hu
  obtain ⟨on, t₂, hread, hrest⟩ := bind_eq_done hrest
  cases hread
  have hmode : t₁.lvalue = false := ((h.raw e).of_eq_done hraw).mode
  simp only [hmode, Bool.false_eq_true, if_false] at hrest
  obtain ⟨node, t₃, -, hload⟩ := bind_eq_done hrest
  exact plain_toRvalue _ (h.plain e _ _ _ _ hraw) _ _ _ _ hload

theorem plain_truth : Yielding Operand.IsPlain (truth sub e line) :=
  .after (plain_subRvalue h e) fun _ hv => plain_toBool line hv

theorem plain_logical (and : Bool) : Yielding Value.IsNatural (logical sub and left right line) := by
  have htruth : ∀ e, Yielding Value.IsNatural (do return .ofOperand (← truth sub e line) .bool) := fun e =>
    .after (plain_truth h e line) fun _ hop => .pure fun _ _ => hop
  refine .bind fun lb => ?_
  split
  · split
    · exact htruth right
    · exact .pure fun _ _ => .const rfl
  refine .bind fun o => ?_
  split
  · exact .failWith _ line
  refine .bind fun rightBlock => .bind fun endBlock => ?_
  -- The phi joins a constant with the right operand.
  cases and <;>
  · refine .bind fun _ => .bind fun _ => .after (plain_truth h right line) fun rb hrb => ?_
    refine .bind fun _ => .bind fun _ => .bind fun _ => plain_emit line (Build.isPlain_phi ?_ _)
    rintro s hs
    rcases List.mem_pair.1 hs with rfl | rfl
    · exact .const rfl
    · exact hrb

theorem plain_binary (op : BinaryOp) : Yielding Value.IsNatural (binary sub op left right line) := by
  unfold binary
  split
  · exact plain_logical h left right line true
  · exact plain_logical h left right line false
  · refine .bind fun l => .bind fun r => ?_
    split
    · exact plain_combine line op
    · exact .fail

theorem plain_unary (op : UnaryOp) : Yielding Value.IsNatural (unary sub op e line) := by
  cases op with
  | addressOf => exact plain_addressOf sub e line
  | deref => exact plain_deref sub e line
  | negate => exact plain_negate sub e line
  | plus =>
    refine .after (plain_subRvalue h e) fun v hv => ?_
    split
    · exact .pure hv.natural
    · exact .failWith _ line
  | not => exact .bind fun b => plain_emit line (Build.isPlain_cmp _ _ _)
  | bitNot =>
    refine .bind fun v => ?_
    split
    · exact plain_emit line (Build.isPlain_binary _ _ _ _)
    · exact .failWith _ line
  | preIncrement => exact plain_step sub e line true true
  | preDecrement => exact plain_step sub e line false true

theorem plain_globalScope : Yielding Value.IsNatural (globalScope sub e line) := by
  refine .bind fun node => ?_
  split
  · exact plain_identifier line _ true
  · exact h.plain _

theorem plain_cast (id : SpecId) : Yielding Value.IsNatural (cast sub id e line) := by
  refine .bind fun ty => .after (plain_subRvalue h e) fun v hv => ?_
  split
  · exact .pure fun _ => .of_ne nofun
  · exact .after (plain_convertOrReport line hv) fun _ hop => .pure fun _ => hop

theorem plain_comma : Yielding Value.IsNatural (comma sub left right) :=
  .bind fun _ => .after (h.plain right) fun _ hb => .pure hb

theorem plain_assignTo {target : Value} (htarget : target.isStorage = true) :
    Yielding Value.IsNatural (assignTo sub target e line) := by
  have hform : target.IsNatural := fun hvalue => by simp [Value.isStorage, hvalue] at htarget
  unfold assignTo
  split
  · refine .bind fun v => ?_
    split
    · exact .failWith _ line
    · exact .bind fun _ => .pure hform
  refine .after (plain_subRvalue h e) fun v hv => ?_
  split
  · split
    · exact .failWith _ line
    · exact .bind fun _ => .pure hform
  · exact .after (plain_convertOrReport line hv) fun _ hop => .bind fun _ => .pure fun _ => hop

theorem plain_assign : Yielding Value.IsNatural (assign sub left right line) := by
  refine .bind fun node => .bind fun target => ?_
  split
  · exact .bind fun _ => .fail
  split
  · exact .failWith _ line
  · next t hstorage => exact plain_assignTo h right line (by simp_all)

theorem plain_alternativeIn (block : BlockId) :
    Yielding (fun found => ∀ v, found.1 = some v → v.IsPlain) (alternativeIn sub block e) :=
  .bind fun _ => .after (plain_subRvalue h e).attempt fun _ hv => .bind fun _ => .pure hv

omit h in
theorem plain_joinFrom {v : Value} {ty : Ty} (source join : BlockId) (hv : v.IsPlain) :
    Yielding (fun found => ty = .bool → found.1.IsPlain) (joinFrom source join v ty line) := by
  have halternative : Yielding (fun op => ty = .bool → op.IsPlain) (alternative v ty line) := by
    unfold alternative
    split
    · exact .pure fun hty => by simp_all [Ty.isVoid]
    split
    · exact fun _ _ _ _ _ hty => by simp_all [Ty.isAggregate]
    · exact plain_convertOrReport line hv
  exact .bind fun _ => .after halternative fun _ hop => .bind fun _ => .bind fun _ => .pure hop

theorem plain_conditional (cond : ExprId) :
    Yielding Value.IsNatural (conditional sub cond left right line) := by
  refine .bind fun c => .bind fun yesBlock => .bind fun noBlock => .bind fun join => .bind fun _ => ?_
  refine .after (plain_alternativeIn h left _) fun yes hyes => ?_
  refine .after (plain_alternativeIn h right _) fun no hno => ?_
  dsimp only
  split
  · next y n hy hn =>
    split
    · exact .failWith _ line
    · next ty _ =>
      refine .after (plain_joinFrom line _ _ (hyes y hy)) fun fromYes hfromYes => ?_
      refine .after (plain_joinFrom line _ _ (hno n hn)) fun fromNo hfromNo => .bind fun _ => ?_
      split
      · exact .pure fun _ => .of_ne nofun
      split
      · exact .bind fun _ => .pure nofun
      · by_cases hty : ty = .bool
        · refine plain_emit line (Build.isPlain_phi ?_ _)
          intro s hs
          rcases List.mem_pair.1 hs with rfl | rfl
          · exact hfromYes hty
          · exact hfromNo hty
        · exact plain_of_ne hty
  · exact .fail

theorem plain_rawWith (id : ExprId) : Yielding Value.IsNatural (rawWith sub id) := by
  refine .bind fun node => ?_
  dsimp only
  cases node.kind with
  | integer n => exact .pure fun _ => .of_ne nofun
  | char c => exact .pure fun _ => .of_ne nofun
  | bool b => exact .pure fun _ _ => .const rfl
  | double x => exact .pure fun _ => .of_ne nofun
  | str text => exact .bind fun _ => .pure nofun
  | identifier name => exact plain_identifier _ name false
  | globalScope operand => exact plain_globalScope h operand _
  | call callee args => exact plain_call sub callee _ args
  | field base name => exact plain_fieldAccess sub base _ name
  | index base position => exact plain_element sub base position _
  | binary op left right => exact plain_binary h left right _ op
  | unary op operand => exact plain_unary h operand _ op
  | step op operand => exact plain_step sub operand _ _ false
  | sizeOf spec => exact plain_layoutQuery sub _ spec true
  | alignOf spec => exact plain_layoutQuery sub _ spec false
  | cast spec operand => exact plain_cast h operand _ spec
  | assign target value => exact plain_assign h target value _
  | conditional cond yes no => exact plain_conditional h yes no _ cond
  | comma first second => exact plain_comma h first second

end Children

theorem plainDescent_descentTo (depth : Nat) : PlainDescent (descentTo depth) := by
  induction depth with
  | zero => exact ⟨sprouting_descentTo 0, fun _ => .halt _⟩
  | succ depth ih => exact ⟨sprouting_descentTo (depth + 1), fun e => plain_rawWith ih e⟩

/-- **A truth value that is known in advance is the one that the program comes to.** -/
theorem truth?_of_truth {depth : Nat} {env : Env} {s t : State} {e : ExprId} {line : Nat} {op : Operand}
    {b : Bool} (hrun : truth (descentTo depth) e line env s = (.done op, t))
    (hb : op.const?.bind Constant.truth? = some b) (p : Program) (m : Moment) : m.truth? p op = .ok b := by
  obtain ⟨c, hc, hb⟩ := Option.bind_eq_some_iff.1 hb
  cases op with
  | const k =>
    obtain rfl := Option.some.inj hc
    have hplain := plain_truth (plainDescent_descentTo depth) e line _ _ _ _ hrun k rfl
    exact Constant.truth?_of_isPlain hplain hb p m
  | _ => cases hc

end Lower

end TreeFlow
