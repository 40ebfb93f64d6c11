import TreeFlow.Proofs.Machine.Basic

/-!
# Errors that blame a missing value

Two errors say that a value is missing: an instruction was used before it was computed, or a phi has no
value for the edge that control came along. Only reading an operand and running a phi can end in one of
them. Every other operation of the machine spares the values (`Exec.Spares`): whatever goes wrong in it, no
value is missing.
-/

namespace TreeFlow

variable {α β : Type}

/-- Does the error say that a value is missing? -/
def RunError.isMissing : RunError → Bool
  | notComputed _ | noIncoming _ => true
  | _ => false

/-! ### Outcomes -/

/-- If the outcome is an error, it does not say that a value is missing. -/
def RunError.Spares (x : Except RunError α) : Prop := ∀ e, x = .error e → e.isMissing = false

namespace RunError.Spares

theorem ok (a : α) : Spares (.ok a) := fun _ h => nomatch h

theorem error {e : RunError} (h : e.isMissing = false) : Spares (.error e : Except RunError α) :=
  fun _ heq => Except.error.inj heq ▸ h

theorem bind {x : Except RunError α} {next : α → Except RunError β} (hx : Spares x)
    (hnext : ∀ a, Spares (next a)) : Spares (x >>= next) := by
  cases x with
  | ok a => exact hnext a
  | error e => exact error (hx e rfl)

theorem map {x : Except RunError α} (f : α → β) (hx : Spares x) : Spares (x.map f) := by
  cases x with
  | ok a => exact ok _
  | error e => exact error (hx e rfl)

theorem mapError {ε : Type} {x : Except ε α} {f : ε → RunError}
    (h : ∀ e, (f e).isMissing = false) : Spares (x.mapError f) := by
  cases x with
  | ok a => exact ok _
  | error e => exact error (h e)

end RunError.Spares

/-- If the operation goes wrong, no value is missing. -/
def Exec.Spares (m : Exec α) : Prop := ∀ w, RunError.Spares (Exec.run m w).1

namespace Exec.Spares

theorem pure (a : α) : Exec.Spares (Pure.pure a) := fun _ => .ok a

theorem throw {e : RunError} (h : e.isMissing = false) : Exec.Spares (throw e : Exec α) :=
  fun _ => .error h

theorem query {f : World → Except RunError α} (h : ∀ w, RunError.Spares (f w)) :
    Exec.Spares (World.query f) := h

theorem lift {x : Except RunError α} (h : RunError.Spares x) : Exec.Spares (liftM x : Exec α) := fun w => by
  rw [run_liftM]
  exact h

theorem modify (f : World → World) : Exec.Spares (modify f : Exec Unit) := fun _ => .ok ()

theorem get : Exec.Spares (MonadState.get : Exec World) := fun _ => .ok _

theorem bind {m : Exec α} {next : α → Exec β} (hm : Exec.Spares m)
    (hnext : ∀ a, Exec.Spares (next a)) : Exec.Spares (m >>= next) := fun w => by
  rw [run_bind]
  rcases hrun : run m w with ⟨e | a, w'⟩
  · refine .error (hm w e ?_)
    rw [hrun]
  · exact hnext a w'

/-- Something is ruled out before the rest. -/
theorem guard {c : Prop} [Decidable c] {e : RunError} {next : Exec α} (h : e.isMissing = false)
    (hnext : Exec.Spares next) :
    Exec.Spares (if c then MonadExcept.throw e >>= fun _ : PUnit => next else next) := by
  split
  · exact .bind (.throw h) fun _ => hnext
  · exact hnext

end Exec.Spares

/-! ### Values -/

section Values

open RunError (Spares)

variable (v l r : RunValue) (ty : Ty) (p : Program)

namespace RunValue

theorem spares_int? : Spares v.int? := by
  cases v <;> first | exact .ok _ | exact .error rfl

theorem spares_float? : Spares v.float? := by
  cases v <;> first | exact .ok _ | exact .error rfl

theorem spares_address? : Spares v.address? := by
  cases v <;> first | exact .ok _ | exact .error rfl

theorem spares_truth? : Spares v.truth? := by
  unfold truth?
  split
  · exact .ok _
  · exact (spares_int? v).map _

theorem spares_resizeBytes (contents : List UInt8) (length : Nat) :
    Spares (resizeBytes contents length) := by
  unfold resizeBytes
  split
  · exact .error rfl
  · exact .ok _

theorem spares_encode? : Spares (v.encode? ty) := by
  unfold encode?
  split <;> first | exact .ok _ | exact .error rfl

theorem spares_decode? (contents : List UInt8) : Spares (decode? ty contents) := by
  unfold decode?
  split <;> first | exact .ok _ | (split <;> first | exact .ok _ | exact .error rfl)

end RunValue

theorem BinOp.spares_evalInt? (op : BinOp) (x y : Int) : Spares (op.evalInt? x y) := by
  cases op <;> first
    | exact .ok _
    | exact .error rfl
    | (simp only [evalInt?]; split <;> first | exact .ok _ | exact .error rfl)

theorem BinOp.spares_eval (op : BinOp) : Spares (op.eval l r ty) := by
  unfold eval
  split
  · refine (l.spares_float?).bind fun x => (r.spares_float?).bind fun y => ?_
    split
    · exact .ok _
    · exact .error rfl
  · refine (l.spares_int?).bind fun x => (r.spares_int?).bind fun y => ?_
    exact (op.spares_evalInt? x y).bind fun _ => .ok _

theorem CmpOp.spares_eval (op : CmpOp) : Spares (op.eval l r) := by
  unfold eval
  split
  · exact .ok _
  · exact (RunValue.spares_address? _).bind fun _ => .ok _
  · exact (RunValue.spares_address? _).bind fun _ => .ok _
  · exact (RunValue.spares_int? _).bind fun _ => (RunValue.spares_int? _).bind fun _ => .ok _

theorem CastOp.spares_eval (op : CastOp) (source target : Ty) :
    Spares (op.eval v source target) := by
  cases op <;> first
    | exact .ok _
    | exact (RunValue.spares_int? _).bind fun _ => .ok _
    | exact (RunValue.spares_float? _).bind fun _ => .ok _
    | exact (RunValue.spares_address? _).bind fun _ => .ok _

end Values

/-! ### Memory -/

namespace Memory

open RunError (Spares)

variable (m : Memory) (address : UInt64) (length : Nat)

theorem spares_within (place : Place) (offset size : Nat) :
    Spares (within place address offset length size) := by
  unfold within
  split
  · exact .error rfl
  · split
    · exact .ok _
    · exact .error rfl

theorem spares_locate : Spares (m.locate address length) := by
  unfold locate
  dsimp only
  split
  · exact .error rfl
  · split <;> exact spares_within _ _ _ _ _

theorem spares_loadBytes : Spares (m.loadBytes address length) :=
  (m.spares_locate address length).map _

theorem spares_textBytes (most : Nat) : Spares (m.textBytes most address) := by
  induction most generalizing address with
  | zero => exact .error rfl
  | succ most ih =>
    refine (m.spares_loadBytes address 1).bind fun bytes => ?_
    split
    · split
      · exact .ok _
      · exact (ih _).bind fun _ => .ok _
    · exact .ok _

theorem spares_text : Spares (m.text address) := (m.spares_textBytes address _).map _

end Memory

namespace World

open RunError (Spares)

variable (p : Program) (ty : Ty) (address : UInt64)

theorem spares_sizeOf : Spares (p.sizeOf ty) := .mapError fun _ => rfl

theorem spares_alignOf : Spares (p.alignOf ty) := .mapError fun _ => rfl

theorem spares_fieldOffset (index : Nat) : Spares (p.fieldOffset ty index) := .mapError fun _ => rfl

theorem spares_loadBytes (length : Nat) : (loadBytes address length).Spares :=
  .query fun w => w.memory.spares_loadBytes address length

theorem spares_storeBytes (contents : List UInt8) : (storeBytes address contents).Spares :=
  .bind (.query fun w => w.memory.spares_locate address _) fun _ => .modify _

theorem spares_load : (load p address ty).Spares :=
  .bind (.lift (spares_sizeOf p ty)) fun size =>
    .bind (spares_loadBytes address size) fun bytes => .lift (RunValue.spares_decode? ty bytes)

theorem spares_store (v : RunValue) : (store p address ty v).Spares :=
  .bind (.lift (spares_sizeOf p ty)) fun size => .bind (.lift (v.spares_encode? ty)) fun bytes =>
    .bind (.lift (RunValue.spares_resizeBytes bytes size)) fun _ => spares_storeBytes address _

theorem spares_alloca : (alloca p ty).Spares :=
  .bind (.lift (spares_sizeOf p ty)) fun _ => .bind (.lift (spares_alignOf p ty)) fun _ =>
    .bind .get fun _ => .guard rfl (.guard rfl (.bind (.modify _) fun _ => .pure _))

theorem spares_malloc (size : Nat) : (malloc size).Spares :=
  .bind .get fun _ => .guard rfl (.bind (.modify _) fun _ => .pure _)

theorem spares_zero : Spares (zero p ty) := by
  cases ty <;> first
    | exact .ok _
    | exact (spares_sizeOf p _).bind fun _ => (RunValue.spares_resizeBytes _ _).bind fun _ => .ok _

theorem spares_constant (globals : Array UInt64) (c : Constant) :
    Spares (constant p globals c) := by
  unfold constant
  split <;> first
    | exact .ok _
    | exact spares_zero p _
    | (split <;> first | exact .ok _ | exact .error rfl)

end World

/-! ### Library functions -/

namespace Directive

theorem spares_convert (m : Memory) (d : Directive) (conversion : Char) (arg : RunValue) :
    RunError.Spares (d.convert m conversion arg) := by
  unfold convert
  split <;> first
    | exact (RunValue.spares_int? _).bind fun _ => .ok _
    | exact (RunValue.spares_address? _).bind fun _ => m.spares_text _
    | exact (RunValue.spares_float? _).bind fun _ => .ok _
    | exact (RunValue.spares_address? _).bind fun _ => .ok _
    | exact .error rfl

theorem spares_expandFormat (m : Memory) (most : Nat) (cs : List Char) (args : List RunValue) :
    RunError.Spares (expandFormat m most cs args) := by
  induction most generalizing cs args with
  | zero => exact .ok _
  | succ most ih =>
    simp only [expandFormat]
    split
    · exact .ok _
    · split
      · exact .error rfl
      · exact (ih _ _).bind fun _ => .ok _
      · split
        · exact .error rfl
        · exact (spares_convert m _ _ _).bind fun _ => (ih _ _).bind fun _ => .ok _

end Directive

namespace Library

theorem spares_argument (name : String) (args : List RunValue) (i : Nat) :
    RunError.Spares (argument name args i) := by
  unfold argument
  split
  · exact .ok _
  · exact .error rfl

theorem spares_text (v : RunValue) : (text v).Spares :=
  .bind (.lift v.spares_address?) fun _ => .query fun w => w.memory.spares_text _

theorem spares_call (name : String) (args : List RunValue) : (call name args).Spares := by
  unfold call
  split
  · refine .bind (.lift (spares_argument _ _ _)) fun v => .bind (spares_text v) fun format => ?_
    exact .bind (.query fun w => Directive.spares_expandFormat _ _ _ _) fun _ =>
      .bind (.modify _) fun _ => .pure _
  · exact .bind (.lift (spares_argument _ _ _)) fun v => .bind (spares_text v) fun _ =>
      .bind (.modify _) fun _ => .pure _
  · exact .bind (.lift (spares_argument _ _ _)) fun v => .bind (.lift v.spares_int?) fun _ =>
      .bind (.modify _) fun _ => .pure _
  · exact .bind (.lift (spares_argument _ _ _)) fun v => .bind (.lift v.spares_int?) fun _ =>
      World.spares_malloc _
  · exact .pure _
  · exact .throw rfl

end Library

end TreeFlow
