import TreeFlow.Lower.Depth
import TreeFlow.Proofs.Lowering.Pointers
import TreeFlow.Proofs.Lowering.ShortCircuit
import TreeFlow.Proofs.Machine.Retrieval

/-!
# The laws of pointer arithmetic

To step, a pointer in storage is loaded, moved by one element, and stored where it was (`Lower.stepPointer`).
Storage that it could be loaded from has room for it, so the step cannot fail, and with pointers of eight bytes
what is stored is what will be loaded (`Lower.exists_stepsPointer`). Nothing else in memory changes.

Together with what sums and differences come to these are the laws that **pointer arithmetic** obeys
(`Lower.pointer_arithmetic`), told for the nodes of a tree: an operator with two operands is applied to what
these were lowered to (`Lower.raw_combine`), and `++` and `--` to the storage of theirs (`Lower.raw_step`). What
comes out is in turn an operand of the operator around it (`Lower.rvalue_of_raw`).
-/

namespace TreeFlow

open Machine

variable {p : Program} {f g h : Function} {c : BlockId} {m : Moment} {here : FuncId}

theorem Function.operandTy_inst {x : InstId} {i : Inst} (hx : f.inst? x = some i) :
    f.operandTy (.inst x) = i.ty := by
  rw [operandTy, hx]
  rfl

namespace Lower

variable {env : Env} {s : State} {element : Ty} {size line : Nat}

/-! ### What the nodes are lowered to -/

/-- Operators with two operands are applied to what these were lowered to, one after the other. -/
theorem raw_combine {depth : Nat} {e left right : ExprId} {op : BinaryOp} {ln : UInt32} {s₁ s₂ : State}
    {l r : Value} (he : env.tree.expr? e = some ⟨.binary op left right, ln⟩) (hand : op ≠ .logicalAnd)
    (hor : op ≠ .logicalOr) (hl : (descentTo depth).rvalue left env s = (.done l, s₁))
    (hr : (descentTo depth).rvalue right env s₁ = (.done r, s₂)) :
    (descentTo (depth + 1)).raw e env s = combine op l r ln.toNat env s₂ := by
  have hl' : attempt ((descentTo depth).rvalue left) env s = (.done (some l), s₁) := by
    rw [attempt, hl]
  have hr' : attempt ((descentTo depth).rvalue right) env s₁ = (.done (some r), s₂) := by
    rw [attempt, hr]
  show rawWith (descentTo depth) e env s = _
  rw [rawWith, bind_run (expr_of_expr? s he)]
  cases op with
  | logicalAnd => exact absurd rfl hand
  | logicalOr => exact absurd rfl hor
  | _ => exact (bind_run hl').trans (bind_run hr')

/-- Lowering for the value brings back the mode from before. -/
theorem lvalue_of_rvalue {sub : Descent} {e : ExprId} {o : Outcome Value} {s' : State}
    (h : sub.rvalue e env s = (o, s')) : s'.lvalue = s.lvalue :=
  congrArg (fun y => y.2.lvalue) h.symm

/-- What is a value as it is, is that for the operator around it as well. -/
theorem rvalue_of_raw {sub : Descent} {e : ExprId} {x : Expr} {v : Value} {s' : State}
    (he : env.tree.expr? e = some x) (hraw : sub.raw e env s = (.done v, s')) (hform : v.form = .value)
    (hs : s.lvalue = false) (hs' : s'.lvalue = false) : sub.rvalue e env s = (.done v, s') := by
  have hmode : read (·.lvalue) env s' = (.done false, s') := by
    rw [← hs']
    rfl
  have hexpr : sub.expr e env s = (.done v, s') := by
    rw [Descent.expr, bind_run hraw, bind_run hmode]
    show (expr e >>= fun x => toRvalue v x.line.toNat) env s' = _
    rw [bind_run (expr_of_expr? s' he), toRvalue, hform]
    rfl
  have hsame : ∀ t : State, t.lvalue = false → { t with lvalue := false } = t := by
    rintro ⟨⟩ rfl
    rfl
  show withLvalue false (sub.expr e) env s = _
  simp only [withLvalue, hsame s hs, hexpr, hs, hsame s' hs']

/-- The node of `++` or `--`, in front of the operand or behind it. -/
def stepNode (up before : Bool) (operand : ExprId) : ExprKind :=
  if before then .unary (if up then .preIncrement else .preDecrement) operand
  else .step (if up then .increment else .decrement) operand

theorem raw_step {depth : Nat} {e operand : ExprId} {ln : UInt32} {up before : Bool} (s : State)
    (he : env.tree.expr? e = some ⟨stepNode up before operand, ln⟩) :
    (descentTo (depth + 1)).raw e env s = step (descentTo depth) operand up before ln.toNat env s := by
  show rawWith (descentTo depth) e env s = _
  rw [rawWith, bind_run (expr_of_expr? s he)]
  cases up <;> cases before <;> rfl

/-! ### What a step is lowered to -/

/-- The distance of a step, in elements. -/
def stepCount (up : Bool) : Operand := .const (.ofInt (if up then 1 else -1) 64)

/-- What `++` or `--` does to a pointer in storage. -/
def stepPointer (target : Value) (up before : Bool) (line : Nat) : Lower Value := do
  let old ← emit line (Build.load target.op target.ty)
  let new ← emit line (Build.offset old (stepCount up) target.ty)
  emit line (Build.store target.op new)
  return .ofOperand (if before then new else old) target.ty

theorem step_eq_stepPointer {sub : Descent} {operand : ExprId} {e : Expr} {target : Value} {s' : State}
    (he : env.tree.expr? operand = some e) (hcomputed : e.kind.isComputed = false)
    (htarget : sub.storage operand env s = (.done target, s')) (hstorage : target.isStorage = true)
    (hty : target.ty = .pointer element) (up before : Bool) (line : Nat) :
    step sub operand up before line env s = stepPointer target up before line env s' := by
  have hscalar : target.ty.isScalar = true := by rw [hty]; rfl
  have hpointer : target.ty.isPointer = true := by rw [hty]; rfl
  rw [step, bind_run (expr_of_expr? s he), bind_run htarget]
  simp only [hstorage, hcomputed, hscalar, hpointer]
  rfl

/-! ### What a step does -/

/-- Memory that a pointer has been read from has room for one. -/
theorem exists_store_of_load {q a : UInt64} {t : Ty} {w : World} (a' : UInt64)
    (hsize : p.sizeOf (.pointer t) = .ok 8)
    (hload : Exec.run (World.load p q (.pointer t)) w = (.ok (.pointer a), w)) :
    ∃ w', Exec.run (World.store p q (.pointer t) (.pointer a')) w = (.ok (), w') := by
  obtain ⟨size, w₁, hsize', h₁⟩ := Exec.run_bind_ok hload
  rw [Exec.run_liftM, hsize] at hsize'
  cases hsize'
  obtain ⟨bs, w₂, hread, -⟩ := Exec.run_bind_ok h₁
  have hlocate : (w.memory.locate q 8).map (w.memory.bytesAt · 8) = .ok bs := congrArg Prod.fst hread
  cases hplace : w.memory.locate q 8 with
  | error e =>
    rw [hplace] at hlocate
    cases hlocate
  | ok place =>
    obtain ⟨hcontains, hlimit, -⟩ := Memory.locate_eq_ok_iff.1 hplace
    exact (World.exists_store_iff rfl).2 ⟨8, hsize, by decide, hcontains, hlimit⟩

/-- A pointer is replaced by another one: its bytes are written, and it is read back. -/
theorem exists_puts_of_load {q a : UInt64} {t : Ty} {w : World} (a' : UInt64)
    (hbytes : p.layout.pointerBytes = 8)
    (hload : Exec.run (World.load p q (.pointer t)) w = (.ok (.pointer a), w)) :
    ∃ w' bs, Exec.run (World.store p q (.pointer t) (.pointer a')) w = (.ok (), w') ∧
      Exec.run (World.load p q (.pointer t)) w' = (.ok (.pointer a'), w') ∧
      List.length bs = 8 ∧ World.Puts q bs w w' := by
  have hwidth : p.layout.pointerBytes.toNat = 8 := by
    rw [hbytes]
    rfl
  have hsize : p.sizeOf (.pointer t) = .ok 8 := congrArg Except.ok hwidth
  obtain ⟨w', hw⟩ := exists_store_of_load a' hsize hload
  rcases World.store_cases hw with ⟨⟨e, herror⟩, -⟩ | ⟨_, bs, -, hlength, -, -, hputs⟩
  · cases herror
  · have height : 8 = bs.length := Except.ok.inj (hsize.symm.trans hlength)
    exact ⟨w', bs, hw, World.keeps_pointer hw (Nat.le_of_eq hwidth.symm), height.symm, hputs⟩

/-- What is meant by a value that is loaded. -/
def loadMeans (ptr : Operand) (ty : Ty) : Meaning := fun p _ m v =>
  ∃ q, m.value? p ptr = .ok (.pointer q) ∧ Exec.run (World.load p q ty) m.world = (.ok v, m.world)

theorem run_load {a : Activation} {x : InstId} {ptr : Operand} {ty : Ty} {q : UInt64} {v : RunValue} {w : World}
    (hq : operand p w.globals a ptr = .ok (.pointer q)) (hload : Exec.run (World.load p q ty) w = (.ok v, w)) :
    Exec.run (instruction p f a x ⟨.load ptr, ty⟩) w = (.ok v, w) := by
  simp only [instruction, address, Exec.run_bind, run_value, hq, Exec.run_liftM, RunValue.address?, hload]

theorem run_store {a : Activation} {x : InstId} {ptr op : Operand} {q : UInt64} {v : RunValue} {w w' : World}
    (hq : operand p w.globals a ptr = .ok (.pointer q)) (hv : operand p w.globals a op = .ok v)
    (hstore : Exec.run (World.store p q (f.operandTy op) v) w = (.ok (), w')) :
    Exec.run (instruction p f a x ⟨.store ptr op, .void⟩) w = (.ok .void, w') := by
  simp only [instruction, address, Exec.run_bind, run_value, hq, hv, Exec.run_liftM, RunValue.address?, hstore,
    Exec.run_pure]

theorem value?_stepCount (m : Moment) (up : Bool) :
    m.value? p (stepCount up) = .ok (.int (if up then 1 else -1)) := by
  cases up <;> rfl

/-- An instruction that yields nothing is written like any other. -/
theorem discard_insert_eq {b : Builder} (hb : b.At here g c) (kind : InstKind) (ty : Ty) :
    (discard (Build.insert kind ty) : Build Unit) b =
      .ok ((), b.write here (g.append c ⟨kind, ty⟩) (some c)) := by
  show (Build.insert kind ty b).bind _ = _
  rw [hb.insert_eq]
  rfl

/-- The code of a step loads the pointer, moves it, and stores it. -/
theorem exists_stepPointer (env : Env) (target : Value) (hs : s.builder.At here g c) (up before : Bool)
    (line : Nat) : ∃ old x b₁ g₁ b₂ g₂ b₃, stepPointer target up before line env s =
        (.done (.ofOperand (if before then .inst x else old) target.ty), { s with builder := b₃ }) ∧
      s.builder.Calculates here c g b₁ g₁ old (loadMeans target.op target.ty) ∧
      b₁.Calculates here c g₁ b₂ g₂ (.inst x) (offsetMeans old (stepCount up) target.ty) ∧
      (∃ kind, g₂.inst? x = some ⟨kind, target.ty⟩) ∧
      b₃.At here (g₂.append c ⟨.store target.op (.inst x), .void⟩) c := by
  -- The distance is not zero, so the instruction that moves the pointer is written.
  have hcount : (stepCount up).const?.bind Constant.int? ≠ some 0 := by cases up <;> decide
  have h₁ := hs.calculates_append (i := ⟨.load target.op, target.ty⟩) (loadMeans target.op target.ty) rfl
    (fun _ _ h => InstKind.noConfusion h) fun p f m v ⟨q, hq, hload⟩ => run_load hq hload
  have h₂ := h₁.stop.calculates_append (i := ⟨.offset (.inst g.nextInst) (stepCount up), target.ty⟩)
    (offsetMeans (.inst g.nextInst) (stepCount up) target.ty) rfl (fun _ _ h => InstKind.noConfusion h)
    fun p f m v ⟨_, _, _, _, hty, hsize, ha, hn, hv⟩ => hv ▸ run_offset hty hsize ha hn
  have hload : Build.load target.op target.ty s.builder = _ := hs.insert_eq _ _
  have hmove : Build.offset (.inst g.nextInst) (stepCount up) target.ty _ = _ :=
    (congrFun (if_neg hcount) _).trans (h₁.stop.insert_eq _ _)
  have hstore : Build.store target.op (.inst (g.append c ⟨.load target.op, target.ty⟩).nextInst) _ = _ :=
    discard_insert_eq h₂.stop _ _
  refine ⟨_, _, _, _, _, _, _, ?_, h₁, h₂, ⟨_, Function.inst?_append_nextInst⟩, (h₂.stop.append rfl).1⟩
  rw [stepPointer, bind_run (emit_of_ok hload), bind_run (emit_of_ok hmove), bind_run (emit_of_ok hstore)]
  rfl

/-- From the end of a block at one stage to its end at a later one, the pointer in the storage goes one element
up, or down. The operands hold the pointer that there was and the one that there is. No other byte changes. -/
def StepsPointer (env : Env) (types : TypeTable) (g h : Function) (c : BlockId) (target : Value) (size : Nat)
    (up : Bool) (old new : Operand) : Prop :=
  ∀ p f below m (q a : UInt64), h.Precedes f → Moment.IsIn m p f → m.spot = f.behind g c →
    p.Suits env types → p.layout.pointerBytes = 8 → m.value? p target.op = .ok (.pointer q) →
    Exec.run (World.load p q target.ty) m.world = (.ok (.pointer a), m.world) →
    ∃ m' bs, Advances p below f g h c m m' ∧ m'.value? p old = .ok (.pointer a) ∧
      m'.value? p new = .ok (.pointer (shifted a 1 size !up)) ∧
      Exec.run (World.load p q target.ty) m'.world = (.ok (.pointer (shifted a 1 size !up)), m'.world) ∧
      List.length bs = 8 ∧ World.Puts q bs m.world m'.world

theorem shifted_stepCount (a : UInt64) (size : Nat) (up : Bool) :
    a + .ofInt ((if up then 1 else -1) * size) = shifted a 1 size !up := by
  cases up <;> rfl

/-- A step moves the pointer in storage by one element. -/
theorem exists_stepsPointer {target : Value} (hs : s.builder.At here g c) (hty : target.ty = .pointer element)
    (hsize : env.config.layout.sizeOf s.builder.mod.types element = .ok size) (hop : g.Offers target.op)
    (up before : Bool) (line : Nat) : ∃ old new b h, stepPointer target up before line env s =
        (.done (.ofOperand (if before then new else old) target.ty), { s with builder := b }) ∧
      b.At here h c ∧ g.Precedes h ∧ StepsPointer env s.builder.mod.types g h c target size up old new := by
  obtain ⟨old, x, b₁, g₁, b₂, g₂, b₃, hrun, hload, hmove, ⟨kind, hx⟩, hend⟩ :=
    exists_stepPointer env target hs up before line
  have hstore : (g₂.append c ⟨.store target.op (.inst x), .void⟩).codeAt c = g₂.codeAt c ++ [g₂.nextInst] :=
    (Function.slots_code_append hmove.stop.whole hmove.stop.has rfl).2.trans (if_pos rfl)
  have hg₂ : g₂.Precedes (g₂.append c ⟨.store target.op (.inst x), .void⟩) := (hmove.stop.append rfl).2.precedes
  refine ⟨old, .inst x, b₃, _, hrun, hend, (hload.precedes.trans hmove.precedes).trans hg₂, ?_⟩
  intro p f below m q a hf hm hspot hsuits hbytes hq ha
  have hf₂ : g₂.Precedes f := hg₂.trans hf
  -- The pointer is loaded and moved,
  obtain ⟨m₁, hadvances₁, hworld₁, hold⟩ :=
    hload.runs below (hmove.precedes.trans hf₂) hm hspot ⟨q, hq, ha⟩
  have hm₁ := hm.through hadvances₁.through
  have hpointee : target.ty.pointee? = some element := by rw [hty]; rfl
  obtain ⟨m₂, hadvances₂, hworld₂, hnew⟩ := hmove.runs below hf₂ hm₁ hadvances₁.spot
    ⟨element, size, a, _, hpointee, hsuits.sizeOf hsize, hold, value?_stepCount m₁ up, rfl⟩
  rw [shifted_stepCount] at hnew
  have hadvances := hadvances₁.trans hload.precedes hmove.precedes hadvances₂
  have hq₂ : m₂.value? p target.op = .ok (.pointer q) := (hadvances.kept _ hop).trans hq
  -- and put where it was read from.
  obtain ⟨w, bs, hw, hback, hlength, hputs⟩ :=
    exists_puts_of_load (shifted a 1 size !up) hbytes (hty ▸ ha)
  have hinst : f.operandTy (.inst x) = .pointer element := (Function.operandTy_inst (hf₂.inst x _ hx)).trans hty
  rw [← hworld₁, ← hworld₂] at hw hputs
  rw [← hinst] at hw
  have hglobals : w.globals = m₂.world.globals := by rw [hputs.world]
  obtain ⟨hadvances₃, -⟩ := advances_append below hstore (fun _ _ h => InstKind.noConfusion h) hf
    (hm.through hadvances.through) hadvances.spot (run_store hq₂ hnew hw) hglobals
  have hkept := hadvances₃.kept
  refine ⟨_, bs, hadvances.trans (hload.precedes.trans hmove.precedes) hg₂ hadvances₃, ?_, ?_, ?_, hlength, ?_⟩
  · rw [hkept old (hmove.precedes.offers hload.offers), hadvances₂.kept old hload.offers, hold]
  · rw [hkept _ hmove.offers, hnew]
  · rw [hty]
    exact hback
  · rw [← hworld₁, ← hworld₂]
    exact hputs

/-! ### The laws -/

/-- **Pointer arithmetic is consistent.** Let the operands of an operator have been lowered, with the cursor at
the end of an open block, and let the elements be at least one byte large. In whatever the function becomes, the
code that is written next does this, for a program of the same layout, whether the operands are constants or
not:

* `n + p` is lowered to the code of `p + n`. That and `p - n` move the address by as many elements, modulo the
  number of addresses, where the number of bytes fits in a word.
* `(p + n) - p` comes to `n`, and `(p + n) - n` to `p`.
* The difference of any two pointers is the number of elements between them.
* `++` and `--`, behind a variable or in front of it, move the pointer in storage by one element up or down, and
  yield what was there or what is there. Pointers are eight bytes wide, so that none is cut when it is stored.

Integers are held as their type says (`Value.IsInt`), which a truth value that is passed on for an integer of a
single bit is not (`KeepsBit`). An operator in a tree is one of those on what its operands were lowered to, and
its outcome is the operand of the operator around it. -/
theorem pointer_arithmetic (hs : s.builder.At here g c)
    (hsize : env.config.layout.sizeOf s.builder.mod.types element = .ok size) (hpos : 1 ≤ size)
    (hlt : size < 2 ^ 63) :
    (∀ ptr index : Value, ptr.ty = .pointer element → g.Offers ptr.op → index.ty.isInteger = true →
      g.Offers index.op → ∀ line₁ line₂,
        combine .add index ptr line₁ = combine .add ptr index line₁ ∧
        (∀ back : Bool, Calculates (combine (if back then .sub else .add) ptr index line₁)
          (Value.ofOperand · ptr.ty) env s here g c
          (arithmeticMeans env s.builder.mod.types ptr index size fun a n =>
            .pointer (a + .ofInt ((if back then -n else n) * size)))) ∧
        Calculates (combine .add ptr index line₁ >>= fun sum => combine .sub sum ptr line₂)
          (Value.ofOperand · .long) env s here g c
          (arithmeticMeans env s.builder.mod.types ptr index size fun _ n => .int n) ∧
        Calculates (combine .add ptr index line₁ >>= fun sum => combine .sub sum index line₂)
          (Value.ofOperand · ptr.ty) env s here g c
          (arithmeticMeans env s.builder.mod.types ptr index size fun a _ => .pointer a)) ∧
    (∀ l r : Value, l.ty = .pointer element → r.ty = .pointer element → g.Offers r.op → ∀ line,
      Calculates (combine .sub l r line) (Value.ofOperand · .long) env s here g c fun p _ m v =>
        ∃ (a : UInt64) (n : Int), m.value? p l.op = .ok (.pointer (a + .ofInt (n * size))) ∧
          m.value? p r.op = .ok (.pointer a) ∧ Signed.InRange 64 (n * size) ∧ v = .int n) ∧
    (∀ {depth : Nat} {e operand : ExprId} {x : Expr} {ln : UInt32} {s₀ : State} {target : Value}
      (up before : Bool), env.tree.expr? e = some ⟨stepNode up before operand, ln⟩ →
      env.tree.expr? operand = some x → x.kind.isComputed = false →
      (descentTo depth).storage operand env s₀ = (.done target, s) → target.isStorage = true →
      target.ty = .pointer element → g.Offers target.op →
      ∃ old new b h, (descentTo (depth + 1)).raw e env s₀ =
          (.done (.ofOperand (if before then new else old) target.ty), { s with builder := b }) ∧
        b.At here h c ∧ g.Precedes h ∧ StepsPointer env s.builder.mod.types g h c target size up old new) ∧
    (∀ {depth : Nat} {e left right : ExprId} {op : BinaryOp} {ln : UInt32} {s₀ s₁ : State} {l r : Value},
      env.tree.expr? e = some ⟨.binary op left right, ln⟩ → op ≠ .logicalAnd → op ≠ .logicalOr →
      (descentTo depth).rvalue left env s₀ = (.done l, s₁) →
      (descentTo depth).rvalue right env s₁ = (.done r, s) →
      (descentTo (depth + 1)).raw e env s₀ = combine op l r ln.toNat env s ∧
        ∀ v b, combine op l r ln.toNat env s = (.done v, { s with builder := b }) → v.form = .value →
          s₀.lvalue = false →
          (descentTo (depth + 1)).rvalue e env s₀ = (.done v, { s with builder := b })) := by
  refine ⟨fun ptr index hptr hop hindex hop' line₁ line₂ => ⟨combine_add_comm hptr hindex line₁, fun back => ?_,
      calculates_add_sub_pointer hs hptr hsize hpos hop hindex hop' hlt line₁ line₂,
      calculates_add_sub_integer hs hptr hsize hpos hop hindex hop' line₁ line₂⟩,
    fun l r hl hr hop line => ?_, fun up before he hoperand hcomputed htarget hstorage hty hop => ?_,
    fun he hand hor hleft hright => ⟨raw_combine he hand hor hleft hright, fun v b hrun hform hmode => ?_⟩⟩
  · have hcombine : combine (if back then .sub else .add) ptr index line₁ =
        pointerOffset ptr index back line₁ := by
      cases back with
      | false => exact combine_add_eq hptr hindex line₁
      | true => exact combine_sub_eq hptr hindex line₁
    rw [hcombine]
    exact calculates_pointerOffset hs hptr hsize hpos hop hindex hop' back line₁
  · rw [combine_difference_eq hl hr]
    exact calculates_pointerDifference hs hl hsize hpos hlt hop line
  · obtain ⟨old, new, b, h, hrun, hend, hprecedes, hsteps⟩ :=
      exists_stepsPointer hs hty hsize hop up before _
    refine ⟨old, new, b, h, ?_, hend, hprecedes, hsteps⟩
    rw [raw_step _ he, step_eq_stepPointer hoperand hcomputed htarget hstorage hty]
    exact hrun
  · have hvalue : s.lvalue = false := (lvalue_of_rvalue hright).trans ((lvalue_of_rvalue hleft).trans hmode)
    exact rvalue_of_raw he ((raw_combine he hand hor hleft hright).trans hrun) hform hmode hvalue

/-- A tree with a step of a variable. -/
def steppingTree : Tree where
  exprs := #[⟨.identifier "p", 1⟩, ⟨stepNode true false ⟨0⟩, 1⟩]

/-- The state in a function that is given the address of the variable, where nothing has been written. -/
def steppingStart : State :=
  { testingStart with
    scopes := { global := { vars := [("p", .ofVariable (.pointer .word) (.arg 0))] } } }

/-- A program that has the function alone. -/
def steppingProgram (f : Function) : Program := ⟨{ name := "", functions := #[f] }, {}⟩

/-- A call of the function, in front of what has been written. The variable is a null pointer on the heap. -/
def steppingMoment (f : Function) : Moment where
  world := { memory := { heap := Array.replicate 8 0 } }
  call :=
    { func := ⟨0⟩
      args := [.pointer 0x100000000]
      values := Array.replicate f.insts.size none
      block := ⟨0⟩
      rest := (f.behind testingFunction ⟨0⟩).rest
      stackEnd := 8 }

theorem load_steppingMoment (f : Function) :
    Exec.run (World.load (steppingProgram f) 0x100000000 (.pointer .word)) (steppingMoment f).world =
      (.ok (.pointer 0), (steppingMoment f).world) := by
  have hsize : (steppingProgram f).sizeOf (.pointer .word) = .ok 8 := rfl
  have hbytes : Memory.loadBytes { heap := Array.replicate 8 0 } 0x100000000 8 = .ok (List.replicate 8 0) := by
    simp [Memory.loadBytes, Memory.locate, Memory.within, Memory.nullGuard, Memory.heapBase,
      Memory.addressLimit, UInt64.size, Memory.bytesAt, Except.map]
  simp only [World.load, World.loadBytes, Exec.run_bind, Exec.run_liftM, Exec.run_query, hsize, steppingMoment,
    hbytes]
  rfl

/-- The call's own address, three words on, is three words away; the variable, a word on, is not null any more,
but was before. -/
theorem pointer_arithmetic_stepping :
    (∃ op b h m', (combine .add (.ofOperand (.arg 0) (.pointer .word)) (.ofConstant (.ofInt 3 64)) 1 >>=
        fun sum => combine .sub sum (.ofOperand (.arg 0) (.pointer .word)) 1) ⟨steppingTree, {}⟩ steppingStart =
          (.done (.ofOperand op .long), { steppingStart with builder := b }) ∧
      Machine.Reaches (steppingProgram h) [] (steppingMoment h) m' ∧
      m'.value? (steppingProgram h) op = .ok (.int 3)) ∧
    ∃ old new b h m' bs, (descentTo 2).raw ⟨1⟩ ⟨steppingTree, {}⟩ steppingStart =
        (.done (.ofOperand old (.pointer .word)), { steppingStart with builder := b }) ∧
      Machine.Reaches (steppingProgram h) [] (steppingMoment h) m' ∧
      m'.value? (steppingProgram h) old = .ok (.pointer 0) ∧
      m'.value? (steppingProgram h) new = .ok (.pointer 4) ∧
      World.Puts 0x100000000 bs (steppingMoment h).world m'.world ∧ bs.length = 8 := by
  have hs : steppingStart.builder.At ⟨0⟩ testingFunction ⟨0⟩ := testingStart_at
  have hsize : (Env.mk steppingTree {}).config.layout.sizeOf steppingStart.builder.mod.types .word = .ok 4 :=
    rfl
  have hstep : (Env.mk steppingTree {}).tree.expr? ⟨1⟩ = some ⟨stepNode true false ⟨0⟩, 1⟩ := rfl
  have hstorage : (descentTo 1).storage ⟨0⟩ ⟨steppingTree, {}⟩ steppingStart =
    (.done (.inStorage (.arg 0) (.pointer .word)), steppingStart) := rfl
  have hin : ∀ h, (steppingMoment h).IsIn (steppingProgram h) h := fun h => ⟨rfl, Array.size_replicate⟩
  have hsuits : ∀ h, (steppingProgram h).Suits ⟨steppingTree, {}⟩ steppingStart.builder.mod.types :=
    fun h => ⟨rfl, .refl _⟩
  obtain ⟨hsums, -, hsteps, -⟩ := pointer_arithmetic hs hsize (by decide) (by decide)
  constructor
  · obtain ⟨-, -, ⟨op, b, h, hrun, hcalc⟩, -⟩ := hsums (.ofOperand (.arg 0) (.pointer .word))
      (.ofConstant (.ofInt 3 64)) rfl trivial rfl trivial 1 1
    obtain ⟨m', hadvances, -, hvalue⟩ := hcalc.runs [] (.refl h) (hin h) rfl
      ⟨_, 3, hsuits h, rfl, ⟨rfl, rfl, nofun⟩, by decide, rfl⟩
    exact ⟨op, b, h, m', hrun, hadvances.through.reaches, hvalue⟩
  · obtain ⟨old, new, b, h, hrun, -, -, hmoves⟩ := hsteps true false hstep rfl rfl hstorage rfl rfl trivial
    obtain ⟨m', bs, hadvances, hold, hnew, -, hlength, hputs⟩ := hmoves (steppingProgram h) h []
      (steppingMoment h) 0x100000000 0 (.refl h) (hin h) rfl (hsuits h) rfl rfl (load_steppingMoment h)
    exact ⟨old, new, b, h, m', bs, hrun, hadvances.through.reaches, hold, hnew, hputs, hlength⟩

end Lower

end TreeFlow
