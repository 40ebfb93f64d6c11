import Mathlib.Logic.Relation
import TreeFlow.Proofs.Graph.Finished
import TreeFlow.Proofs.Machine.Missing

/-!
# Running finished functions

While a finished function runs, control follows a path of its graph, and everything that stands on the
way has been computed (`Activation.Follows`). Each step keeps this, so in such a function the machine
never misses a value (`Machine.neverMisses`).
-/

namespace TreeFlow

/-! ### Activations -/

namespace Activation

variable {a : Activation} {f : Function} {x y : InstId} {v : RunValue}

/-- The instruction has yielded a value. -/
def Computed (a : Activation) (x : InstId) : Prop := ∃ v, a.values[x.index]? = some (some v)

/-- The operand has a value as far as instructions are concerned. -/
def Provides (a : Activation) (op : Operand) : Prop := ∀ x, op = .inst x → a.Computed x

/-- Control came along a path of the function, and everything that stands on the way has been
computed. -/
structure Follows (a : Activation) (f : Function) (way : List BlockId) : Prop where
  path : f.Path (a.block :: way)
  prev : a.prev = way.head?
  size : a.values.size = f.insts.size
  passed : ∀ b ∈ way, ∀ x ∈ f.instsAt b, a.Computed x
  here : ∃ before, f.instsAt a.block = before ++ a.rest ∧ ∀ x ∈ before, a.Computed x

@[simp] theorem func_deliver (a : Activation) (v : RunValue) : (a.deliver v).func = a.func := by
  unfold Activation.deliver
  split <;> rfl

/-- Delivering a value takes none away. -/
theorem Computed.deliver (h : a.Computed x) (v : RunValue) : (a.deliver v).Computed x := by
  obtain ⟨u, hu⟩ := h
  unfold Activation.deliver
  split
  · exact ⟨u, hu⟩
  · next y rest _ =>
    show ∃ u, (a.values.setIfInBounds y.index (some v))[x.index]? = some (some u)
    rw [Array.getElem?_setIfInBounds]
    split
    · next heq =>
      rw [if_pos (heq ▸ (Array.getElem?_eq_some_iff.1 hu).1)]
      exact ⟨v, rfl⟩
    · exact ⟨u, hu⟩

namespace Follows

variable {way : List BlockId}

/-- The value of the instruction at hand is there afterwards. -/
theorem deliver (h : a.Follows f way) (hf : f.Whole) (v : RunValue) :
    (a.deliver v).Follows f way := by
  obtain ⟨before, hsplit, hbefore⟩ := h.here
  cases hrest : a.rest with
  | nil =>
    have hself : a.deliver v = a := by rw [Activation.deliver, hrest]
    rwa [hself]
  | cons x rest =>
    have hdeliver : a.deliver v =
        { a with values := a.values.setIfInBounds x.index (some v), rest } := by
      rw [Activation.deliver, hrest]
    have hx : x.index < a.values.size := by
      have hinst : (f.inst? x).isSome := hf a.block x (by rw [hsplit, hrest]; simp)
      rw [h.size]
      exact (Array.getElem?_eq_some_iff.1 (Option.eq_some_of_isSome hinst)).1
    have hcomputed : (a.deliver v).Computed x := by
      rw [hdeliver]
      exact ⟨v, by simp [hx]⟩
    have hmono : ∀ y, a.Computed y → (a.deliver v).Computed y := fun _ hy => hy.deliver v
    rw [hdeliver] at hcomputed hmono ⊢
    exact {
      path := h.path
      prev := h.prev
      size := by rw [← h.size]; exact Array.size_setIfInBounds
      passed := fun b hb y hy => hmono y (h.passed b hb y hy)
      here := ⟨before ++ [x], by simp [hsplit, hrest], fun y hy =>
        (List.mem_append.1 hy).elim (fun hy => hmono y (hbefore y hy))
          fun hy => List.mem_singleton.1 hy ▸ hcomputed⟩ }

/-- When a block has run, control goes on to one of its successors. -/
theorem jump (h : a.Follows f way) (hrest : a.rest = []) {target : BlockId}
    (htarget : target ∈ f.successors a.block) :
    { a with block := target, rest := f.instsAt target, prev := some a.block }.Follows f
      (a.block :: way) where
  path := .step h.path htarget
  prev := rfl
  size := h.size
  passed b hb x hx := by
    rcases List.mem_cons.1 hb with rfl | hb
    · obtain ⟨before, hsplit, hbefore⟩ := h.here
      rw [hsplit, hrest, List.append_nil] at hx
      exact hbefore x hx
    · exact h.passed b hb x hx
  here := ⟨[], rfl, fun _ hx => absurd hx List.not_mem_nil⟩

variable (hf : f.IsFinished)
include hf

/-- The operands of an instruction have values when it is its turn. -/
theorem provides (h : a.Follows f way) {rest : List InstId} (hrest : a.rest = x :: rest)
    {i : Inst} (hi : f.inst? x = some i) (hin : i.kind.incoming? = none) {op : Operand}
    (hop : op ∈ i.kind.operands) : a.Provides op := by
  rintro y rfl
  obtain ⟨before, hsplit, hbefore⟩ := h.here
  rw [hrest] at hsplit
  rcases hf.inst a.block ⟨way, h.path⟩ before x rest i hsplit hi hin y hop with
    hy | ⟨d, hne, hd, hy⟩
  · exact hbefore y hy
  · exact h.passed d ((List.mem_cons.1 (hd way h.path)).resolve_left hne) y hy

/-- The operands of a terminator have values at the end of its block. -/
theorem provides_term (h : a.Follows f way) (hrest : a.rest = []) {t : Terminator}
    (ht : f.termAt a.block = some t) {op : Operand} (hop : op ∈ t.operands) : a.Provides op := by
  rintro y rfl
  obtain ⟨d, hd, hy⟩ := hf.term a.block ⟨way, h.path⟩ t ht y hop
  rcases List.mem_cons.1 (hd way h.path) with rfl | hmem
  · obtain ⟨before, hsplit, hbefore⟩ := h.here
    rw [hsplit, hrest, List.append_nil] at hy
    exact hbefore y hy
  · exact h.passed d hmem y hy

/-- A phi has a value for the edge that control came along. -/
theorem exists_incoming (h : a.Follows f way) {rest : List InstId} (hrest : a.rest = x :: rest)
    {i : Inst} (hi : f.inst? x = some i) {sources : List (Operand × BlockId)}
    (hin : i.kind.incoming? = some sources) :
    ∃ op b, sources.find? (fun (_, block) => a.prev == some block) = some (op, b) ∧
      a.Provides op := by
  obtain ⟨before, hsplit, -⟩ := h.here
  have hx : x ∈ f.instsAt a.block := by rw [hsplit, hrest]; simp
  cases hpath : h.path with
  | entry he => exact absurd (hf.not_phi_entry _ he x hx i hi) (by simp [hin])
  | @step b _ rest' path edge =>
    have hpred : b ∈ f.predecessors a.block := by
      refine List.mem_filter.2 ⟨(hf.layout b).2 (Function.has_of_mem_successors edge), ?_⟩
      simpa using edge
    have hmem := ((hf.phi a.block x hx i sources hi hin).2 _).2 hpred
    obtain ⟨⟨op, b'⟩, hsource, rfl⟩ := List.mem_map.1 hmem
    have hfound : (sources.find? fun (_, block) => a.prev == some block).isSome := by
      rw [List.find?_isSome]
      exact ⟨(op, b'), hsource, by simp [h.prev]⟩
    obtain ⟨⟨op, c⟩, hfind⟩ := Option.isSome_iff_exists.1 hfound
    obtain rfl : b' = c := by
      have := List.find?_some hfind
      simpa [h.prev] using this
    refine ⟨op, b', hfind, ?_⟩
    rintro y rfl
    obtain ⟨d, hd, hy⟩ := hf.source a.block x hx i sources hi hin y b'
      (List.mem_of_find?_eq_some hfind)
    exact h.passed d (hd rest' path) y hy

end Follows

end Activation

/-! ### Steps -/

namespace Machine

variable {p : Program} {f : Function} {a : Activation} {op : Operand} {x : InstId} {i : Inst}

theorem spares_operand (globals : Array UInt64) (h : a.Provides op) :
    RunError.Spares (operand p globals a op) := by
  cases op with
  | const c => exact World.spares_constant p globals c
  | arg i =>
    unfold operand
    dsimp only
    split
    · exact .ok _
    · exact .error rfl
  | inst y =>
    obtain ⟨v, hv⟩ := h y rfl
    rw [operand, hv]
    exact .ok v

theorem spares_value (h : a.Provides op) : (value p a op).Spares :=
  .query fun w => spares_operand w.globals h

theorem spares_address (h : a.Provides op) : (address p a op).Spares :=
  .bind (spares_value h) fun v => .lift v.spares_address?

theorem spares_offset {ptr index : Operand} (hptr : a.Provides ptr) (hindex : a.Provides index)
    (ty : Ty) : (offset p a ptr index ty).Spares := by
  unfold offset
  split
  · exact .throw rfl
  · exact .bind (.lift (World.spares_sizeOf p _)) fun _ => .bind (spares_address hptr) fun _ =>
      .bind (spares_value hindex) fun v => .bind (.lift v.spares_int?) fun _ => .pure _

theorem spares_field (h : a.Provides op) (index : Nat) (ty : Ty) :
    (field p a op index ty).Spares := by
  unfold field
  split
  · exact .throw rfl
  · exact .bind (.lift (World.spares_fieldOffset p _ _)) fun _ =>
      .bind (spares_address h) fun _ => .pure _

/-- An instruction whose operands have values, or a phi that has one for the edge that control came
along. -/
theorem spares_instruction
    (hoperands : i.kind.incoming? = none → ∀ op ∈ i.kind.operands, a.Provides op)
    (hincoming : ∀ sources, i.kind.incoming? = some sources → ∃ op b,
      sources.find? (fun (_, block) => a.prev == some block) = some (op, b) ∧ a.Provides op) :
    (instruction p f a x i).Spares := by
  obtain ⟨kind, ty⟩ := i
  unfold instruction
  cases kind with
  | phi sources =>
    obtain ⟨op, b, hfind, hop⟩ := hincoming sources rfl
    simp only [incoming, hfind]
    exact spares_value hop
  | alloca ty => exact World.spares_alloca p ty
  | load ptr =>
    exact .bind (spares_address (hoperands rfl _ (by simp [InstKind.operands]))) fun _ =>
      World.spares_load p _ _
  | store ptr v =>
    exact .bind (spares_address (hoperands rfl _ (by simp [InstKind.operands]))) fun _ =>
      .bind (spares_value (hoperands rfl _ (by simp [InstKind.operands]))) fun _ =>
        .bind (World.spares_store p _ _ _) fun _ => .pure _
  | copy dst src ty =>
    exact .bind (spares_address (hoperands rfl _ (by simp [InstKind.operands]))) fun _ =>
      .bind (spares_address (hoperands rfl _ (by simp [InstKind.operands]))) fun _ =>
        .bind (.lift (World.spares_sizeOf p ty)) fun _ =>
          .bind (World.spares_loadBytes _ _) fun _ =>
            .bind (World.spares_storeBytes _ _) fun _ => .pure _
  | binary op l r =>
    exact .bind (spares_value (hoperands rfl _ (by simp [InstKind.operands]))) fun u =>
      .bind (spares_value (hoperands rfl _ (by simp [InstKind.operands]))) fun v =>
        .lift (op.spares_eval u v ty)
  | cmp op l r =>
    exact .bind (spares_value (hoperands rfl _ (by simp [InstKind.operands]))) fun u =>
      .bind (spares_value (hoperands rfl _ (by simp [InstKind.operands]))) fun v =>
        .bind (.lift (op.spares_eval u v)) fun _ => .pure _
  | cast op v =>
    exact .bind (spares_value (hoperands rfl _ (by simp [InstKind.operands]))) fun u =>
      .lift (op.spares_eval u _ ty)
  | offset ptr index =>
    exact spares_offset (hoperands rfl _ (by simp [InstKind.operands]))
      (hoperands rfl _ (by simp [InstKind.operands])) ty
  | field base index =>
    exact spares_field (hoperands rfl _ (by simp [InstKind.operands])) index _
  | call callee args => exact .pure _

/-! ### Calls and jumps -/

theorem spares_blockStart (f : Function) (b : BlockId) : RunError.Spares (blockStart f b) := by
  unfold blockStart
  split
  · exact .ok _
  · exact .error rfl

theorem spares_enter (id : FuncId) (args : List RunValue) (depth : Nat) :
    (enter p id args depth).Spares := by
  unfold enter
  split
  · exact .throw rfl
  · next g _ =>
    split
    · exact .bind (Library.spares_call _ _) fun _ => .pure _
    · refine .bind (.guard rfl ?_) fun _ => .pure _
      split
      · exact .throw rfl
      · exact .bind (.lift (spares_blockStart g _)) fun _ => .bind .get fun _ => .pure _

theorem spares_valuesOf {ops : List Operand} (h : ∀ op ∈ ops, a.Provides op) :
    (valuesOf p a ops).Spares := by
  induction ops with
  | nil => exact .pure _
  | cons op ops ih =>
    exact .bind (spares_value (h op List.mem_cons_self)) fun _ =>
      .bind (ih fun op hop => h op (List.mem_cons_of_mem _ hop)) fun _ => .pure _

theorem spares_callFrom {callee : Operand} {args : List Operand} (hcallee : a.Provides callee)
    (hargs : ∀ op ∈ args, a.Provides op) (depth : Nat) :
    (callFrom p a callee args depth).Spares :=
  .bind (spares_address hcallee) fun _ => .guard rfl
    (.bind (spares_valuesOf hargs) fun _ => spares_enter _ _ _)

theorem spares_follow {t : Option Terminator} (h : ∀ t', t = some t' → ∀ op ∈ t'.operands, a.Provides op) :
    (follow p f a t).Spares := by
  unfold follow
  split
  · exact .throw rfl
  · exact .bind (spares_value (h _ rfl _ (by simp [Terminator.operands]))) fun _ => .pure _
  · exact .pure _
  · exact .pure _
  · exact .bind (spares_value (h _ rfl _ (by simp [Terminator.operands]))) fun v =>
      .bind (.lift v.spares_truth?) fun _ => .pure _
  · exact .throw rfl

/-- A jump leads to a successor of the block. -/
theorem mem_successors_of_follow {w w' : World} {target : BlockId}
    (h : Exec.run (follow p f a (f.termAt a.block)) w = (.ok (.inr target), w')) :
    target ∈ f.successors a.block := by
  rw [Function.successors_eq]
  cases ht : f.termAt a.block with
  | none => simp [follow, ht] at h
  | some t =>
    rw [ht] at h
    cases t with
    | ret v =>
      cases v with
      | none => simp [follow] at h
      | some v =>
        simp only [follow, Exec.run_bind, run_value] at h
        split at h <;> simp_all
    | goto b =>
      simp only [follow, Exec.run_pure, Prod.mk.injEq, Except.ok.injEq, Sum.inr.injEq] at h
      simp [Terminator.successors, h.1]
    | branch c yes no =>
      simp only [follow, Exec.run_bind, run_value, Exec.run_liftM, Exec.run_pure] at h
      split at h
      · split at h
        · next b _ _ =>
          simp only [Prod.mk.injEq, Except.ok.injEq, Sum.inr.injEq] at h
          cases b <;> simp_all [Terminator.successors]
        · exact absurd (congrArg Prod.fst h) (by simp)
      · exact absurd (congrArg Prod.fst h) (by simp)
    | unreachable => simp [follow] at h

theorem instsAt_of_blockStart {b : BlockId} {rest : List InstId} (h : blockStart f b = .ok rest) :
    f.instsAt b = rest := by
  unfold blockStart at h
  split at h
  · next B hB =>
    rw [Function.instsAt, hB]
    exact Except.ok.inj h
  · cases h

theorem exists_entry_of_activate {id : FuncId} {args : List RunValue} {depth : Nat} {w w' : World}
    (h : Exec.run (activate f id args depth) w = (.ok a, w')) :
    ∃ e stackEnd, f.entry? = some e ∧ a = {
      func := id, args, values := Array.replicate f.insts.size none, block := e
      rest := f.instsAt e, stackEnd } := by
  obtain ⟨-, h⟩ := Exec.run_guard_ok h
  split at h
  · exact absurd (congrArg Prod.fst h) (by simp)
  · next e he =>
    obtain ⟨rest, w₁, hstart, h⟩ := Exec.run_bind_ok h
    obtain ⟨w₂, w₃, -, h⟩ := Exec.run_bind_ok h
    rw [Exec.run_liftM] at hstart
    obtain ⟨hstart, -⟩ := Prod.mk.inj hstart
    obtain ⟨h, -⟩ := Prod.mk.inj h
    exact ⟨e, _, he, by rw [instsAt_of_blockStart hstart]; exact (Except.ok.inj h).symm⟩

/-- A call that is opened begins at the entry. -/
theorem exists_entry_of_enter {id : FuncId} {args : List RunValue} {depth : Nat} {w w' : World}
    (h : Exec.run (enter p id args depth) w = (.ok (.inr a), w')) :
    a.func = id ∧ ∀ f, p.module.function? id = some f → ∃ e stackEnd, f.entry? = some e ∧ a = {
      func := id, args, values := Array.replicate f.insts.size none, block := e
      rest := f.instsAt e, stackEnd } := by
  unfold enter at h
  cases hid : p.module.function? id with
  | none =>
    rw [hid] at h
    exact absurd (congrArg Prod.fst h) (by simp)
  | some f =>
    simp only [hid] at h
    split at h
    · obtain ⟨v, w₁, -, h⟩ := Exec.run_bind_ok h
      exact absurd (congrArg Prod.fst h) (by simp)
    · obtain ⟨opened, w₁, hopened, h⟩ := Exec.run_bind_ok h
      obtain ⟨h, -⟩ := Prod.mk.inj h
      obtain rfl : opened = a := Sum.inr.inj (Except.ok.inj h)
      have hentry := exists_entry_of_activate hopened
      have hfunc : opened.func = id := by
        obtain ⟨e, stackEnd, -, heq⟩ := hentry
        rw [heq]
      exact ⟨hfunc, fun g hg => Option.some.inj hg ▸ hentry⟩

theorem follows_of_enter {id : FuncId} {args : List RunValue} {depth : Nat} {w w' : World}
    (h : Exec.run (enter p id args depth) w = (.ok (.inr a), w')) :
    a.func = id ∧ ∀ f, p.module.function? id = some f → a.Follows f [] := by
  obtain ⟨hfunc, hentry⟩ := exists_entry_of_enter h
  refine ⟨hfunc, fun f hf => ?_⟩
  obtain ⟨e, stackEnd, he, rfl⟩ := hentry f hf
  exact {
    path := .entry he
    prev := rfl
    size := Array.size_replicate
    passed := fun b hb => absurd hb List.not_mem_nil
    here := ⟨[], rfl, fun x hx => absurd hx List.not_mem_nil⟩ }

theorem exists_enter_of_callFrom {callee : Operand} {args : List Operand} {depth : Nat}
    {w w' : World} {r : RunValue ⊕ Activation}
    (h : Exec.run (callFrom p a callee args depth) w = (.ok r, w')) :
    ∃ id vs w₁, Exec.run (enter p id vs depth) w₁ = (.ok r, w') := by
  obtain ⟨target, w₁, -, h⟩ := Exec.run_bind_ok h
  obtain ⟨-, h⟩ := Exec.run_guard_ok h
  obtain ⟨vs, w₂, -, h⟩ := Exec.run_bind_ok h
  exact ⟨_, vs, w₂, h⟩

/-! ### Runs -/

/-- The machines that a program gets to step by step. -/
def Steps (p : Program) : Machine → Machine → Prop :=
  Relation.ReflTransGen fun m m' => step p m = .running m'

/-- No program in which `id` is the function `f` misses a value there, whatever is called first and
however far the program has come. -/
def NeverMisses (id : FuncId) (f : Function) : Prop :=
  ∀ p : Program, p.module.function? id = some f →
    ∀ root args depth w₀ w₁ opened,
      Exec.run (enter p root args depth) w₀ = (.ok (.inr opened), w₁) →
      ∀ w a below, Steps p ⟨w₁, [opened]⟩ ⟨w, a :: below⟩ → a.func = id →
        ∀ e w', step p ⟨w, a :: below⟩ = .failed e w' → e.isMissing = false

/-- A running program, as far as calls of one function are concerned: each of them follows it. -/
def Follows (m : Machine) (id : FuncId) (f : Function) : Prop :=
  ∀ a ∈ m.calls, a.func = id → ∃ way, a.Follows f way

variable {m m' : Machine} {id : FuncId}

section Finished

variable (hf : f.IsFinished)
include hf

theorem follows_deliver {w : World} {below : List Activation} (v : RunValue)
    (h : Machine.Follows ⟨w, a :: below⟩ id f) (w' : World) :
    Machine.Follows ⟨w', a.deliver v :: below⟩ id f := by
  refine List.forall_mem_cons.2 ⟨fun hfunc => ?_, fun b hb => h b (List.mem_cons_of_mem _ hb)⟩
  rw [Activation.func_deliver] at hfunc
  obtain ⟨way, hway⟩ := h a List.mem_cons_self hfunc
  exact ⟨way, hway.deliver hf.whole v⟩

theorem follows_leave {below : List Activation} {w : World} {v : RunValue}
    (h : Machine.Follows ⟨w, below⟩ id f) (hstep : leave a below v w = .running m') :
    m'.Follows id f := by
  cases below with
  | nil => exact nomatch hstep
  | cons caller rest =>
    obtain rfl := Progress.running.inj hstep
    exact follows_deliver hf v h _

variable (hid : p.module.function? id = some f)
include hid

theorem follows_jump {g : Function} {w : World} {below : List Activation}
    (hg : p.module.function? a.func = some g) (hrest : a.rest = [])
    (h : Machine.Follows ⟨w, a :: below⟩ id f) (hstep : stepJump p g a below w = .running m') :
    m'.Follows id f := by
  unfold stepJump at hstep
  split at hstep
  · exact nomatch hstep
  · exact follows_leave hf (fun b hb => h b (List.mem_cons_of_mem _ hb)) hstep
  · next target _ hfollow =>
    split at hstep
    · exact nomatch hstep
    · next rest hstart =>
      obtain rfl := Progress.running.inj hstep
      refine List.forall_mem_cons.2 ⟨fun hfunc => ?_, fun b hb => h b (List.mem_cons_of_mem _ hb)⟩
      have hfunc' : a.func = id := hfunc
      obtain ⟨way, hway⟩ := h a List.mem_cons_self hfunc'
      obtain rfl : g = f := Option.some.inj (hg.symm.trans (hfunc' ▸ hid))
      obtain rfl := instsAt_of_blockStart hstart
      exact ⟨_, hway.jump hrest (mem_successors_of_follow hfollow)⟩

/-- **Each step keeps it,** whatever function takes the step. -/
theorem follows_step (h : m.Follows id f) (hstep : step p m = .running m') :
    m'.Follows id f := by
  obtain ⟨w, calls⟩ := m
  cases calls with
  | nil => exact nomatch hstep
  | cons a below =>
    simp only [step] at hstep
    split at hstep
    · exact nomatch hstep
    · next g hg =>
      split at hstep
      · next hrest => exact follows_jump hf hid hg hrest h hstep
      · split at hstep
        · exact nomatch hstep
        · unfold stepCall at hstep
          split at hstep
          · obtain rfl := Progress.running.inj hstep
            exact follows_deliver hf _ h _
          · next opened _ hcall =>
            obtain rfl := Progress.running.inj hstep
            refine List.forall_mem_cons.2 ⟨fun hfunc => ?_, h⟩
            obtain ⟨id', vs, w₁, henter⟩ := exists_enter_of_callFrom hcall
            obtain ⟨hfunc', hfollows⟩ := follows_of_enter henter
            exact ⟨[], hfollows f (by rw [← hfunc', hfunc, hid])⟩
          · exact nomatch hstep
        · unfold stepInstruction at hstep
          split at hstep
          · obtain rfl := Progress.running.inj hstep
            exact follows_deliver hf _ h _
          · exact nomatch hstep

/-- A step of the function itself never misses a value. -/
theorem not_isMissing_of_step {w w' : World} {below : List Activation} {e : RunError}
    (h : Machine.Follows ⟨w, a :: below⟩ id f) (ha : a.func = id)
    (hstep : step p ⟨w, a :: below⟩ = .failed e w') : e.isMissing = false := by
  obtain ⟨way, hway⟩ := h a List.mem_cons_self ha
  have hg : p.module.function? a.func = some f := ha ▸ hid
  simp only [step, hg] at hstep
  split at hstep
  · next hrest =>
    have hfollow : (follow p f a (f.termAt a.block)).Spares :=
      spares_follow fun t ht op hop => hway.provides_term hf hrest ht hop
    unfold stepJump at hstep
    split at hstep
    · next e' _ hrun =>
      obtain ⟨rfl, -⟩ := Progress.failed.inj hstep
      exact hfollow w e' (congrArg Prod.fst hrun)
    · unfold leave at hstep
      split at hstep <;> exact nomatch hstep
    · split at hstep
      · next e' hstart =>
        obtain ⟨rfl, -⟩ := Progress.failed.inj hstep
        exact spares_blockStart f _ e' hstart
      · exact nomatch hstep
  · next x rest hrest =>
    obtain ⟨before, hsplit, -⟩ := hway.here
    obtain ⟨i, hi⟩ := Option.isSome_iff_exists.1
      (hf.whole a.block x (by rw [hsplit, hrest]; simp))
    simp only [hi] at hstep
    split at hstep
    · next hcall => exact nomatch hcall
    · next callee args ty hcall =>
      obtain rfl := Option.some.inj hcall
      have hprovides : ∀ op ∈ callee :: args, a.Provides op :=
        fun op hop => hway.provides hf hrest hi rfl hop
      unfold stepCall at hstep
      split at hstep
      · exact nomatch hstep
      · exact nomatch hstep
      · next e' _ hrun =>
        obtain ⟨rfl, -⟩ := Progress.failed.inj hstep
        exact spares_callFrom (hprovides _ List.mem_cons_self)
          (fun op hop => hprovides op (List.mem_cons_of_mem _ hop)) _ w e' (congrArg Prod.fst hrun)
    · next j _ hj =>
      obtain rfl := Option.some.inj hj
      unfold stepInstruction at hstep
      split at hstep
      · exact nomatch hstep
      · next e' _ hrun =>
        obtain ⟨rfl, -⟩ := Progress.failed.inj hstep
        exact spares_instruction (fun hin op hop => hway.provides hf hrest hi hin hop)
          (fun sources hin => hway.exists_incoming hf hrest hi hin) w e' (congrArg Prod.fst hrun)

theorem follows_steps (h : m.Follows id f) (hsteps : Steps p m m') : m'.Follows id f := by
  induction hsteps with
  | refl => exact h
  | tail _ hstep ih => exact follows_step hf hid ih hstep

omit hid in
/-- **In a finished function the machine never misses a value.** The invariant along a run is that all
activations of the function have come along one of its paths. -/
theorem neverMisses : NeverMisses id f := by
  intro p hid root args depth w₀ w₁ opened hstart w a below hsteps ha e w' hstep
  obtain ⟨hroot, hopened⟩ := follows_of_enter hstart
  have hfirst : Machine.Follows ⟨w₁, [opened]⟩ id f := by
    intro b hb hfunc
    obtain rfl := List.mem_singleton.1 hb
    exact ⟨[], hopened f (by rw [← hroot, hfunc, hid])⟩
  exact not_isMissing_of_step hf hid (follows_steps hf hid hfirst hsteps) ha hstep

end Finished

end Machine

end TreeFlow
