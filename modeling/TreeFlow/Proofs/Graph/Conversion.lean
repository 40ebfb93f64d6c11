import TreeFlow.Flow.Trace
import TreeFlow.Proofs.Graph.Visiting

/-!
# Values are converted before they are read

A conversion looks up the value of every instruction that is read. In a function in SSA form what a
block reads is computed earlier in the block or in a block that dominates it, and dominators are visited
first. So a lookup succeeds in every reachable block (`Function.visitOrder_sound`), whatever the target
makes of the operations it is told about. Of the target only one thing is asked: that a call yields a
value if the function that is called returns one.
-/

namespace TreeFlow

/-! ### What always comes of a computation -/

section Always

variable {m : Type → Type} {α β : Type}

/-- Whatever a computation does, what it yields satisfies `P`. -/
def Always [Functor m] (x : m α) (P : α → Prop) : Prop := ∃ y : m {a // P a}, Subtype.val <$> y = x

variable [Monad m] [LawfulMonad m] {x : m α} {f : α → m β} {P : α → Prop} {Q : β → Prop}

theorem Always.pure {a : α} (h : P a) : Always (Pure.pure a : m α) P :=
  ⟨Pure.pure ⟨a, h⟩, map_pure ..⟩

theorem Always.bind (hx : Always x P) (hf : ∀ a, P a → Always (f a) Q) : Always (x >>= f) Q := by
  obtain ⟨y, rfl⟩ := hx
  choose g hg using hf
  exact ⟨y >>= fun a => g a a.2, by simp [hg]⟩

theorem always_true (x : m α) : Always x fun _ => True := ⟨(⟨·, trivial⟩) <$> x, by simp⟩

end Always

/-- A computation with a state, by what it yields from every state. -/
theorem always_of_run {σ α : Type} {x : StateM σ α} {P : α → Prop} (h : ∀ s, P (x s).1) :
    Always x P :=
  ⟨fun s => (⟨(x s).1, h s⟩, (x s).2), rfl⟩

/-! ### SSA form -/

namespace Function

variable {f : Function} {b : BlockId} {before : List InstId} {y : InstId}

/-- Does the instruction yield a value? Stores and copies do not, nor does a call of a function that
returns nothing. -/
def IsValue (f : Function) (i : Inst) : Prop :=
  match i.kind with
  | .store .. | .copy .. => False
  | .call callee _ =>
    ∀ sig, (f.operandTy callee).calleeSignature? = some sig → sig.result.isVoid = false
  | _ => True

/-- The instruction at a position yields a value. -/
def Defines (f : Function) (y : InstId) : Prop := ∃ i, f.inst? y = some i ∧ f.IsValue i

/-- A block reads what `y` yields right behind the instructions `before`: for an instruction other than
a phi, or for its terminator. -/
inductive ReadsBehind (f : Function) (b : BlockId) (before : List InstId) (y : InstId) : Prop
  | inst {x : InstId} {after : List InstId} {i : Inst} (place : f.instsAt b = before ++ x :: after)
      (content : f.inst? x = some i) (noPhi : i.kind.incoming? = none)
      (read : .inst y ∈ i.kind.operands)
  | term {t : Terminator} (place : f.instsAt b = before) (content : f.termAt b = some t)
      (read : .inst y ∈ t.operands)

/-- **SSA form.** What a reachable block reads yields a value, and it was computed earlier in the block
or in another block that dominates it. -/
def InSsaForm (f : Function) : Prop :=
  ∀ b, f.Reachable b → ∀ before y, f.ReadsBehind b before y →
    f.Defines y ∧ (y ∈ before ∨ ∃ d, d ≠ b ∧ f.Dominates d b ∧ y ∈ f.instsAt d)

end Function

/-! ### Lookups -/

namespace Conversion

variable {V : Type}

/-- The value of an operand is known, if it stands for an instruction. -/
def Knows (c : Conversion V) (v : Operand) : Prop :=
  ∀ y, v = .inst y → (c.values.lookup y).isSome

/-- The values of some instructions are known, of those that yield one. -/
def KnowsAll (c : Conversion V) (f : Function) (S : InstId → Prop) : Prop :=
  ∀ y, S y → f.Defines y → c.Knows (.inst y)

end Conversion

namespace Target

variable {m : Type → Type} [Monad m] {V α β : Type}

/-- A call of a function that returns something yields a value. -/
def YieldsResults (t : Target m V) : Prop :=
  ∀ callee sig args, sig.result.isVoid = false → Always (t.call callee sig args) (·.isSome)

/-- Either the conversion goes on with something that satisfies `P`, or it fails for another reason
than a value that is not there. -/
def Finds (x : ExceptT ConvertError m α) (P : α → Prop) : Prop :=
  Always x.run fun
    | .ok a => P a
    | .error e => e ≠ .valueNotFound

variable [LawfulMonad m]

namespace Finds

variable {x : ExceptT ConvertError m α} {P : α → Prop} {Q : β → Prop}

theorem pure {a : α} (h : P a) : Finds (Pure.pure a : ExceptT ConvertError m α) P := Always.pure h

theorem bind {g : α → ExceptT ConvertError m β} (hx : Finds x P)
    (hg : ∀ a, P a → Finds (g a) Q) : Finds (x >>= g) Q := by
  refine Always.bind hx fun r hr => ?_
  cases r with
  | ok a => exact hg a hr
  | error e => exact Always.pure hr

theorem tell_of {y : m α} (h : Always y P) : Finds (tell y) P := by
  have hrun : (Target.tell y : ExceptT ConvertError m α).run = y >>= fun a => Pure.pure (.ok a) :=
    map_eq_pure_bind ..
  rw [Finds, hrun]
  exact h.bind fun a ha => Always.pure ha

theorem tell (y : m α) : Finds (tell y) fun _ => True := tell_of (always_true y)

theorem demand {e : ConvertError} {o : Option α} (h : o = none → e ≠ .valueNotFound) :
    Finds (demand e o : ExceptT ConvertError m α) fun a => o = some a := by
  cases o with
  | none => exact Always.pure (h rfl)
  | some a => exact Finds.pure rfl

/-- A value that is there is found. -/
theorem operand {t : Target m V} {c : Conversion V} {v : Operand} (h : c.Knows v) :
    Finds (t.operand c v) fun _ => True := by
  cases v with
  | const k => exact tell _
  | arg i => exact tell _
  | inst y =>
    obtain ⟨v, hv⟩ := Option.isSome_iff_exists.1 (h y rfl)
    simp only [Target.operand, hv]
    exact Finds.pure trivial

theorem operands {t : Target m V} {c : Conversion V} {vs : List Operand}
    (h : ∀ v ∈ vs, c.Knows v) : Finds (vs.mapM (t.operand c)) fun _ => True := by
  induction vs with
  | nil => exact Finds.pure trivial
  | cons v vs ih =>
    rw [List.mapM_cons]
    refine (operand (h v List.mem_cons_self)).bind fun _ _ => ?_
    exact (ih fun w hw => h w (.tail v hw)).bind fun _ _ => Finds.pure trivial

end Finds

variable {t : Target m V} {f : Function} {c : Conversion V} {b : BlockId} {S : InstId → Prop}

/-- An instruction whose operands are known is converted, and yields a value if it is to. A phi waits
with its operands until all blocks are done. -/
theorem finds_instruction (ht : t.YieldsResults) {i : Inst}
    (h : i.kind.incoming? = none → ∀ v ∈ i.kind.operands, c.Knows v) :
    Finds (t.instruction f c i) fun r =>
      r.2.values = c.values ∧ (f.IsValue i → r.1.isSome) := by
  obtain ⟨kind, ty⟩ := i
  have hv : ∀ v, kind.incoming? = none → v ∈ kind.operands →
      Finds (t.operand c v) fun _ => True := fun v hphi hv => .operand (h hphi v hv)
  have hdone : ∀ {i : Inst} (v : V), Finds (Pure.pure (some v, c) : ExceptT ConvertError m _)
      fun r => r.2.values = c.values ∧ (f.IsValue i → r.1.isSome) :=
    fun v => .pure ⟨rfl, fun _ => rfl⟩
  have hnone : ∀ {i : Inst}, ¬ f.IsValue i →
      Finds (Pure.pure ((none : Option V), c) : ExceptT ConvertError m _)
        fun r => r.2.values = c.values ∧ (f.IsValue i → r.1.isSome) :=
    fun hi => .pure ⟨rfl, fun h => absurd h hi⟩
  cases kind with
  | alloca slot => exact (Finds.tell _).bind fun _ _ => hdone _
  | load ptr =>
    refine (hv ptr rfl (by simp [InstKind.operands])).bind fun _ _ => ?_
    exact (Finds.tell _).bind fun _ _ => hdone _
  | store ptr value =>
    refine (hv ptr rfl (by simp [InstKind.operands])).bind fun _ _ => ?_
    refine (hv value rfl (by simp [InstKind.operands])).bind fun _ _ => ?_
    exact (Finds.tell _).bind fun _ _ => hnone id
  | copy dst src element =>
    refine (hv dst rfl (by simp [InstKind.operands])).bind fun _ _ => ?_
    refine (hv src rfl (by simp [InstKind.operands])).bind fun _ _ => ?_
    exact (Finds.tell _).bind fun _ _ => hnone id
  | binary op l r =>
    refine (hv l rfl (by simp [InstKind.operands])).bind fun _ _ => ?_
    refine (hv r rfl (by simp [InstKind.operands])).bind fun _ _ => ?_
    exact (Finds.tell _).bind fun _ _ => hdone _
  | cmp op l r =>
    refine (hv l rfl (by simp [InstKind.operands])).bind fun _ _ => ?_
    refine (hv r rfl (by simp [InstKind.operands])).bind fun _ _ => ?_
    exact (Finds.tell _).bind fun _ _ => hdone _
  | cast op v =>
    refine (hv v rfl (by simp [InstKind.operands])).bind fun _ _ => ?_
    exact (Finds.tell _).bind fun _ _ => hdone _
  | offset ptr index =>
    refine (Finds.demand fun _ => by simp).bind fun _ _ => ?_
    refine (hv ptr rfl (by simp [InstKind.operands])).bind fun _ _ => ?_
    refine (hv index rfl (by simp [InstKind.operands])).bind fun _ _ => ?_
    exact (Finds.tell _).bind fun _ _ => hdone _
  | field base index =>
    refine (Finds.demand fun _ => by simp).bind fun _ _ => ?_
    refine (hv base rfl (by simp [InstKind.operands])).bind fun _ _ => ?_
    exact (Finds.tell _).bind fun _ _ => hdone _
  | call callee args =>
    refine (Finds.demand fun _ => by simp).bind fun sig hsig => ?_
    refine (hv callee rfl (by simp [InstKind.operands])).bind fun _ _ => ?_
    refine (Finds.operands fun v hv => h rfl v (.tail callee hv)).bind fun _ _ => ?_
    -- Only here it is up to the target whether there is a value.
    by_cases hvoid : sig.result.isVoid = false
    · exact (Finds.tell_of (ht _ sig _ hvoid)).bind fun v hv => .pure ⟨rfl, fun _ => hv⟩
    · exact (Finds.tell _).bind fun _ _ => .pure ⟨rfl, fun hi => absurd (hi sig hsig) hvoid⟩
  | phi incoming => exact (Finds.tell _).bind fun _ _ => .pure ⟨rfl, fun _ => rfl⟩

/-- Behind each instruction of a block its value is known as well. -/
theorem finds_instructions (ht : t.YieldsResults)
    (hread : ∀ before y, f.ReadsBehind b before y → f.Defines y ∧ (y ∈ before ∨ S y))
    {before ids : List InstId} (hplace : f.instsAt b = before ++ ids)
    (hc : c.KnowsAll f fun y => S y ∨ y ∈ before) :
    Finds (t.instructions f c ids) fun c' => c'.KnowsAll f fun y => S y ∨ y ∈ f.instsAt b := by
  induction ids generalizing before c with
  | nil =>
    rw [List.append_nil] at hplace
    exact .pure (hplace ▸ hc)
  | cons x rest ih =>
    have hplace' : f.instsAt b = (before ++ [x]) ++ rest := by simpa using hplace
    cases hx : f.inst? x with
    | none =>
      simp only [instructions, hx]
      refine ih hplace' fun y hy hdef => ?_
      rcases hy with hy | hy
      · exact hc y (.inl hy) hdef
      · rcases List.mem_append.1 hy with hy | hy
        · exact hc y (.inr hy) hdef
        · obtain ⟨i, hi, -⟩ := hdef
          simp [List.mem_singleton.1 hy, hx] at hi
    | some i =>
      simp only [instructions, hx]
      have hknown : i.kind.incoming? = none → ∀ v ∈ i.kind.operands, c.Knows v := by
        rintro hphi v hv y rfl
        obtain ⟨hdef, hmem⟩ := hread before y (.inst hplace hx hphi hv)
        exact hc y hmem.symm hdef y rfl
      refine (finds_instruction ht hknown).bind fun ⟨v, c'⟩ ⟨hvalues, hsome⟩ => ih hplace' ?_
      intro y hy hdef z hz
      obtain rfl := Operand.inst.inj hz
      have hold : y ≠ x → (c'.values.lookup y).isSome := fun hne => by
        refine hvalues ▸ hc y ?_ hdef y rfl
        simpa [hne] using hy
      by_cases hyx : y = x
      · obtain ⟨i', hi', hval⟩ := hdef
        obtain rfl : i = i' := by simpa [← hyx, hi'] using hx.symm
        obtain ⟨v', rfl⟩ := Option.isSome_iff_exists.1 (hsome hval)
        simp [hyx]
      · cases v with
        | none => exact hold hyx
        | some v' => simpa [List.lookup_cons, beq_false_of_ne hyx] using hold hyx

theorem finds_terminator {term : Terminator} (h : ∀ v ∈ term.operands, c.Knows v) :
    Finds (t.terminator c term) fun _ => True := by
  cases term with
  | ret value =>
    cases value with
    | none => exact .tell _
    | some v => exact (Finds.operand (h v (by simp [Terminator.operands]))).bind fun _ _ => .tell _
  | goto target => exact .tell _
  | branch cond yes no =>
    exact (Finds.operand (h cond (by simp [Terminator.operands]))).bind fun _ _ => .tell _
  | unreachable => exact .tell _

/-- A block finds what it reads, and leaves its own values behind. -/
theorem finds_block (ht : t.YieldsResults)
    (hread : ∀ before y, f.ReadsBehind b before y → f.Defines y ∧ (y ∈ before ∨ S y))
    (hc : c.KnowsAll f S) :
    Finds (t.block f c b) fun c' => c'.KnowsAll f fun y => S y ∨ y ∈ f.instsAt b := by
  have hinsts : ((f.block? b).getD {}).insts = f.instsAt b := by
    rw [Function.instsAt]
    cases f.block? b <;> rfl
  have hterm : ((f.block? b).getD {}).term = f.termAt b := by
    rw [Function.termAt]
    cases f.block? b <;> rfl
  refine (Finds.tell _).bind fun _ _ => ?_
  have hstart : c.KnowsAll f fun y => S y ∨ y ∈ [] := fun y hy => hc y (by simpa using hy)
  simp only [hinsts, hterm]
  refine (finds_instructions ht hread rfl hstart).bind fun c' hc' => ?_
  refine (Finds.demand fun _ => by simp).bind fun term hterm => ?_
  refine Finds.bind (P := fun _ => True) (finds_terminator ?_) fun _ _ => .pure hc'
  rintro v hv y rfl
  obtain ⟨hdef, hmem⟩ := hread _ y (.term rfl hterm hv)
  exact hc' y hmem.symm hdef y rfl

/-- Blocks that are visited behind their dominators find what they read. -/
theorem finds_blocks (ht : t.YieldsResults) (hssa : f.InSsaForm) (before : List BlockId)
    {l : List BlockId} (hl : ∀ pre b post, l = pre ++ b :: post →
      f.Reachable b ∧ ∀ d, d ≠ b → f.Dominates d b → d ∈ before ++ pre)
    (hc : c.KnowsAll f fun y => ∃ d ∈ before, y ∈ f.instsAt d) :
    Finds (l.foldlM (t.block f) c) fun _ => True := by
  induction l generalizing before c with
  | nil => exact .pure trivial
  | cons b l ih =>
    rw [List.foldlM_cons]
    obtain ⟨hreach, hdom⟩ := hl [] b l rfl
    refine (finds_block ht (fun pre y hy => ?_) hc).bind fun c' hc' => ?_
    · obtain ⟨hdef, hmem⟩ := hssa b hreach pre y hy
      refine ⟨hdef, hmem.imp_right fun ⟨d, hne, hd, hyd⟩ => ⟨d, ?_, hyd⟩⟩
      simpa using hdom d hne hd
    · refine ih (before ++ [b]) (fun pre d post heq => ?_) fun y hy => hc' y ?_
      · obtain ⟨hreach, hdom⟩ := hl (b :: pre) d post (by rw [heq, List.cons_append])
        exact ⟨hreach, fun e hne he => by simpa using hdom e hne he⟩
      · obtain ⟨d, hd, hyd⟩ := hy
        rcases List.mem_append.1 hd with hd | hd
        · exact .inl ⟨d, hd, hyd⟩
        · exact .inr (List.mem_singleton.1 hd ▸ hyd)

end Target

namespace Function

variable {f : Function}

/-- **The order in which blocks are visited is sound.** It lists every laid out block once, every
block that can be reached before those that cannot, and every block that strictly dominates a reachable
one before that. In a function in SSA form the conversion therefore finds all values that it reads on
its way to the end of a reachable block. -/
theorem visitOrder_sound (f : Function) (hjumps : f.JumpsInside) :
    f.visitOrder.Nodup ∧ (∀ b, b ∈ f.visitOrder ↔ b ∈ f.layout) ∧
      ∀ b, f.Reachable b → ∃ pre post, f.visitOrder = pre ++ b :: post ∧
        (∀ c ∈ pre, f.Reachable c) ∧ (∀ d, d ≠ b → f.Dominates d b → d ∈ pre) ∧
          (f.InSsaForm → ∀ (m : Type → Type) [Monad m] [LawfulMonad m] (V : Type) (t : Target m V),
            t.YieldsResults →
              Target.Finds ((pre ++ [b]).foldlM (t.block f) {}) fun _ => True) := by
  obtain ⟨hnodup, hmem⟩ := nodup_visitOrder hjumps
  refine ⟨hnodup, hmem, fun b hb => ?_⟩
  obtain ⟨pre, post, horder, hreach, hdom⟩ := exists_visitOrder_split hjumps hb
  refine ⟨pre, post, horder, hreach, hdom, fun hssa m _ _ V t ht => ?_⟩
  refine Target.finds_blocks ht hssa [] (fun pre' c post' hsplit => ?_) ?_
  · have hc : f.Reachable c := by
      have hmem : c ∈ pre ++ [b] := hsplit ▸ by simp
      rcases List.mem_append.1 hmem with hc | hc
      · exact hreach c hc
      · exact List.mem_singleton.1 hc ▸ hb
    -- The order has no repetitions, so it can only be split at `c` in one way.
    obtain ⟨pre'', post'', horder', -, hdom'⟩ := exists_visitOrder_split hjumps hc
    have hsame : pre' ++ c :: (post' ++ post) = pre'' ++ c :: post'' := by
      rw [← horder', horder, ← List.cons_append, ← List.append_assoc, ← hsplit]
      simp
    have hnot : c ∉ pre' ∧ c ∉ post' ++ post := by
      have := List.nodup_middle.1 (hsame.symm ▸ horder' ▸ hnodup)
      simpa using (List.nodup_cons.1 this).1
    have hpre : pre' = pre'' := ((List.append_cons_inj_of_notMem hnot.1 hnot.2).1 hsame).1
    exact ⟨hc, hpre ▸ hdom'⟩
  · rintro y ⟨d, hd, -⟩
    exact absurd hd List.not_mem_nil

/-- A function whose loop is entered at both of its blocks, with a block that cannot be reached. -/
def irreducible : Function where
  name := "power"
  sig := ⟨.int 32, [.int 32, .bool], false⟩
  linkage := .external
  blocks := #[
    ⟨[⟨0⟩], some (.branch (.arg 1) ⟨1⟩ ⟨2⟩)⟩,
    ⟨[], some (.goto ⟨2⟩)⟩,
    ⟨[⟨1⟩], some (.branch (.arg 1) ⟨1⟩ ⟨3⟩)⟩,
    ⟨[], some (.ret (some (.inst ⟨1⟩)))⟩,
    ⟨[], some (.goto ⟨2⟩)⟩]
  layout := [⟨0⟩, ⟨3⟩, ⟨4⟩, ⟨2⟩, ⟨1⟩]
  insts := #[
    ⟨.binary .add (.arg 0) (.arg 0), .int 32⟩,
    ⟨.binary .mul (.inst ⟨0⟩) (.inst ⟨0⟩), .int 32⟩]

theorem irreducible_dominates : irreducible.Dominates ⟨2⟩ ⟨3⟩ := by
  intro rest path
  cases path with
  | entry h => simp [irreducible, entry?] at h
  | @step p _ rest path edge =>
    have hp : p.index < 5 := has_of_mem_successors edge
    match p, hp with
    | ⟨2⟩, _ => exact .tail _ List.mem_cons_self
    | ⟨0⟩, _ | ⟨1⟩, _ | ⟨3⟩, _ | ⟨4⟩, _ =>
      simp [irreducible, successors, block?, Terminator.successors] at edge

theorem irreducible_inSsaForm : irreducible.InSsaForm := by
  intro b _ before y hread
  cases hread with
  | @inst x _ i place content noPhi read =>
    have hx : x ∈ irreducible.instsAt b := place ▸ List.mem_append_right _ List.mem_cons_self
    have hb : b.index < 5 := has_of_mem_instsAt hx
    match b, hb with
    | ⟨0⟩, _ =>
      obtain rfl : x = ⟨0⟩ := List.mem_singleton.1 hx
      obtain rfl : _ = i := Option.some.inj content
      have hmem : .inst y ∈ [Operand.arg 0, .arg 0] := read
      simp at hmem
    | ⟨2⟩, _ =>
      obtain rfl : x = ⟨1⟩ := List.mem_singleton.1 hx
      obtain rfl : _ = i := Option.some.inj content
      have hmem : .inst y ∈ [Operand.inst ⟨0⟩, .inst ⟨0⟩] := read
      obtain rfl : y = ⟨0⟩ := by simpa using hmem
      exact ⟨⟨_, rfl, trivial⟩, .inr ⟨⟨0⟩, by decide, entry_dominates rfl _, by decide⟩⟩
    | ⟨1⟩, _ | ⟨3⟩, _ | ⟨4⟩, _ => exact absurd hx List.not_mem_nil
  | @term t place content read =>
    have hb : b.index < 5 := has_of_termAt content
    match b, hb with
    | ⟨3⟩, _ =>
      obtain rfl : _ = t := Option.some.inj content
      obtain rfl : y = ⟨1⟩ := by simpa [Terminator.operands] using read
      exact ⟨⟨_, rfl, trivial⟩, .inr ⟨⟨2⟩, by decide, irreducible_dominates, by decide⟩⟩
    | ⟨0⟩, _ | ⟨1⟩, _ | ⟨2⟩, _ | ⟨4⟩, _ =>
      obtain rfl : _ = t := Option.some.inj content
      simp [Terminator.operands] at read

theorem target_yieldsResults : Trace.target.YieldsResults := fun callee sig args hvoid =>
  always_of_run fun s => by
    have hyields : Trace.target.call callee sig args =
        some <$> Trace.value s!"call {sig.text} {callee}({commaSeparated args})" := by
      simp only [Trace.target, hvoid]
      rfl
    rw [hyields]
    rfl

theorem irreducible_reachable : irreducible.Reachable ⟨3⟩ :=
  ⟨[⟨2⟩, ⟨0⟩], .step (.step (.entry rfl) (by decide)) (by decide)⟩

theorem visitOrder_sound_irreducible :
    irreducible.JumpsInside ∧ irreducible.visitOrder.Nodup ∧
      ∃ pre post, irreducible.visitOrder = pre ++ ⟨3⟩ :: post ∧ ⟨2⟩ ∈ pre ∧
        Target.Finds ((pre ++ [⟨3⟩]).foldlM (Trace.target.block irreducible) {}) fun _ => True := by
  have hjumps : irreducible.JumpsInside := by decide
  obtain ⟨hnodup, -, hreachable⟩ := visitOrder_sound irreducible hjumps
  obtain ⟨pre, post, horder, -, hdom, hfinds⟩ := hreachable ⟨3⟩ irreducible_reachable
  exact ⟨hjumps, hnodup, pre, post, horder, hdom ⟨2⟩ (by decide) irreducible_dominates,
    hfinds irreducible_inSsaForm _ _ _ target_yieldsResults⟩

end Function

end TreeFlow
