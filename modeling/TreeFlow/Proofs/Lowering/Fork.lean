import TreeFlow.Proofs.Lowering.Emit

/-!
# Forks and joins at a site

Expressions that choose leave their block by a branch and come together again in another block. The
arms of the fork and the block where they join all have the block of the branch as their parent
(`Site.exists_fork`), so each of them may use what was computed before the branch. In the end the join
is entered from exactly the blocks where its arms end (`Site.exists_goto`).
-/

namespace TreeFlow.Lower.Site

variable {env : Env} {line : Nat} {x x₀ y : Site} {b c d : BlockId} {v : Operand}
  {w : Option BlockId} {t : Terminator}

/-! ### Terminators -/

/-- The block `c`, which was at the cursor or is new, has been closed with a terminator. -/
structure Closes (x : Site) (c : BlockId) (t : Terminator) (y : Site) : Prop where
  id : y.id = x.id
  context : y.state.context = x.state.context
  place : x.openBlock = some c ∨ x.openBlock = none ∧ ¬ x.function.Has c
  has : ∀ b, y.function.Has b ↔ x.function.Has b ∨ b = c
  code : ∀ b, y.function.codeAt b = x.function.codeAt b
  term : ∀ b, y.function.termAt b = if c = b then some t else x.function.termAt b
  successors : ∀ b, y.function.successors b = if c = b then t.successors else x.function.successors b
  entry : y.function.entry? = x.function.entry?
  parents : y.parents = x.parents
  cursor : y.state.builder.block = some c

theorem Closes.has_self (h : x.Closes c t y) : y.function.Has c := (h.has c).2 (.inr rfl)

/-- The block that was open at the cursor is the one that is closed. -/
theorem Closes.eq (h : x.Closes c t y) (hd : x.openBlock = some d) : c = d := by
  rcases h.place with hc | ⟨hnone, -⟩
  · exact Option.some.inj (hc.symm.trans hd)
  · simp [hd] at hnone

theorem Closes.of_keeps (hxy : x.Keeps y) {z : Site} (h : y.Closes c t z) : x.Closes c t z where
  id := h.id.trans hxy.id
  context := h.context.trans hxy.same.context
  place := by
    rw [← hxy.openBlock, ← hxy.function]
    exact h.place
  has b := by
    rw [← hxy.function]
    exact h.has b
  code b := by rw [h.code, hxy.function]
  term b := by rw [h.term, hxy.function]
  successors b := by rw [h.successors, hxy.function]
  entry := by rw [h.entry, hxy.function]
  parents := h.parents.trans hxy.parents
  cursor := h.cursor

/-- A terminator that leads to blocks below the parents they have; its operands are known. -/
theorem exists_terminate (env : Env) (line : Nat) (x : Site) (hoperands : ∀ v ∈ t.operands, x.Knows v)
    (hsucc : ∀ b ∈ t.successors, x.function.Has b ∧ x.function.NoPhi b ∧
      ∀ d, x.parents b = some d → ∃ c, x.openBlock = some c ∧ x.parents.Below d c) :
    ∃ c y, emit line (Build.terminate t) env x.state = (.done (), y.state) ∧ x.Closes c t y ∧
      x.function.Extends x.parents y.function y.parents ∧
      ∀ {w : Option BlockId} {x₀ : Site}, Grown w x₀ x → (∀ b, x.openBlock = some b → x₀.function.Has b → w = some b) →
        (∀ b ∈ t.successors, ¬ x₀.function.Has b) → t.successors ≠ [] → Grown w x₀ y := by
  obtain ⟨c, g, hr⟩ := x.exists_isReady
  have hwf : (g.terminate c t).WellFormed x.parents := by
    refine Function.WellFormed.terminate hr.has_self hr.isOpen' hr.wellFormed (fun b hb => ?_)
      fun v hv => hr.knows (hoperands v hv)
    obtain ⟨hhas, hphi, hparent⟩ := hsucc b hb
    refine ⟨hr.grows.has b hhas, fun d hd => ?_, fun i hi j hj => ?_⟩
    · obtain ⟨c', hc', hbelow⟩ := hparent d hd
      rcases hr.place with hc | ⟨hnone, -⟩
      · rwa [Option.some.inj (hc.symm.trans hc')]
      · simp [hc'] at hnone
    · rw [hr.code] at hi
      refine hphi i hi j ?_
      rwa [Function.inst?, hr.insts] at hj
  have hext : x.function.Extends x.parents (g.terminate c t) x.parents :=
    hr.grows.toExtends.trans (Function.extends_terminate hr.has_self hr.isOpen')
  let y := x.write (g.terminate c t) x.parents (some c) hext hwf
    fun d hd => Option.some.inj hd ▸ Function.has_terminate.2 hr.has_self
  refine ⟨c, y, ?_, ?_, hext, fun {w _} hx hw hnew honward => ?_⟩
  · have hterm := Build.terminate_eq x.builds x.has_cursor t
    rw [hr.eq] at hterm
    exact emit_of_ok hterm
  · exact {
      id := rfl
      context := rfl
      place := hr.place
      has := fun b => Function.has_terminate.trans (hr.has b)
      code := fun b => Function.codeAt_terminate.trans (hr.code b)
      term := fun b => by
        rw [← hr.term]
        exact Function.termAt_terminate hr.has_self
      successors := fun b => by
        rw [← hr.successors]
        exact Function.successors_terminate hr.has_self
      entry := hext.entry
      parents := rfl
      cursor := rfl }
  · have hready : Function.Grows w _ _ g x.parents :=
      hx.grows.trans hr.grows fun b hb hold => hw b hb hold
    refine ⟨hx.id, hx.context, ?_, ?_⟩
    · have hwrite : y.state.builder.mod.functions =
          x.state.builder.mod.functions.modify x.id.index fun _ => y.function := rfl
      rw [hwrite, hx.functions, hx.id, replace_replace]
    · exact hready.terminate hr.has_self hr.isOpen'
        (fun hold => hw c (hr.old (hx.grows.has c hold) |>.trans rfl) hold) hnew honward

/-! ### Forks -/

/-- An arm of a fork: an empty open block that is only entered from below the block `c`. -/
structure Arm (x : Site) (c b : BlockId) : Prop where
  has : x.function.Has b
  code : x.function.codeAt b = []
  isOpen : x.function.termAt b = none
  parent : x.parents b = some c

theorem Arm.mono (hb : x.Arm c b) (h : Grown w x y) (hw : some b ≠ w) : y.Arm c b where
  has := h.grows.has b hb.has
  code := (h.grows.frozen b hb.has hw).1.trans hb.code
  isOpen := (h.grows.frozen b hb.has hw).2.trans hb.isOpen
  parent := (h.grows.parent b hb.has).trans hb.parent

theorem Arm.below (hb : x.Arm c b) : x.parents.Below c b := .step hb.parent .refl

theorem Arm.moveTo (hb : x.Arm c b) (h : x.function.Has d) : (x.moveTo d h).Arm c b :=
  ⟨hb.has, hb.code, hb.isOpen, hb.parent⟩

theorem Grown.moveTo (hx : Grown w x₀ x) (h : x.function.Has b) : Grown w x₀ (x.moveTo b h) :=
  ⟨hx.id, hx.context, hx.functions, hx.grows⟩

theorem moveTo_openBlock (hb : x.function.Has b) (hopen : x.function.termAt b = none) :
    (x.moveTo b hb).openBlock = some b := openBlock_eq_some_iff.2 ⟨rfl, hopen⟩

/-- A branch to blank blocks makes them, and any others, arms of a fork. -/
theorem exists_fork (env : Env) (line : Nat) (yes no : BlockId) (bs : List BlockId) (hx : Grown x₀.openBlock x₀ x)
    (hcur : x.openBlock = x₀.openBlock) (hnew : ∀ b ∈ bs, ¬ x₀.function.Has b)
    (hblank : ∀ b ∈ bs, x.Blank b) (hyes : yes ∈ bs) (hno : no ∈ bs) (hv : x.Knows v) :
    ∃ c y, emit line (Build.branch v yes no) env x.state = (.done (), y.state) ∧
      Grown x₀.openBlock x₀ y ∧ y.function.Has c ∧
      (x₀.openBlock = some c ∨ x₀.openBlock = none ∧ ¬ x₀.function.Has c) ∧
      ∀ b ∈ bs, y.Arm c b ∧ ∀ p, b ∈ y.function.successors p ↔ p = c ∧ (b = yes ∨ b = no) := by
  have hsub : ∀ b ∈ (Terminator.branch v yes no).successors, b ∈ bs := by
    simp [Terminator.successors, hyes, hno]
  obtain ⟨c, y, hrun, hc, -, hgrown⟩ := exists_terminate env line x
    (t := .branch v yes no) (by simpa [Terminator.operands] using hv) fun b hb =>
      have h := hblank b (hsub b hb)
      ⟨h.has, Function.noPhi_of_codeAt_eq_nil h.code, fun d hd => by simp [h.parent] at hd⟩
  have hy : Grown x₀.openBlock x₀ y :=
    hgrown hx (fun b hb _ => hcur ▸ hb) (fun b hb => hnew b (hsub b hb)) (List.cons_ne_nil _ _)
  have hne : ∀ b ∈ bs, c ≠ b := by
    rintro b hb rfl
    rcases hc.place with hopen | ⟨-, hnot⟩
    · exact hnew c hb (has_openBlock (hcur ▸ hopen))
    · exact hnot (hblank c hb).has
  have hedge : ∀ b ∈ bs, ∀ p, b ∈ y.function.successors p ↔ p = c ∧ (b = yes ∨ b = no) := by
    intro b hb p
    rw [hc.successors]
    split
    · next heq => simp [Terminator.successors, heq]
    · next hpc => exact iff_of_false ((hblank b hb).unentered p) fun h => hpc h.1.symm
  have hnone : ∀ b ∈ bs, y.parents b = none := fun b hb => by rw [hc.parents, (hblank b hb).parent]
  let z : Site := { y with
    parents := y.parents.adopt bs c
    wellFormed := y.wellFormed.adopt hnone (fun b hb => ⟨(hc.has b).2 (.inl (hblank b hb).has),
      fun he => (hblank b hb).not_entry (hc.entry ▸ he),
      fun p hp => ((hedge b hb p).1 hp).1 ▸ .refl⟩) hc.has_self }
  refine ⟨c, z, hrun, ⟨hy.id, hy.context, hy.functions, hy.grows.adopt hnew c⟩, hc.has_self, ?_,
    fun b hb => ⟨⟨(hc.has b).2 (.inl (hblank b hb).has), (hc.code b).trans (hblank b hb).code, ?_,
      Parents.adopt_of_mem c hb⟩, hedge b hb⟩⟩
  · rcases hc.place with hopen | ⟨hnone, hnot⟩
    · exact .inl (hcur ▸ hopen)
    · exact .inr ⟨hcur ▸ hnone, fun hold => hnot (hx.grows.has c hold)⟩
  · show y.function.termAt b = none
    rw [hc.term, if_neg (hne b hb), (hblank b hb).isOpen]

/-- The end of an arm: control goes on at the join. -/
theorem exists_goto (env : Env) (line : Nat) (hx : Grown w x₀ x) (hc : x.openBlock = some c)
    (hw : x₀.function.Has c → w = some c) (hb : x.Arm d b) (hbelow : x.parents.Below d c)
    (hnew : ¬ x₀.function.Has b) :
    ∃ y, emit line (Build.goto b) env x.state = (.done (), y.state) ∧ Grown w x₀ y ∧
      x.function.Extends x.parents y.function y.parents ∧ x.Closes c (.goto b) y := by
  obtain ⟨c', y, hrun, hcloses, hext, hgrown⟩ := exists_terminate env line x
    (t := .goto b) (by simp [Terminator.operands]) fun b' hb' => by
      obtain rfl : b' = b := List.mem_singleton.1 hb'
      refine ⟨hb.has, Function.noPhi_of_codeAt_eq_nil hb.code, fun d' hd' => ⟨c, hc, ?_⟩⟩
      rwa [← Option.some.inj (hb.parent.symm.trans hd')]
  obtain rfl := hcloses.eq hc
  refine ⟨y, hrun, hgrown hx (fun b' hb' hold => ?_) (by simpa [Terminator.successors] using hnew)
    (List.cons_ne_nil _ _), hext, hcloses⟩
  obtain rfl : c' = b' := Option.some.inj (hc.symm.trans hb')
  exact hw hold

/-! ### Inside of a fork -/

/-- A new block below the block of a fork is a place that the code of the whole may lead to. -/
theorem reaches_of_below (hx : Grown x₀.openBlock x₀ x)
    (hplace : x₀.openBlock = some c ∨ x₀.openBlock = none ∧ ¬ x₀.function.Has c)
    (hd : x.openBlock = some d) (hnew : ¬ x₀.function.Has d) (hbelow : x.parents.Below c d) :
    x₀.Reaches x where
  toGrown := hx
  moves := by
    rcases hplace with hc | ⟨hnone, -⟩
    · exact moves_of_open hc hd (.inr hnew) hbelow
    · exact moves_of_new hnone hd hnew

/-- An operand is known at the end of an open block below the block `c`, where code may be added
later. -/
structure Parked (x : Site) (c d : BlockId) (v : Operand) : Prop where
  has : x.function.Has d
  isOpen : x.function.termAt d = none
  below : x.parents.Below c d
  known : x.function.KnownOperand x.parents d v

theorem Knows.parked (hv : x.Knows v) (hd : x.openBlock = some d) (hbelow : x.parents.Below c d) :
    x.Parked c d v :=
  ⟨has_openBlock hd, (openBlock_eq_some_iff.1 hd).2, hbelow, hv.knownOperand hd⟩

theorem Parked.mono (h : x.Parked c d v) (hext : x.function.Extends x.parents y.function y.parents)
    (hterm : y.function.termAt d = x.function.termAt d) : y.Parked c d v where
  has := hext.has d h.has
  isOpen := hterm.trans h.isOpen
  below := x.wellFormed.below_mono hext.parent h.has h.below
  known := hext.knownOperand x.wellFormed h.has h.known

theorem Parked.delivers (h : x.Parked c d v) (ty : Ty) : (x.moveTo d h.has).Delivers v ty := by
  have hopen := moveTo_openBlock h.has h.isOpen
  exact ⟨knows_of_knownOperand hopen h.known, fun _ => .inl (by rw [hopen]; rfl)⟩

end TreeFlow.Lower.Site
