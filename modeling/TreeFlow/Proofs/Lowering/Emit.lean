import TreeFlow.Proofs.Lowering.Site

/-!
# Emitting code at a site

What each operation of the builder does at a site. Code goes to the block at the cursor if that is open,
and to a new one otherwise (`Site.IsReady`). An instruction whose operands are known leads to a site
where its own value is known; an operation on constants may be folded, and then it leads nowhere.
-/

namespace TreeFlow

/-! ### Folded constants -/

section Fold

variable {op : BinOp} {cmp : CmpOp} {cast : CastOp} {l r c : Constant} {ty : Ty}

theorem Constant.truth?_integral (v : Int) (ty : Ty) : (integral v ty).truth?.isSome := by
  cases ty <;> rfl

/-- It is known of each constant that arithmetic comes to whether it is true. -/
theorem Constant.truth?_foldBinary? (h : foldBinary? op l r ty = some c) : c.truth?.isSome := by
  simp only [foldBinary?] at h
  split at h
  · simp only [bind, Option.bind_eq_some_iff, pure, Option.some.injEq] at h
    obtain ⟨-, -, -, -, -, -, rfl⟩ := h
    cases ty <;> rfl
  · simp only [bind, Option.bind_eq_some_iff, pure, Option.some.injEq] at h
    obtain ⟨-, -, -, -, -, -, rfl⟩ := h
    exact truth?_integral _ _

theorem Constant.truth?_foldCmp? (h : foldCmp? cmp l r = some c) : c.truth?.isSome := by
  simp only [foldCmp?] at h
  split at h
  · simp only [bind, Option.bind_eq_some_iff, pure, Option.some.injEq] at h
    obtain ⟨-, -, -, -, rfl⟩ := h
    rfl
  · split at h
    · obtain rfl := Option.some.inj h
      rfl
    · simp only [bind, Option.bind_eq_some_iff, pure, Option.some.injEq] at h
      obtain ⟨-, -, -, -, rfl⟩ := h
      rfl

end Fold

namespace Lower

variable {env : Env} {line : Nat}

namespace Site

variable {x x₀ y : Site} {b c d : BlockId} {g : Function} {v : Operand} {ty : Ty}
  {w : Option BlockId}

/-! ### Blocks that take code -/

/-- The block `c` of the function `g` takes the next instruction: it is the open block at the
cursor, or a new one. -/
structure IsReady (x : Site) (c : BlockId) (g : Function) : Prop where
  eq : x.function.ready x.state.builder.block = (c, g)
  place : x.openBlock = some c ∨ x.openBlock = none ∧ ¬ x.function.Has c
  wellFormed : g.WellFormed x.parents
  grows : Function.Grows x.openBlock x.function x.parents g x.parents
  has : ∀ b, g.Has b ↔ x.function.Has b ∨ b = c
  insts : g.insts = x.function.insts
  slots : ∀ b, g.slotsAt b = x.function.slotsAt b
  code : ∀ b, g.codeAt b = x.function.codeAt b
  term : ∀ b, g.termAt b = x.function.termAt b
  isOpen : x.function.termAt c = none

theorem exists_isReady (x : Site) : ∃ c g, x.IsReady c g := by
  cases hx : x.openBlock with
  | some c =>
    have hc := x.has_openBlock hx
    refine ⟨c, x.function, Function.ready_of_open hx, .inl hx, x.wellFormed, .refl _ _ _,
      fun b => ?_, rfl, fun _ => rfl, fun _ => rfl, fun _ => rfl, (openBlock_eq_some_iff.1 hx).2⟩
    exact (or_iff_left_of_imp fun heq => heq ▸ hc).symm
  | none =>
    obtain ⟨e, he, -⟩ := x.wellFormed.entry
    have hne : x.function.layout ≠ [] := fun hnil => by simp [ Function.entry?, hnil] at he
    exact ⟨_, _, Function.ready_of_closed hx, .inr ⟨hx, x.function.not_has_nextBlock⟩,
      x.wellFormed.addBlock (List.head?_append_of_ne_nil _ hne) (List.Perm.refl _),
      Function.grows_addBlock _ hne, fun _ => Function.has_addBlock, rfl,
      fun _ => Function.slotsAt_addBlock, fun _ => Function.codeAt_addBlock,
      fun _ => Function.termAt_addBlock,
      Function.termAt_of_not_has x.function.not_has_nextBlock⟩

namespace IsReady

variable (h : x.IsReady c g)
include h

theorem has_self : g.Has c := (h.has c).2 (.inr rfl)

theorem isOpen' : g.termAt c = none := (h.term c).trans h.isOpen

/-- Only the open block at the cursor is there already. -/
theorem old (hc : x.function.Has c) : x.openBlock = some c :=
  h.place.resolve_right fun hnew => hnew.2 hc

theorem successors (b : BlockId) : g.successors b = x.function.successors b := by
  rw [Function.successors_eq, h.term, Function.successors_eq]

theorem knows (hv : x.Knows v) : g.KnownOperand x.parents c v := by
  intro i hi
  rcases hv i hi with hslot | ⟨d, hd, hknown⟩
  · exact .inl (h.grows.isSlot hslot)
  · obtain rfl : d = c := by
      rcases h.place with hc | ⟨hnone, -⟩
      · exact Option.some.inj (hd.symm.trans hc)
      · simp [hd] at hnone
    exact h.grows.known x.wellFormed (x.has_openBlock hd) hknown

end IsReady

/-! ### Instructions -/

/-- The site behind an instruction that goes to the block at the cursor. -/
theorem exists_insert {k : InstKind} (ty : Ty) (hkind : k.isAlloca = false)
    (huses : k.incoming? = none → ∀ v ∈ k.operands, x.Knows v)
    (hphi : ∀ incoming, k.incoming? = some incoming → ∃ c, x.openBlock = some c ∧
      (x.parents c).isSome ∧ (incoming.map Prod.snd).Nodup ∧
      (∀ p, p ∈ incoming.map Prod.snd ↔ c ∈ x.function.successors p) ∧
      ∀ v p, (v, p) ∈ incoming → x.function.KnownOperand x.parents p v) :
    ∃ y v b, Build.insert k ty x.state.builder = .ok (v, b) ∧
      y.state = { x.state with builder := b } ∧ x.Reaches y ∧ y.openBlock.isSome ∧ y.Knows v := by
  obtain ⟨c, g, hr⟩ := x.exists_isReady
  have hwf : (g.append c ⟨k, ty⟩).WellFormed x.parents := by
    refine hr.wellFormed.append hr.has_self hr.isOpen' hkind
      (fun hin v hv => hr.knows (huses hin v hv)) fun incoming hin => ?_
    obtain ⟨d, hd, hparent, hnodup, hpreds, hsource⟩ := hphi incoming hin
    obtain rfl : d = c := by
      rcases hr.place with hc | ⟨hnone, -⟩
      · exact Option.some.inj (hd.symm.trans hc)
      · simp [hd] at hnone
    refine ⟨hparent, hnodup, fun p => by rw [hr.successors]; exact hpreds p, fun v p hvp => ?_⟩
    have hedge : d ∈ x.function.successors p := (hpreds p).1 (List.mem_map_of_mem hvp)
    exact hr.grows.knownOperand x.wellFormed (Function.has_of_mem_successors hedge)
      (hsource v p hvp)
  have hgrows : Function.Grows x.openBlock x.function x.parents (g.append c ⟨k, ty⟩) x.parents :=
    hr.grows.trans (hr.wellFormed.grows_append hr.has_self hr.isOpen' hkind)
      fun b hb hold => hr.old (Option.some.inj hb ▸ hold) |>.trans hb
  let y := x.write (g.append c ⟨k, ty⟩) x.parents (some c) hgrows.toExtends hwf
    fun d hd => Option.some.inj hd ▸ Function.has_append.2 hr.has_self
  have hopen : y.openBlock = some c :=
    openBlock_eq_some_iff.2 ⟨rfl, Function.termAt_append.trans hr.isOpen'⟩
  refine ⟨y, .inst g.nextInst, _, ?_, rfl, ⟨⟨rfl, rfl, rfl, hgrows⟩, ?_⟩, by rw [hopen]; rfl, ?_⟩
  · have hinsert := Build.insert_eq x.builds x.has_cursor k ty
    rwa [hr.eq] at hinsert
  · rcases hr.place with hc | ⟨hnone, hnew⟩
    · exact moves_of_open hc hopen (.inl rfl) .refl
    · exact moves_of_new hnone hopen hnew
  · rintro i ⟨rfl⟩
    refine .inr ⟨c, hopen, .inr ⟨c, .refl, ?_⟩⟩
    show g.nextInst ∈ (g.append c ⟨k, ty⟩).codeAt c
    rw [(Function.slots_code_append hr.wellFormed.whole hr.has_self hkind).2, if_pos rfl]
    exact List.mem_append_right _ (List.mem_singleton_self _)

section Insert

variable {k : InstKind} (hkind : k.isAlloca = false) (hin : k.incoming? = none)
  (huses : ∀ v ∈ k.operands, x.Knows v)
include hkind hin huses

/-- An instruction other than a phi or a slot. -/
theorem writes_insert (ty : Ty) :
    x.Writes env (emit line (Build.insert k ty)) fun v y => y.Delivers v ty := by
  obtain ⟨y, v, b, hrun, hy, hxy, hopen, hv⟩ := exists_insert ty hkind
    (fun _ => huses) (fun _ h => by simp [hin] at h)
  exact Runs.of_done (emit_of_ok hrun) ⟨y, hy, hxy, hv, fun _ => .inl hopen⟩

/-- An instruction that yields nothing of use. -/
theorem writes_discard (ty : Ty) {m : Build Unit} (hm : m = discard (Build.insert k ty)) :
    x.Writes env (emit line m) fun _ y => y.openBlock.isSome := by
  obtain ⟨y, v, b, hrun, hy, hxy, hopen, -⟩ := exists_insert ty hkind
    (fun _ => huses) (fun _ h => by simp [hin] at h)
  have hrun' : m x.state.builder = .ok ((), b) := by
    subst hm
    show (Build.insert k ty x.state.builder).bind _ = _
    rw [hrun]
    rfl
  exact Runs.of_done (emit_of_ok hrun') ⟨y, hy, hxy, hopen⟩

end Insert

/-- An operation that may have been folded. -/
theorem writes_folded {o : Option Constant} {m : Build Operand}
    (hfold : ∀ c, o = some c → ty = .bool → c.truth?.isSome)
    (hm : x.Writes env (emit line m) fun v y => y.Delivers v ty) :
    x.Writes env
      (emit line (match o with | some c => return .const c | none => m)) fun v y =>
        y.Delivers v ty := by
  cases o with
  | none => exact hm
  | some c =>
    exact Runs.of_done rfl ⟨x, rfl, Std.Refl.refl x, x.knows_const c,
      fun hty => .inr ⟨c, rfl, hfold c rfl hty⟩⟩

variable {l r : Operand}

theorem writes_load (hv : x.Knows v) (ty : Ty) :
    x.Writes env (emit line (Build.load v ty)) fun v y => y.Delivers v ty :=
  writes_insert rfl rfl (by simpa [InstKind.operands] using hv) ty

theorem writes_store (hl : x.Knows l) (hr : x.Knows r) :
    x.Writes env (emit line (Build.store l r)) fun _ y => y.openBlock.isSome :=
  writes_discard rfl rfl (by simpa [InstKind.operands] using ⟨hl, hr⟩) .void rfl

theorem writes_copy (hl : x.Knows l) (hr : x.Knows r) (ty : Ty) :
    x.Writes env (emit line (Build.copy l r ty)) fun _ y => y.openBlock.isSome :=
  writes_discard (k := .copy l r ty) rfl rfl (by simpa [InstKind.operands] using ⟨hl, hr⟩)
    .void rfl

theorem writes_call {args : List Operand} (hv : x.Knows v) (hargs : ∀ a ∈ args, x.Knows a)
    (ty : Ty) :
    x.Writes env (emit line (Build.call v args ty)) fun v y => y.Delivers v ty :=
  writes_insert rfl rfl (by simpa [InstKind.operands] using ⟨hv, hargs⟩) ty

theorem writes_field (hv : x.Knows v) (i : Nat) (ty : Ty) :
    x.Writes env (emit line (Build.field v i ty)) fun v y => y.Delivers v ty :=
  writes_insert rfl rfl (by simpa [InstKind.operands] using hv) ty

theorem writes_binary (op : BinOp) (hl : x.Knows l) (hr : x.Knows r) (ty : Ty) :
    x.Writes env (emit line (Build.binary op l r ty)) fun v y => y.Delivers v ty := by
  refine writes_folded ?_
    (writes_insert rfl rfl (by simpa [InstKind.operands] using ⟨hl, hr⟩) ty)
  intro c hc _
  simp only [bind, Option.bind_eq_some_iff] at hc
  obtain ⟨_, _, _, _, hc⟩ := hc
  exact Constant.truth?_foldBinary? hc

theorem writes_cmp (op : CmpOp) (hl : x.Knows l) (hr : x.Knows r) :
    x.Writes env (emit line (Build.cmp op l r)) fun v y => y.Delivers v .bool := by
  refine writes_folded ?_
    (writes_insert rfl rfl (by simpa [InstKind.operands] using ⟨hl, hr⟩) .bool)
  intro c hc _
  simp only [bind, Option.bind_eq_some_iff] at hc
  obtain ⟨_, _, _, _, hc⟩ := hc
  exact Constant.truth?_foldCmp? hc

theorem writes_cast (op : CastOp) (hv : x.Knows v) (ty : Ty) :
    x.Writes env (emit line (Build.cast op v ty)) fun v y => y.Knows v := by
  simp only [Build.cast]
  split
  · next c _ => exact Runs.of_done rfl ⟨x, rfl, Std.Refl.refl x, x.knows_const c⟩
  · exact (writes_insert rfl rfl (by simpa [InstKind.operands] using hv) ty).imp
      fun _ _ _ h => h.knows

theorem writes_offset (hl : x.Knows l) (hr : x.Knows r) (ty : Ty) :
    x.Writes env (emit line (Build.offset l r ty)) fun v y => y.Knows v := by
  simp only [Build.offset]
  split
  · exact Runs.of_done rfl ⟨x, rfl, Std.Refl.refl x, hl⟩
  · exact (writes_insert rfl rfl (by simpa [InstKind.operands] using ⟨hl, hr⟩) ty).imp
      fun _ _ _ h => h.knows

/-- A phi in an open block that lists the blocks in front of it. -/
theorem writes_phi {incoming : List (Operand × BlockId)} (hc : x.openBlock = some c)
    (hparent : (x.parents c).isSome) (hnodup : (incoming.map Prod.snd).Nodup)
    (hpreds : ∀ p, p ∈ incoming.map Prod.snd ↔ c ∈ x.function.successors p)
    (hsource : ∀ v p, (v, p) ∈ incoming → x.function.KnownOperand x.parents p v) (ty : Ty) :
    x.Writes env (emit line (Build.phi incoming ty)) fun v y =>
      y.Delivers v ty := by
  simp only [Build.phi]
  split
  · next v hv =>
    refine Runs.of_done rfl ⟨x, rfl, Std.Refl.refl x, ?_, fun _ => .inl (by rw [hc]; rfl)⟩
    obtain ⟨k, rfl⟩ : ∃ k, v = .const k := by
      cases incoming with
      | nil => simp [Build.commonConstant?] at hv
      | cons first rest =>
        obtain ⟨v', p⟩ := first
        simp only [Build.commonConstant?] at hv
        split at hv
        · next hif =>
          obtain rfl := Option.some.inj hv
          cases v' <;> simp_all [Operand.const?]
        · simp at hv
    exact x.knows_const k
  · obtain ⟨y, v, b, hrun, hy, hxy, hopen, hv⟩ := exists_insert (x := x)
      (k := .phi incoming) ty rfl (fun h => by simp [InstKind.incoming?] at h)
      fun incoming' h => by
        obtain rfl : incoming = incoming' := by simpa [InstKind.incoming?] using h
        exact ⟨c, hc, hparent, hnodup, hpreds, hsource⟩
    exact Runs.of_done (emit_of_ok hrun) ⟨y, hy, hxy, hv, fun _ => .inl hopen⟩

/-! ### Slots -/

/-- A slot is known everywhere, and the cursor stays where it is. -/
theorem writes_alloca (ty : Ty) :
    x.Writes env (emit line (Build.alloca ty)) fun v y =>
      y.function.KnownAnywhere v := by
  obtain ⟨e, he, -⟩ := x.wellFormed.entry
  have hgrows : Function.Grows x.openBlock x.function x.parents (x.function.reserve e ty)
      x.parents := x.wellFormed.grows_reserve he _
  let y := x.write (x.function.reserve e ty) x.parents x.state.builder.block hgrows.toExtends
    (x.wellFormed.reserve he) fun c hc => Function.has_reserve.2 (x.has_cursor c hc)
  have hopen : y.openBlock = x.openBlock := by
    cases hb : x.state.builder.block with
    | none => simp [y, openBlock, write, Function.openAt, hb]
    | some c => simp [y, openBlock, write, Function.openAt, hb, Function.isTerminated_eq]
  refine Runs.of_done (emit_of_ok (Build.alloca_eq x.builds x.wellFormed.whole he ty))
    ⟨y, rfl, ⟨⟨rfl, rfl, rfl, hgrows⟩, moves_of_eq rfl hopen⟩, ?_⟩
  rintro i ⟨rfl⟩
  exact x.wellFormed.isSlot_reserve he

/-! ### Blocks -/

/-- Nothing stands in a block and nothing leads to it. -/
structure Blank (x : Site) (b : BlockId) : Prop where
  has : x.function.Has b
  code : x.function.codeAt b = []
  isOpen : x.function.termAt b = none
  parent : x.parents b = none
  not_entry : x.function.entry? ≠ some b
  unentered : ∀ p, b ∉ x.function.successors p

theorem Blank.mono (hb : x.Blank b) (h : Grown w x y) (hw : some b ≠ w) : y.Blank b where
  has := h.grows.has b hb.has
  code := (h.grows.frozen b hb.has hw).1.trans hb.code
  isOpen := (h.grows.frozen b hb.has hw).2.trans hb.isOpen
  parent := (h.grows.parent b hb.has).trans hb.parent
  not_entry := h.grows.entry ▸ hb.not_entry
  unentered p := (h.grows.mem_successors_iff hb.has).not.2 (hb.unentered p)

/-- A new block; the cursor stays where it is. -/
theorem exists_newBlock (env : Env) (line : Nat) (x : Site) :
    ∃ b y, emit line Build.newBlock env x.state = (.done b, y.state) ∧ x.Reaches y ∧
      ¬ x.function.Has b ∧ y.Blank b ∧ y.openBlock = x.openBlock := by
  obtain ⟨e, he, -⟩ := x.wellFormed.entry
  have hne : x.function.layout ≠ [] := fun hnil => by simp [ Function.entry?, hnil] at he
  have hhead : (x.function.layout ++ [x.function.nextBlock]).head? = x.function.layout.head? :=
    List.head?_append_of_ne_nil _ hne
  have hgrows := Function.grows_addBlock (f := x.function) (P := x.parents) x.openBlock hne
  let y := x.write (x.function.addBlock (x.function.layout ++ [x.function.nextBlock])) x.parents
    x.state.builder.block hgrows.toExtends (x.wellFormed.addBlock hhead (List.Perm.refl _))
    fun c hc => Function.has_addBlock.2 (.inl (x.has_cursor c hc))
  have hopen : y.openBlock = x.openBlock := by
    cases hb : x.state.builder.block with
    | none => simp [y, openBlock, write, Function.openAt, hb]
    | some c => simp [y, openBlock, write, Function.openAt, hb, Function.isTerminated_eq]
  have hnew := x.function.not_has_nextBlock
  refine ⟨_, y, emit_of_ok (Build.newBlock_eq x.builds),
    ⟨⟨rfl, rfl, rfl, hgrows⟩, moves_of_eq rfl hopen⟩, hnew, ?_, hopen⟩
  exact {
    has := Function.has_addBlock.2 (.inr rfl)
    code := Function.codeAt_addBlock.trans
      (List.eq_nil_iff_forall_not_mem.2 fun i hi => hnew (Function.has_of_mem_codeAt hi))
    isOpen := Function.termAt_addBlock.trans (Function.termAt_of_not_has hnew)
    parent := x.wellFormed.parent_of_not_has hnew
    not_entry := fun heq => hnew (x.wellFormed.has_entry (hgrows.entry.symm.trans heq))
    unentered := fun p hp => hnew (x.wellFormed.has_successor p _
      (Function.successors_addBlock ▸ hp)) }

end Site

end Lower

end TreeFlow
