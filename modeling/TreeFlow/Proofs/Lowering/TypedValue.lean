import TreeFlow.Proofs.Lowering.Typed
import TreeFlow.Proofs.Lowering.Proper

namespace TreeFlow

/-- The type that a value has once it has been loaded. -/
def Value.loadedTy (v : Value) : Ty :=
  match v.form, v.ty with
  | .function, ty => ty.pointerTo
  | .storage, .array element _ => element.pointerTo
  | _, ty => ty

/-- A value that has been loaded; aggregates stay where they are. -/
structure Value.IsLoaded (tree : Tree) (b : Builder) (v : Value) : Prop extends v.IsTyped tree b where
  loaded : v.ty.isAggregate = false → v.form = .value

namespace Value.IsLoaded

variable {tree : Tree} {b : Builder} {v : Value} {op : Operand} {ty : Ty}

theorem ofOperand (hty : ty.WellFormed) (hop : b.Holds op ty) : (Value.ofOperand op ty).IsLoaded tree b where
  toIsTyped := .ofOperand hty hop
  loaded _ := rfl

theorem holds (h : v.IsLoaded tree b) (hty : v.ty.isAggregate = false) : b.Holds v.op v.ty :=
  h.toIsTyped.holds (h.loaded hty) hty

/-- The operand is passed on as one of that type. An aggregate in storage is there by its address. -/
theorem passes (h : v.IsLoaded tree b) : b.Passes v.op v.ty := by
  cases h.fits with
  | address hform hop => exact .address (Bool.of_not_eq_false fun hscalar => hform (h.loaded hscalar)) hop
  | value _ hop => exact .value hop
  | cast _ _ haggregate hop => exact .address haggregate hop

theorem hasTy_of_isPointer (h : v.IsLoaded tree b) (hpointer : v.ty.isPointer = true) : b.HasTy v.op v.ty := by
  have hother : v.ty.isAggregate = false ∧ v.ty.isInteger = false := by
    cases hty : v.ty <;> simp_all [Ty.isPointer, Ty.isAggregate, Ty.isInteger]
  exact (h.holds hother.1).hasTy hother.2

end Value.IsLoaded

namespace Lower

variable {α : Type}

theorem State.Peeks.isLoaded {tree : Tree} {s t : State} {v : Value} (h : s.Peeks t)
    (hv : v.IsLoaded tree s.builder) : v.IsLoaded tree t.builder where
  toIsTyped := h.isTyped hv.toIsTyped
  loaded := hv.loaded

section Values

variable {s : State} {env : Env} {v l r : Value} {ty : Ty} {op : Operand} {line : Nat}

theorem yields_toRvalue (hv : v.IsTyped env.tree s.builder) :
    s.Yields env (toRvalue v line) fun b r => r.IsLoaded env.tree b ∧ r.ty = v.loadedTy := by
  obtain ⟨op, ty, form, effects⟩ := v
  unfold toRvalue
  cases form with
  | function =>
    have haddress := hv.address (show Form.function ≠ .value by decide)
    exact .pure ⟨⟨⟨hv.ty.pointerTo, .value rfl (.of_hasTy haddress)⟩, fun _ => rfl⟩, rfl⟩
  | value => exact .pure ⟨⟨hv, fun _ => rfl⟩, rfl⟩
  | storage =>
    cases ty with
    | struct | union => exact .pure ⟨⟨hv, nofun⟩, rfl⟩
    | array element length =>
      have helement : element.WellFormed := by
        cases hv.ty
        assumption
      exact .bind (.emit_gives (Build.gives_cast _ _ _ _)) fun _ _ _ hop =>
        .pure ⟨⟨⟨helement.pointerTo, .value rfl (.of_hasTy hop)⟩, fun _ => rfl⟩, rfl⟩
    | void => exact .pure ⟨⟨⟨.void, .value rfl (.of_hasTy (.const rfl))⟩, fun _ => rfl⟩, rfl⟩
    | _ =>
      exact .bind (.emit_gives (Build.gives_load _ _ _)) fun _ _ _ hop =>
        .pure ⟨⟨⟨hv.ty, .value rfl (.of_hasTy hop)⟩, fun _ => rfl⟩, rfl⟩

theorem yields_loadAggregate : s.Yields env (loadAggregate v line) fun _ _ => True := by
  unfold loadAggregate
  split
  · exact .emit_steady (Build.steady_load _ _)
  · exact .pure trivial

theorem yields_toBool (hv : v.IsLoaded env.tree s.builder) :
    s.Yields env (toBool v line) fun b op => b.Holds op .bool := by
  unfold toBool
  split
  · next hbool =>
    have hty : v.ty = .bool := by
      cases hty : v.ty <;> simp_all [Ty.isBool]
    exact .pure (hty ▸ hv.holds (by rw [hty]; rfl))
  · split
    · exact .failWith _ _
    · exact (State.Comes.emit_gives (Build.gives_cmp _ _ _ _)).imp fun _ _ => .of_hasTy

/-- The same bits serve for integers of one width. -/
theorem standsFor_of_keep {source target : Ty} (h : conversion? source target = some .keep) :
    source.StandsFor target := by
  unfold conversion? at h
  split at h
  · next hint =>
    obtain ⟨hsource, htarget⟩ := Bool.and_eq_true_iff.1 hint
    obtain ⟨a, ha, h⟩ := Option.bind_eq_some_iff.1 h
    obtain ⟨b, hb, h⟩ := Option.bind_eq_some_iff.1 h
    split at h
    · cases h
    · split at h
      · cases h
      · exact .inr ⟨hsource, htarget, by rw [ha, hb]; exact congrArg some (Nat.le_antisymm (by omega) (by omega))⟩
  · split at h
    · split at h <;> cases h
    · split at h
      · cases h
      · split at h
        · cases h
        · cases h
        · cases h
        · split at h
          · split at h <;> cases h
          · cases h
        · split at h <;> cases h
        · cases h

theorem yields_applyConversion {c : Conversion} (hkeep : c = .keep → s.builder.Holds op ty) :
    s.Yields env (applyConversion c op ty line) fun b r => b.Holds r ty := by
  cases c with
  | keep => exact .pure (hkeep rfl)
  | cast cast => exact (State.Comes.emit_gives (Build.gives_cast _ _ _ _)).imp fun _ _ => .of_hasTy
  | castFrom wider cast =>
    exact .bind (.emit_steady (Build.steady_cast _ _ _)) fun _ _ _ _ =>
      (State.Comes.emit_gives (Build.gives_cast _ _ _ _)).imp fun _ _ => .of_hasTy

/-- What a value is converted to is passed on as one of the target. -/
theorem yields_convert (hv : v.IsLoaded env.tree s.builder) :
    s.Yields env (convert v ty line) fun b r => b.Passes r ty := by
  unfold convert
  split
  · next heq => exact .pure (heq ▸ hv.passes)
  · split
    · exact .fail
    · next hscalar =>
      split
      · next hbool =>
        have hty : ty = .bool := by
          cases hty : ty <;> simp_all [Ty.isBool]
        exact hty ▸ (yields_toBool hv).imp fun _ _ => .value
      · split
        · next c hc =>
          have hloaded : v.ty.isAggregate = false := by simp_all
          refine State.Comes.imp (yields_applyConversion fun hkeep => ?_) fun _ _ => .value
          exact (hv.holds hloaded).standsFor (standsFor_of_keep (hkeep ▸ hc))
        · exact .fail

theorem yields_convertOrReport (hv : v.IsLoaded env.tree s.builder) :
    s.Yields env (convertOrReport v ty line) fun b r => b.Passes r ty := by
  refine .bind (yields_convert hv).attempt fun o _ _ ho => ?_
  split
  · exact .pure (ho _ rfl)
  · exact .failWith _ _

/-- Two operands are brought to the type of one of them. -/
theorem yields_promote (hl : l.IsLoaded env.tree s.builder) (hr : r.IsLoaded env.tree s.builder) :
    s.Yields env (promote l r line) fun _ p => p.2.2 = l.ty ∨ p.2.2 = r.ty := by
  unfold promote
  split
  · exact .fail
  · next ty hty =>
    exact .bind (yields_convert hl) fun _ _ hst _ => .bind (yields_convert (hst.isLoaded hr)) fun _ _ _ _ =>
      .pure (Ty.common?_eq_some hty)

/-- What was emitted is passed on as a value of its type. -/
theorem yields_emitted {m : Build Operand} (hty : ty.WellFormed) (hm : Build.Gives m s.builder ty) :
    s.Yields env (do return Value.ofOperand (← emit line m) ty) fun b v => v.IsTyped env.tree b :=
  .bind (.emit_gives hm) fun _ _ _ hop => .pure (.ofOperand hty (.of_hasTy hop))

theorem yields_pointerOffset (hl : l.IsLoaded env.tree s.builder) (hr : r.IsLoaded env.tree s.builder) (hpointer : l.ty.isPointer = true)
    (back : Bool) : s.Yields env (pointerOffset l r back line) fun b v => v.IsTyped env.tree b := by
  refine .bind (yields_convert hr) fun forward t hst _ => ?_
  have hoffset : ∀ (index : Operand) (u : State), t.GoesTo u → u.Yields env (do
      return Value.ofOperand (← emit line (Build.offset l.op index l.ty)) l.ty) fun b v => v.IsTyped env.tree b :=
    fun index u htu =>
      yields_emitted hl.ty (Build.gives_offset ((hst.trans htu).hasTy (hl.hasTy_of_isPointer hpointer)) index)
  dsimp only
  split
  · exact .bind (.emit_steady (Build.steady_binary _ _ _ _)) fun index u htu _ => hoffset index u htu
  · exact .bind (P := fun _ _ => True) (.pure trivial) fun index u htu _ => hoffset index u htu

theorem yields_elementSize (ty : Ty) : s.Yields env (elementSize ty line) fun _ _ => True := by
  refine .bind_env (.bind_types ?_)
  split
  · exact .pure trivial
  · exact .halt _
  · exact .bind_describe fun _ => .failWith _ _

theorem yields_pointerDifference : s.Yields env (pointerDifference l r line) fun b v => v.IsTyped env.tree b := by
  refine .bind (yields_elementSize _) fun size _ _ _ => ?_
  refine .bind (.emit_steady (Build.steady_cast _ _ _)) fun _ _ _ _ => ?_
  refine .bind (.emit_steady (Build.steady_cast _ _ _)) fun _ _ _ _ => ?_
  refine .bind (.emit_gives (Build.gives_binary (fun h => by cases h) _ _ _)) fun _ _ _ hcount => ?_
  split
  · exact .pure (.ofOperand (.int 64) (.of_hasTy hcount))
  · exact yields_emitted (.int 64) (Build.gives_binary (fun h => by cases h) _ _ _)

theorem yields_pointerCompare (hl : l.IsLoaded env.tree s.builder) (hr : r.IsLoaded env.tree s.builder) (op : BinaryOp) :
    s.Yields env (pointerCompare op l r line) fun b v => v.IsTyped env.tree b := by
  refine .bind (yields_convert hl).attempt fun _ _ hst _ => ?_
  refine .bind (yields_convert (hst.isLoaded hr)).attempt fun _ _ _ _ => ?_
  split
  · exact yields_emitted .bool (Build.gives_cmp _ _ _ _)
  · exact .fail
  · exact .failWith _ _

theorem yields_addressAsInteger (hv : v.IsLoaded env.tree s.builder) :
    s.Yields env (addressAsInteger v line) fun b v => v.IsLoaded env.tree b := by
  unfold addressAsInteger
  split
  · exact .bind (.emit_gives (Build.gives_cast _ _ _ _)) fun _ _ _ hop =>
      .pure (.ofOperand (.int 64) (.of_hasTy hop))
  · exact .pure hv

theorem yields_arithmetic (hl : l.IsLoaded env.tree s.builder) (hr : r.IsLoaded env.tree s.builder) (op : BinaryOp) :
    s.Yields env (arithmetic op l r line) fun b v => v.IsTyped env.tree b := by
  refine .bind (yields_addressAsInteger hl) fun l _ hst hl => ?_
  refine .bind (yields_addressAsInteger (hst.isLoaded hr)) fun r _ hst hr => ?_
  split
  · exact .failWith _ _
  · refine .bind (yields_promote (hst.isLoaded hl) hr).attempt fun o _ _ ho => ?_
    split
    · exact .failWith _ _
    · next lo ro ty =>
      have hty : ty.WellFormed := by
        rcases ho _ rfl with rfl | rfl
        · exact hl.ty
        · exact hr.ty
      split
      · split
        · exact yields_emitted .bool (Build.gives_cmp _ _ _ _)
        · exact .fail
      · split
        · next bin hbin =>
          have hop : bin.isFloat = true → ty.isFloat = true := fun h => isFloat_of_bin? hbin ▸ h
          exact yields_emitted hty (Build.gives_binary hop _ _ _)
        · exact .failWith _ _

theorem yields_combine (hl : l.IsLoaded env.tree s.builder) (hr : r.IsLoaded env.tree s.builder) (op : BinaryOp) :
    s.Yields env (combine op l r line) fun b v => v.IsTyped env.tree b := by
  unfold combine
  split
  · next h => exact yields_pointerOffset hl hr (by simp_all) _
  · split
    · next h => exact yields_pointerOffset hr hl (by simp_all) _
    · split
      · exact yields_pointerDifference
      · split
        · exact yields_pointerCompare hl hr op
        · exact yields_arithmetic hl hr op

end Values

end Lower

end TreeFlow
