import TreeFlow.Proofs.Lowering.Deepening
import TreeFlow.Proofs.Lowering.Draining

/-!
# Steps that are the same up to source lines

The same declaration can be written in nodes that are cut differently, and then its nodes are on other
lines. What is reported is reported on other lines then, and a parameter without a declarator has another
line. Nothing else differs: no step looks at the diagnostics that are queued (`Regular.blind`), so what
is done afterwards is the same, too (`Resembles.bind`).
-/

namespace TreeFlow

/-! ### Without lines -/

/-- The diagnostic, but for its line. -/
def Diagnostic.unlined (d : Diagnostic) : Diagnostic := { d with line := 0 }

/-- The queue, but for the lines of what is in it. -/
def DiagnosticQueue.unlined (q : DiagnosticQueue) : DiagnosticQueue := { q with items := q.items.map (·.unlined) }

/-- What was declared, but for the line of it. -/
def DeclaratorInfo.lineless (info : DeclaratorInfo) : DeclaratorInfo := { info with line := 0 }

/-- What was declared, but for the lines of it and of its parameters. -/
def DeclaratorInfo.unlined (info : DeclaratorInfo) : DeclaratorInfo :=
  { info.lineless with params := info.params.map (·.map lineless) }

theorem DeclaratorInfo.unlined_eq_iff {info info' : DeclaratorInfo} :
    info.unlined = info'.unlined ↔ info.ty = info'.ty ∧ info.name = info'.name ∧ info.init = info'.init ∧
      info.params.map (·.map lineless) = info'.params.map (·.map lineless) ∧ info.variadic = info'.variadic := by
  simp [unlined, lineless]

theorem DiagnosticQueue.unlined_push (q : DiagnosticQueue) (d : Diagnostic) :
    (q.push d).unlined = q.unlined.push d.unlined := by
  have herror : d.unlined.isError = d.isError := rfl
  simp [push, unlined, herror]

namespace Lower

variable {α β γ δ : Type} {env : Env} {erase : α → γ} {m n p : Lower α} {s s' t t' : State}

/-- The state, but for the lines of what is queued. -/
def State.unlined (s : State) : State := s.withDiags s.diags.unlined

/-- Two results are the same, up to what `erase` drops from what was yielded, and up to the lines of what was
reported. -/
inductive Agrees (erase : α → γ) : Outcome α × State → Outcome α × State → Prop
  | done {a b : α} {t t' : State} (hyield : erase a = erase b) (hstate : t.unlined = t'.unlined) :
      Agrees erase (.done a, t) (.done b, t')
  | failed {t t' : State} (hstate : t.unlined = t'.unlined) : Agrees erase (.failed, t) (.failed, t')
  | stuck {why : Stuck} {t t' : State} (hstate : t.unlined = t'.unlined) :
      Agrees erase (.stuck why, t) (.stuck why, t')

namespace Agrees

variable {r r' r'' : Outcome α × State}

theorem of_eq (hout : r.1 = r'.1) (hstate : r.2.unlined = r'.2.unlined) : Agrees erase r r' := by
  rcases r with ⟨a | _ | _, t⟩ <;> obtain ⟨_, t'⟩ := r' <;> subst hout
  · exact .done rfl hstate
  · exact .failed hstate
  · exact .stuck hstate

theorem symm (h : Agrees erase r r') : Agrees erase r' r := by
  cases h with
  | done hyield hstate => exact .done hyield.symm hstate.symm
  | failed hstate => exact .failed hstate.symm
  | stuck hstate => exact .stuck hstate.symm

theorem trans (h : Agrees erase r r') (h' : Agrees erase r' r'') : Agrees erase r r'' := by
  cases h with
  | done hyield hstate =>
    cases h' with
    | done hyield' hstate' => exact .done (hyield.trans hyield') (hstate.trans hstate')
  | failed hstate =>
    cases h' with
    | failed hstate' => exact .failed (hstate.trans hstate')
  | stuck hstate =>
    cases h' with
    | stuck hstate' => exact .stuck (hstate.trans hstate')

theorem eq_stuck {why : Stuck} (h : Agrees erase r r') (hr : r.1 = .stuck why) : r'.1 = .stuck why := by
  cases h with
  | stuck => exact hr
  | _ => cases hr

end Agrees

/-! ### What does not depend on lines -/

/-- A state is known by what is queued in it, and by the rest of it. -/
theorem State.behind_items (s : State) : (s.withDiags ⟨#[], s.diags.errors⟩).behind s.diags.items = s := by
  simp [State.behind, DiagnosticQueue.behind, State.withDiags]

theorem State.unlined_behind (s : State) (front : Array Diagnostic) :
    (s.behind front).unlined = s.unlined.behind (front.map (·.unlined)) := by
  simp [State.behind, State.unlined, DiagnosticQueue.behind, DiagnosticQueue.unlined]

/-- States that are the same but for lines are the same with anything else in the queue. -/
theorem State.withDiags_eq (h : s.unlined = s'.unlined) (q : DiagnosticQueue) : s.withDiags q = s'.withDiags q :=
  calc s.withDiags q = s.unlined.withDiags q := rfl
    _ = s'.unlined.withDiags q := by rw [h]

/-- A step that does not look at the diagnostics does the same whatever lines they are on. -/
theorem Blind.agrees (hm : Blind env m) (h : s.unlined = s'.unlined) : Agrees erase (m env s) (m env s') := by
  have herrors : s.diags.errors = s'.diags.errors := congrArg (·.diags.errors) h
  have hitems : s.diags.unlined.items = s'.diags.unlined.items := congrArg (·.diags.items) h
  have hrest : s.withDiags ⟨#[], s.diags.errors⟩ = s'.withDiags ⟨#[], s'.diags.errors⟩ := by
    rw [herrors, State.withDiags_eq h]
  rw [← s.behind_items, ← s'.behind_items, hrest, hm, hm]
  refine .of_eq rfl ?_
  simp only [State.unlined_behind]
  exact congrArg _ hitems

/-! ### Steps -/

/-- Two steps come to results that agree, unless the first one is cut off. -/
def Resembles (env : Env) (erase : α → γ) (m n : Lower α) : Prop :=
  ∀ s s' : State, s.unlined = s'.unlined → (m env s).1 = .stuck .endless ∨ Agrees erase (m env s) (n env s')

namespace Resembles

theorem of_deepens (h : Deepens m n) (hn : Regular (.loose env) false n) : Resembles env erase m n := by
  intro s s' hs
  rcases h env s with hcut | hsame
  · exact .inl hcut
  · exact .inr (hsame ▸ hn.blind.agrees hs)

theorem of_endless (h : ∀ s, (m env s).1 = .stuck .endless) : Resembles env erase m n :=
  fun s _ _ => .inl (h s)

theorem trans (hmn : Resembles env erase m n) (hnp : Resembles env erase n p) : Resembles env erase m p := by
  intro s s' hs
  rcases hmn s s' hs with hm | hm
  · exact .inl hm
  · rcases hnp s' s' rfl with hn | hn
    · exact .inl (hm.symm.eq_stuck hn)
    · exact .inr (hm.trans hn)

theorem pure {a b : α} (h : erase a = erase b) : Resembles env erase (Pure.pure a) (Pure.pure b) :=
  fun _ _ hs => .inr (.done h hs)

theorem bind {erase' : β → δ} {next next' : α → Lower β} (hm : Resembles env erase m n)
    (hnext : ∀ a b, erase a = erase b → Resembles env erase' (next a) (next' b)) :
    Resembles env erase' (m >>= next) (n >>= next') := by
  intro s s' hs
  rcases hm s s' hs with hcut | hagrees
  · exact .inl (bind_stuck hcut)
  · show (Lower.bind m next env s).1 = _ ∨ Agrees erase' (Lower.bind m next env s) (Lower.bind n next' env s')
    unfold Lower.bind
    revert hagrees
    generalize m env s = r, n env s' = r'
    intro hagrees
    cases hagrees with
    | done hyield hstate => exact hnext _ _ hyield _ _ hstate
    | failed hstate => exact .inr (.failed hstate)
    | stuck hstate => exact .inr (.stuck hstate)

theorem attempt (hm : Resembles env erase m n) :
    Resembles env (Option.map erase) (Lower.attempt m) (Lower.attempt n) := by
  intro s s' hs
  rcases hm s s' hs with hcut | hagrees
  · exact .inl (attempt_stuck hcut)
  · unfold Lower.attempt
    revert hagrees
    generalize m env s = r, n env s' = r'
    intro hagrees
    cases hagrees with
    | done hyield hstate => exact .inr (.done (congrArg some hyield) hstate)
    | failed hstate => exact .inr (.done rfl hstate)
    | stuck hstate => exact .inr (.stuck hstate)

/-- Where a problem is reported makes no difference. -/
theorem failWith (kind : DiagnosticKind) (line line' : Nat) :
    Resembles env erase (Lower.failWith kind line) (Lower.failWith kind line') := by
  intro s s' hs
  refine .inr (.failed ?_)
  have hqueue : s.diags.unlined = s'.diags.unlined := congrArg State.diags hs
  show s.withDiags (s.diags.push _).unlined = s'.withDiags (s'.diags.push _).unlined
  rw [DiagnosticQueue.unlined_push, DiagnosticQueue.unlined_push, hqueue, State.withDiags_eq hs]
  rfl

end Resembles

/-! ### Parts of declarators

They may be lowered to another depth, too, if that is no less. -/

section Declarators

theorem resembles_each {step step' : α → Lower β} {erase : β → γ}
    (hstep : ∀ a, Resembles env erase (step a) (step' a)) (items : List α) :
    Resembles env (List.map (Option.map erase)) (each step items) (each step' items) := by
  induction items with
  | nil => exact .pure rfl
  | cons a rest ih =>
    exact (hstep a).attempt.bind fun b b' hb => ih.bind fun found found' hfound => .pure (by simp [hb, hfound])

theorem mapM_id_map (f : α → β) (found : List (Option α)) :
    (found.map (Option.map f)).mapM id = (found.mapM id).map (List.map f) := by
  induction found with
  | nil => rfl
  | cons o rest ih =>
    cases o with
    | none => rfl
    | some a => cases hrest : rest.mapM id <;> simp_all

theorem find?_isVoid_of_lineless {ps ps' : List DeclaratorInfo}
    (h : ps.map DeclaratorInfo.lineless = ps'.map DeclaratorInfo.lineless) :
    (ps.find? (·.ty.isVoid)).map DeclaratorInfo.lineless =
      (ps'.find? (·.ty.isVoid)).map DeclaratorInfo.lineless := by
  have hmap : ∀ ps : List DeclaratorInfo, (ps.map DeclaratorInfo.lineless).find? (·.ty.isVoid) =
      (ps.find? (·.ty.isVoid)).map DeclaratorInfo.lineless := fun ps => by
    rw [List.find?_map]
    rfl
  rw [← hmap, ← hmap, h]

theorem map_ty_of_lineless {ps ps' : List DeclaratorInfo}
    (h : ps.map DeclaratorInfo.lineless = ps'.map DeclaratorInfo.lineless) : ps.map (·.ty) = ps'.map (·.ty) := by
  have hmap : ∀ ps : List DeclaratorInfo, (ps.map DeclaratorInfo.lineless).map (·.ty) = ps.map (·.ty) :=
    fun ps => by simp [DeclaratorInfo.lineless]
  rw [← hmap ps, ← hmap ps', h]

theorem map_adjustParam_lineless (ps : List DeclaratorInfo) :
    (ps.map DeclaratorInfo.lineless).map adjustParam = (ps.map adjustParam).map DeclaratorInfo.lineless := by
  simp only [List.map_map]
  refine List.map_congr_left fun p _ => ?_
  show adjustParam p.lineless = (adjustParam p).lineless
  unfold adjustParam
  show (if p.ty.isFunction then _ else _) = _
  split <;> rfl

variable {d d' : Nat} (hd : d ≤ d') (line line' : Nat)
include hd

theorem resembles_arrayLength (e : ExprId) :
    Resembles env id (arrayLength (descentTo d) e line) (arrayLength (descentTo d') e line') := by
  have hconst : Resembles env id ((descentTo d).constInt e) ((descentTo d').constInt e) :=
    .of_deepens (deepens_constInt (descentTo_deepens hd) e) ((regularDescent_descentTo _ d').constInt trivial)
  refine hconst.bind ?_
  rintro n _ rfl
  cases n with
  | none => exact .failWith _ line line'
  | some n =>
    dsimp only [id]
    split
    · exact .pure rfl
    · exact .failWith _ line line'

theorem resembles_addDimensions (mode : DeclaratorMode) (dims : List (Option ExprId)) (ty : Ty) :
    Resembles env id (addDimensions (descentTo d) mode line dims ty)
      (addDimensions (descentTo d') mode line' dims ty) := by
  induction dims generalizing ty with
  | nil => exact .pure rfl
  | cons dim dims ih =>
    unfold addDimensions
    split
    · exact ih _
    · exact ih _
    · refine (resembles_arrayLength hd line line' _).bind ?_
      rintro n _ rfl
      exact ih _

/-- A parameter without a declarator is on the line of the function. -/
theorem resembles_param (p : ParamDecl) :
    Resembles env DeclaratorInfo.lineless (param (descentTo d) line p) (param (descentTo d') line' p) := by
  have hdeep := descentTo_deepens hd
  have hregular := regularDescent_descentTo (.loose env) d'
  have hspec : Resembles env id ((descentTo d).spec p.spec) ((descentTo d').spec p.spec) :=
    .of_deepens (hdeep.spec p.spec) (hregular.spec trivial)
  refine hspec.bind ?_
  rintro base _ rfl
  cases p.declarator with
  | none => exact .pure rfl
  | some id => exact .of_deepens (deepens_declare hdeep .param id _) (hregular.declare .param _ trivial)

theorem resembles_params (ps : List ParamDecl) :
    Resembles env (List.map DeclaratorInfo.lineless) (params (descentTo d) ps line)
      (params (descentTo d') ps line') := by
  refine (resembles_each (resembles_param hd line line') ps).bind fun found found' hfound => ?_
  have hall : (found.mapM id).map (List.map DeclaratorInfo.lineless) =
      (found'.mapM id).map (List.map DeclaratorInfo.lineless) := by
    rw [← mapM_id_map, ← mapM_id_map, hfound]
  cases hps : found.mapM id <;> cases hps' : found'.mapM id <;> simp [hps, hps'] at hall
  · exact .of_deepens (.refl _) .fail
  · next ps ps' =>
    dsimp only
    have hvoid := find?_isVoid_of_lineless hall
    have hlength : ps.length = ps'.length := by simpa using congrArg List.length hall
    cases hnone : ps.find? (·.ty.isVoid) <;> cases hnone' : ps'.find? (·.ty.isVoid) <;>
      simp [hnone, hnone'] at hvoid
    · refine .pure ?_
      rw [← map_adjustParam_lineless, ← map_adjustParam_lineless, hall]
    · next nothing nothing' =>
      have hname : nothing.name = nothing'.name := congrArg (·.name) hvoid
      dsimp only
      rw [hname, hlength]
      split
      · exact .failWith _ _ _
      · split
        · exact .failWith _ _ _
        · exact .pure rfl

end Declarators

end Lower

end TreeFlow
