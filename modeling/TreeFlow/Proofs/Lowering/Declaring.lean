import Mathlib.Algebra.Ring.Int.Defs
import TreeFlow.Proofs.Lowering.Draining
import TreeFlow.Proofs.Lowering.Written

/-!
# The types that declarators come to

The length of an array is the number that its dimension comes to, if this number fits into 64 bits; a larger
one is cut (`dimensioned_of_addDimensions`), and everything else is reported
(`addDimensions_failed`).

The type of a parameter is adjusted. Functions and `void` are looked for when the type is complete, wherever it
comes from. But dimensions become pointers only where they are added, so an array that comes ready-made from a
specifier stays one (`params_adjusted`, `params_of_array`).
-/

namespace TreeFlow

theorem Signed.word_of_lt {n : Int} (hn : 0 ≤ n) (h : n < 2 ^ 64) : (Signed.word n : Int) = n := by
  rw [word, Int.toNat_of_nonneg (Int.emod_nonneg _ (by decide))]
  exact Int.emod_eq_of_lt hn h

namespace Lower

variable {α β : Type} {env : Env} {sub : Descent} {mode : DeclaratorMode} {line : Nat}

/-! ### Dimensions -/

/-- A type with dimensions added, the one nearest to the element first: an array of some length for each that
is given, and a pointer for each that is left out. -/
inductive Dimensioned (IsLength : ExprId → Nat → Prop) : List (Option ExprId) → Ty → Ty → Prop
  | nil {ty : Ty} : Dimensioned IsLength [] ty ty
  | leftOut {dims : List (Option ExprId)} {ty out : Ty} (h : Dimensioned IsLength dims ty.pointerTo out) :
      Dimensioned IsLength (none :: dims) ty out
  | given {e : ExprId} {length : Nat} {dims : List (Option ExprId)} {ty out : Ty} (hlength : IsLength e length)
      (h : Dimensioned IsLength dims (.array ty length) out) : Dimensioned IsLength (some e :: dims) ty out

/-- A dimension comes to a number that is not negative, of which the length has the low 64 bits. -/
def LengthOf (env : Env) (sub : Descent) (e : ExprId) (length : Nat) : Prop :=
  ∃ n : Int, Produces env (sub.constInt e) (some n) ∧ 0 ≤ n ∧ (n < 2 ^ 64 → length = n) ∧ length = Signed.word n

theorem lengthOf_of_arrayLength {e : ExprId} {length : Nat} (h : Produces env (arrayLength sub e line) length) :
    LengthOf env sub e length := by
  obtain ⟨n, hn, h⟩ := h.of_bind
  cases n with
  | none => exact absurd h Produces.not_failWith
  | some n =>
    dsimp only at h
    split at h
    · next hpos =>
      obtain rfl := h.of_pure
      exact ⟨n, hn, hpos, Signed.word_of_lt hpos, rfl⟩
    · exact absurd h Produces.not_failWith

/-- Where dimensions are added, there is an array for each one that is given, in the order in which they are
written. -/
theorem dimensioned_of_addDimensions (hmode : mode ≠ .param) {dims : List (Option ExprId)} {ty out : Ty}
    (h : Produces env (addDimensions sub mode line dims ty) out) : Dimensioned (LengthOf env sub) dims ty out := by
  induction dims generalizing ty with
  | nil =>
    obtain rfl := h.of_pure
    exact .nil
  | cons dim dims ih =>
    unfold addDimensions at h
    split at h
    · exact absurd rfl hmode
    · exact .leftOut (ih h)
    · obtain ⟨length, hlength, h⟩ := h.of_bind
      exact .given (lengthOf_of_arrayLength hlength) (ih h)

theorem neverFails_constInt (e : ExprId) : NeverFails (sub.constInt e) := by
  have hpure : ∀ n : Option Int, NeverFails (pure n) := fun _ _ _ => nofun
  exact fun env s => NeverFails.bind (.attempt (sub.rvalue e)) (fun _ => hpure _) env
    { s with builder := s.builder.snapshot.2 }

theorem arrayLength_failed {e : ExprId} {s t : State} (h : arrayLength sub e line env s = (.failed, t)) :
    ∃ u, t = (report .nonConstantArraySize line env u).2 := by
  rcases bind_eq_failed h with hconst | ⟨n, u, -, h⟩
  · exact absurd (congrArg Prod.fst hconst) (neverFails_constInt e env s)
  · refine ⟨u, ?_⟩
    cases n with
    | none => exact (congrArg Prod.snd h).symm
    | some n =>
      dsimp only at h
      split at h
      · cases h
      · exact (congrArg Prod.snd h).symm

/-- Where dimensions cannot be added, this is reported, and nothing is done any more. -/
theorem addDimensions_failed {dims : List (Option ExprId)} {ty : Ty} {s t : State}
    (h : addDimensions sub mode line dims ty env s = (.failed, t)) :
    ∃ u, t = (report .nonConstantArraySize line env u).2 := by
  induction dims generalizing ty s with
  | nil => cases h
  | cons dim dims ih =>
    unfold addDimensions at h
    split at h
    · exact ih h
    · exact ih h
    · rcases bind_eq_failed h with hlength | ⟨length, u, -, h⟩
      · exact arrayLength_failed hlength
      · exact ih h

/-! ### Parameters -/

theorem isPointer_pointers {ty : Ty} (n : Nat) (h : ty.isPointer) : (ty.pointers n).isPointer := by
  induction n generalizing ty with
  | zero => exact h
  | succ n ih => exact ih (by cases ty <;> rfl)

/-- A pointer is no array. -/
theorem pointers_eq_of_isArray {ty : Ty} {n : Nat} (h : (ty.pointers n).isArray) : ty.pointers n = ty := by
  cases n with
  | zero => rfl
  | succ n =>
    have hpointer : (ty.pointers (n + 1)).isPointer := isPointer_pointers n (by cases ty <;> rfl)
    cases hty : ty.pointers (n + 1) <;> simp_all [Ty.isArray, Ty.isPointer]

/-- In a parameter every dimension makes a pointer. -/
theorem addDimensions_param {dims : List (Option ExprId)} {ty out : Ty}
    (h : Produces env (addDimensions sub .param line dims ty) out) : out = ty.pointers dims.length := by
  induction dims generalizing ty with
  | nil => exact h.of_pure.symm
  | cons dim dims ih => exact ih h

/-- If a parameter is an array, then what its declarator was applied to is that array. -/
theorem isArray_link_param {d : Nat} {id : DeclaratorId} {info out : DeclaratorInfo}
    (h : Produces env ((descentTo d).link .param id info) out) (hout : out.ty.isArray) : out.ty = info.ty := by
  induction d generalizing id info with
  | zero => exact absurd h Produces.not_halt
  | succ d ih =>
    obtain ⟨node, -, h⟩ := h.of_bind
    dsimp only at h
    split at h
    · rw [← h.of_pure]
    · rw [← h.of_pure]
    · have heq : out.ty = info.ty.pointers _ := ih h
      exact heq.trans (pointers_eq_of_isArray (heq ▸ hout))
    · obtain ⟨ty, hty, h⟩ := h.of_bind
      have heq : out.ty = ty := ih h
      rw [addDimensions_param hty] at heq
      exact heq.trans (pointers_eq_of_isArray (heq ▸ hout))
    · obtain ⟨ps, -, h⟩ := h.of_bind
      have heq : out.ty = .function info.ty _ _ := ih h
      rw [heq] at hout
      exact absurd hout Bool.false_ne_true
    · next inner value _ =>
      have heq : out.ty = ({ info with init := some value } : DeclaratorInfo).ty := ih h
      exact heq

theorem produces_of_each {step : α → Lower β} {items : List α} {found : List (Option β)} {b : β}
    (h : Produces env (each step items) found) (hb : some b ∈ found) : ∃ a ∈ items, Produces env (step a) b := by
  induction items generalizing found with
  | nil =>
    obtain rfl := h.of_pure
    exact absurd hb List.not_mem_nil
  | cons a rest ih =>
    obtain ⟨o, hstep, h⟩ := h.of_bind
    obtain ⟨others, hrest, h⟩ := h.of_bind
    obtain rfl := h.of_pure
    rcases List.mem_cons.1 hb with rfl | hb
    · obtain ⟨s, t, hstep⟩ := hstep
      exact ⟨a, List.mem_cons_self, s, t, of_attempt_some hstep⟩
    · obtain ⟨a', ha', hb⟩ := ih hrest hb
      exact ⟨a', List.mem_cons_of_mem _ ha', hb⟩

theorem spec_of_isArray_param {d : Nat} {decl : ParamDecl} {p : DeclaratorInfo}
    (h : Produces env (param (descentTo d) line decl) p) (hp : p.ty.isArray) :
    Produces env ((descentTo d).spec decl.spec) p.ty := by
  obtain ⟨base, hbase, h⟩ := h.of_bind
  split at h
  · obtain ⟨node, -, h⟩ := h.of_bind
    obtain ⟨info, hlink, h⟩ := h.of_bind
    split at h
    · exact absurd h Produces.not_failWith
    · obtain rfl := h.of_pure
      rwa [isArray_link_param hlink hp]
  · obtain rfl := h.of_pure
    exact hbase

/-- **Parameters have no function type and are not void; one of array type has the type of its specifier.** -/
theorem params_adjusted {d : Nat} {ps : List ParamDecl} {found : List DeclaratorInfo} {p : DeclaratorInfo}
    (h : Produces env (params (descentTo d) ps line) found) (hp : p ∈ found) :
    ¬p.ty.isFunction ∧ ¬p.ty.isVoid ∧
      (p.ty.isArray → ∃ decl ∈ ps, Produces env ((descentTo d).spec decl.spec) p.ty) := by
  obtain ⟨items, hitems, h⟩ := h.of_bind
  split at h
  · obtain ⟨s, t, h⟩ := h
    cases h
  · next all hall =>
    split at h
    · next hvoid =>
      obtain rfl := h.of_pure
      obtain ⟨info, hinfo, rfl⟩ := List.mem_map.1 hp
      have hsome : some info ∈ items := mapM_id_eq_some_iff.1 hall ▸ List.mem_map_of_mem hinfo
      obtain ⟨decl, hdecl, hparam⟩ := produces_of_each hitems hsome
      have hnotVoid : ¬info.ty.isVoid := by simpa using List.find?_eq_none.1 hvoid info hinfo
      unfold adjustParam
      split
      · next hfunction =>
        cases hty : info.ty <;> simp_all [Ty.isFunction, Ty.pointerTo, Ty.isVoid, Ty.isArray]
      · next hfunction =>
        exact ⟨hfunction, hnotVoid, fun harray => ⟨decl, hdecl, spec_of_isArray_param hparam harray⟩⟩
    · split at h
      · exact absurd h Produces.not_failWith
      · split at h
        · exact absurd h Produces.not_failWith
        · obtain rfl := h.of_pure
          exact absurd hp List.not_mem_nil

/-- An array that a specifier comes to is the type of a parameter. -/
theorem params_of_array {spec : SpecId} {element : Ty} {n : Nat} {s t : State}
    (h : sub.spec spec env s = (.done (.array element n), t)) :
    params sub [⟨spec, none⟩] line env s = (.done [{ ty := .array element n, line }], t) := by
  have hparam : param sub line ⟨spec, none⟩ env s = (.done { ty := .array element n, line }, t) := bind_run h
  have htried : attempt (param sub line ⟨spec, none⟩) env s =
      (.done (some { ty := .array element n, line }), t) := by
    unfold attempt
    rw [hparam]
  have heach : each (param sub line) [⟨spec, none⟩] env s =
      (.done [some { ty := .array element n, line }], t) := bind_run htried
  exact bind_run heach

end Lower

end TreeFlow
