import TreeFlow.Proofs.Lowering.Converting
import TreeFlow.Proofs.Ty.Sizes

/-!
# Sums and differences of pointers

A pointer and an integer add up to the pointer so many elements on: the integer becomes a word, turned round to
go back, and the machine takes it times the size of an element and adds it to the address, modulo the number of
addresses (`Lower.shifted`, `Lower.calculates_pointerOffset`). The difference of two pointers is found the other
way round. The addresses are read with a sign and subtracted as words, and what comes out is divided by the size
(`Lower.calculates_pointerDifference`). Where the number of bytes between the pointers fits in a word, none of
that loses anything.

So **each of the two undoes the other**: a pointer taken off the sum leaves the number
(`Lower.calculates_add_sub_pointer`), and the number taken off it leaves the pointer
(`Lower.calculates_add_sub_integer`). It does not matter which of the operands are constants, since every step
is told by what it calculates.
-/

namespace TreeFlow

open Machine

variable {p : Program} {f g h : Function} {c : BlockId} {m : Moment} {here : FuncId}

/-- The program has the layout that the unit is lowered for, and all the aggregates that there were. -/
structure Program.Suits (p : Program) (env : Lower.Env) (types : TypeTable) : Prop where
  layout : p.layout = env.config.layout
  types : types.Extends p.module.types

/-- A size that was known to the lowering is known to the machine. -/
theorem Program.Suits.sizeOf {env : Lower.Env} {types : TypeTable} {ty : Ty} {size : Nat}
    (h : p.Suits env types) (hsize : env.config.layout.sizeOf types ty = .ok size) :
    p.sizeOf ty = .ok size := by
  rw [Program.sizeOf, h.layout, Layout.sizeOf_of_extends h.types hsize]
  rfl

namespace Lower

variable {env : Env} {s : State} {ptr index l r : Value} {element : Ty} {size line : Nat}

/-! ### Which operation is chosen -/

theorem isPointer_of_isInteger {ty : Ty} (h : ty.isInteger = true) : ty.isPointer = false := by
  cases ty with
  | bool | int | bitField => rfl
  | _ => cases h

section Choice

variable (hptr : ptr.ty = .pointer element) (hindex : index.ty.isInteger = true)
include hptr hindex

theorem combine_add_eq (line : Nat) : combine .add ptr index line = pointerOffset ptr index false line := by
  simp only [combine, hptr, hindex]
  rfl

theorem combine_sub_eq (line : Nat) : combine .sub ptr index line = pointerOffset ptr index true line := by
  simp only [combine, hptr, hindex]
  rfl

/-- The operands of a sum may change places: the code is the same. -/
theorem combine_add_comm (line : Nat) : combine .add index ptr line = combine .add ptr index line := by
  rw [combine_add_eq hptr hindex, combine, hptr, hindex, isPointer_of_isInteger hindex]
  rfl

end Choice

theorem combine_difference_eq (hl : l.ty = .pointer element) (hr : r.ty = .pointer element) (line : Nat) :
    combine .sub l r line = pointerDifference l r line := by
  simp only [combine, hl, hr]
  rfl

/-! ### Sums -/

/-- The address so many elements on, or back. -/
def shifted (a : UInt64) (n : Int) (size : Nat) (back : Bool) : UInt64 :=
  a + .ofInt ((if back then -n else n) * size)

theorem shifted_on (a : UInt64) (n : Int) (size : Nat) : shifted a n size false = a + .ofInt (n * size) := rfl

/-- As far back as it was on leads to the same pointer again. -/
theorem shifted_back (a : UInt64) (n : Int) (size : Nat) :
    shifted (shifted a n size false) n size true = a := by
  show a + .ofInt (n * size) + .ofInt (-n * size) = a
  rw [Int.neg_mul, UInt64.ofInt_neg, UInt64.add_assoc, UInt64.add_right_neg, UInt64.add_zero]

/-- A pointer is moved by a number of elements that has the width of a pointer. -/
def shift (ptr : Value) (back : Bool) (line : Nat) (count : Operand) : Lower Value :=
  let move index := do return .ofOperand (← emit line (Build.offset ptr.op index ptr.ty)) ptr.ty
  if back then emit line (Build.binary .sub (.const (.ofInt 0 64)) count .long) >>= move else move count

theorem pointerOffset_eq (ptr index : Value) (back : Bool) (line : Nat) :
    pointerOffset ptr index back line = convert index .long line >>= shift ptr back line := by
  cases back <;> rfl

/-- What is meant by a pointer that is moved. -/
def shiftMeans (ptr : Value) (back : Bool) (count : Operand) : Meaning := fun p _ m v =>
  ∃ element size a n, ptr.ty.pointee? = some element ∧ p.sizeOf element = .ok size ∧
    m.value? p ptr.op = .ok (.pointer a) ∧ m.value? p count = .ok (.int n) ∧
    v = .pointer (shifted a n size back)

/-- The number of elements is turned round to go back. -/
theorem calculates_shift (hs : s.builder.At here g c) (hop : g.Offers ptr.op) (back : Bool) (line : Nat)
    (count : Operand) : Calculates (shift ptr back line count) (Value.ofOperand · ptr.ty) env s here g c
      (shiftMeans ptr back count) := by
  cases back with
  | false =>
    refine ((calculates_offset hs hop count ptr.ty).map _).imp fun p f m v hv => ?_
    obtain ⟨element, size, a, n, hty, hsize, ha, hn, rfl⟩ := hv
    exact ⟨element, size, a, n, hty, hsize, ha, hn, rfl⟩
  | true =>
    refine .bind (fun index => offsetMeans ptr.op index ptr.ty) (calculates_binary hs .sub _ count .long)
      (fun index b h hcalc =>
        (calculates_offset hcalc.stop (hcalc.precedes.offers hop) index ptr.ty).map _)
      fun index p f m v hv => ?_
    obtain ⟨element, size, a, n, hty, hsize, ha, hn, rfl⟩ := hv
    -- The least word is its own negative as a word. That is off by the number of words, which addresses do
    -- not tell apart.
    have hnegate : BinOp.eval .sub (.int 0) (.int n) .long = .ok (.int ((-n).bmod (Signed.span 64))) := by
      rw [BinOp.eval_int rfl rfl, Signed.sub, Signed.long_fit_wrapUnit, Int.zero_sub]
    refine ⟨_, ⟨.int 0, .int n, rfl, hn, hnegate⟩, fun m' _ hkept hindex =>
      ⟨element, size, a, _, hty, hsize, (hkept _ hop).trans ha, hindex, ?_⟩⟩
    rw [ofInt_bmod_mul]
    rfl

/-- What is meant by a result that a pointer and a number of elements have. The program lays out types as they
were lowered, and the number of bytes fits in a word. -/
def arithmeticMeans (env : Env) (types : TypeTable) (ptr index : Value) (size : Nat)
    (result : UInt64 → Int → RunValue) : Meaning := fun p f m v =>
  ∃ a n, p.Suits env types ∧ m.value? p ptr.op = .ok (.pointer a) ∧ index.IsInt p f m n ∧
    Signed.InRange 64 (n * size) ∧ v = result a n

/-- The pointer some elements on, or back. -/
theorem calculates_pointerOffset (hs : s.builder.At here g c) (hptr : ptr.ty = .pointer element)
    (hsize : env.config.layout.sizeOf s.builder.mod.types element = .ok size) (hpos : 1 ≤ size)
    (hop : g.Offers ptr.op) (hindex : index.ty.isInteger = true) (hop' : g.Offers index.op) (back : Bool)
    (line : Nat) : Calculates (pointerOffset ptr index back line) (Value.ofOperand · ptr.ty) env s here g c
      (arithmeticMeans env s.builder.mod.types ptr index size fun a n => .pointer (shifted a n size back)) := by
  rw [pointerOffset_eq]
  refine .bind (shiftMeans ptr back) (calculates_convert hs hop' hindex rfl)
    (fun count b h hcalc => calculates_shift hcalc.stop (hcalc.precedes.offers hop) back line count)
    fun count p f m v hv => ?_
  obtain ⟨a, n, hsuits, ha, hn, hrange, rfl⟩ := hv
  -- Elements are not empty, so the number fits in a word because the number of bytes does.
  have hfit : Ty.long.fit n = n := Signed.long_fit_eq_self (hrange.of_mul hpos)
  refine ⟨.int n, ⟨n, hn, fun _ _ => hfit, by rw [hfit]⟩, fun m' _ hkept hcount =>
    ⟨element, size, a, n, hptr ▸ rfl, hsuits.sizeOf hsize, (hkept _ hop).trans ha, hcount, rfl⟩⟩

/-! ### Differences -/

theorem elementSize_eq {ty : Ty} (hsize : env.config.layout.sizeOf s.builder.mod.types ty = .ok size)
    (hpos : 1 ≤ size) (line : Nat) : elementSize ty line env s = (.done size, s) := by
  have hmax : max size 1 = size := Nat.max_eq_left hpos
  have henv : Lower.env env s = (.done env, s) := rfl
  have htypes : types env s = (.done s.builder.mod.types, s) := rfl
  rw [elementSize, bind_run henv, bind_run htypes, hsize]
  exact congrArg (fun n => (Outcome.done n, s)) hmax

/-- The number of elements that some bytes are. -/
def countOf (size line : Nat) (bytes : Operand) : Lower Value := do
  if size = 1 then return .ofOperand bytes .long
  else return .ofOperand (← emit line (Build.binary .sdiv bytes (.const (.ofInt size 64)) .long)) .long

theorem pointerDifference_eq (l r : Value) (line : Nat) : pointerDifference l r line =
    elementSize (l.ty.pointee?.getD .char) line >>= fun size =>
      emit line (Build.cast .ptrtoint l.op .long) >>= fun lo =>
        emit line (Build.cast .ptrtoint r.op .long) >>= fun ro =>
          emit line (Build.binary .sub lo ro .long) >>= countOf size line := rfl

/-- What is meant by a number of elements, where the number of bytes is an operand. -/
def countMeans (size : Nat) (bytes : Operand) : Meaning := fun p _ m v =>
  ∃ n : Int, m.value? p bytes = .ok (.int (n * size)) ∧ Signed.InRange 64 (n * size) ∧ v = .int n

theorem calculates_countOf (hs : s.builder.At here g c) (hpos : 1 ≤ size) (hlt : size < 2 ^ 63)
    {bytes : Operand} (hop : g.Offers bytes) (line : Nat) :
    Calculates (countOf size line bytes) (Value.ofOperand · .long) env s here g c (countMeans size bytes) := by
  by_cases hone : size = 1
  · rw [countOf, if_pos hone]
    refine .pure rfl hs hop fun p f m v hv => ?_
    obtain ⟨n, hn, -, rfl⟩ := hv
    rw [hn, hone, Int.natCast_one, Int.mul_one]
  · rw [countOf, if_neg hone]
    refine ((calculates_binary hs .sdiv bytes (.const (.ofInt size 64)) .long).map _).imp fun p f m v hv => ?_
    obtain ⟨n, hn, hrange, rfl⟩ := hv
    have hword : Signed.wrap 64 size = size := Signed.wrap_eq_self (by decide) (by constructor <;> omega)
    refine ⟨_, .int size, hn, congrArg (fun x => Except.ok (RunValue.int x)) hword, ?_⟩
    have hdiv : BinOp.sdiv.evalInt? (n * size) size = .ok (Signed.div (n * size) size) := if_neg (by omega)
    rw [BinOp.eval_int rfl hdiv, Signed.fit_div_eq hpos hrange]

/-- An address that is read with a sign. -/
def signedAddress (a : UInt64) : RunValue := .int (Ty.long.fit a.toNat)

theorem eval_ptrtoint (a : UInt64) (source : Ty) :
    CastOp.eval .ptrtoint (.pointer a) source .long = .ok (signedAddress a) := rfl

/-- What is meant by the number of elements between two addresses, which the operands tell each in a way. -/
def apartMeans (l r : Operand) (left right : UInt64 → RunValue) (size : Nat) : Meaning := fun p _ m v =>
  ∃ a n, m.value? p l = .ok (left (shifted a n size false)) ∧ m.value? p r = .ok (right a) ∧
    Signed.InRange 64 (n * size) ∧ v = .int n

/-- The number of elements between two pointers. The addresses are taken one after the other, and what has been
taken keeps its value meanwhile. -/
theorem calculates_pointerDifference (hs : s.builder.At here g c) (hl : l.ty = .pointer element)
    (hsize : env.config.layout.sizeOf s.builder.mod.types element = .ok size) (hpos : 1 ≤ size)
    (hlt : size < 2 ^ 63) (hop : g.Offers r.op) (line : Nat) :
    Calculates (pointerDifference l r line) (Value.ofOperand · .long) env s here g c
      (apartMeans l.op r.op .pointer .pointer size) := by
  have helement : l.ty.pointee?.getD .char = element := by rw [hl]; rfl
  rw [pointerDifference_eq, helement]
  refine .bind_done (elementSize_eq hsize hpos line) ?_
  refine .bind (apartMeans · r.op signedAddress .pointer size) (calculates_cast hs (by decide) l.op .long)
    (fun lo b₁ g₁ hlo => ?_) fun lo p f m v hv => ?_
  · refine .bind (apartMeans lo · signedAddress signedAddress size)
      (calculates_cast hlo.stop (by decide) r.op .long) (fun ro b₂ g₂ hro => ?_) fun ro p f m v hv => ?_
    · -- The sign that the addresses are read with makes no difference to their distance as a word.
      refine .bind (countMeans size) (calculates_binary hro.stop .sub lo ro .long)
        (fun bytes b₃ g₃ hbytes => calculates_countOf hbytes.stop hpos hlt hbytes.offers line)
        fun bytes p f m v hv => ?_
      obtain ⟨a, n, hlo, hro, hrange, rfl⟩ := hv
      refine ⟨.int (n * size), ⟨_, _, hlo, hro, ?_⟩, fun m' _ _ hbytes => ⟨n, hbytes, hrange, rfl⟩⟩
      rw [signedAddress, signedAddress, shifted_on, BinOp.eval_int rfl rfl, Signed.distance_eq hrange]
    · obtain ⟨a, n, hlo', hr, hrange, rfl⟩ := hv
      refine ⟨_, ⟨_, hr, CastOp.noConfusion, eval_ptrtoint a _⟩, fun m' _ hkept hro => ?_⟩
      exact ⟨a, n, (hkept lo hlo.offers).trans hlo', hro, hrange, rfl⟩
  · obtain ⟨a, n, hl, hr, hrange, rfl⟩ := hv
    refine ⟨_, ⟨_, hl, CastOp.noConfusion, eval_ptrtoint _ _⟩, fun m' _ hkept hlo => ?_⟩
    exact ⟨a, n, hlo, (hkept r.op hop).trans hr, hrange, rfl⟩

/-! ### There and back -/

section Identities

variable (hs : s.builder.At here g c) (hptr : ptr.ty = .pointer element)
  (hsize : env.config.layout.sizeOf s.builder.mod.types element = .ok size) (hpos : 1 ≤ size)
  (hop : g.Offers ptr.op) (hindex : index.ty.isInteger = true) (hop' : g.Offers index.op)
include hs hptr hsize hpos hop hindex hop'

/-- A pointer taken off the sum leaves the number. -/
theorem calculates_add_sub_pointer (hlt : size < 2 ^ 63) (line₁ line₂ : Nat) :
    Calculates (combine .add ptr index line₁ >>= fun sum => combine .sub sum ptr line₂)
      (Value.ofOperand · .long) env s here g c
      (arithmeticMeans env s.builder.mod.types ptr index size fun _ n => .int n) := by
  rw [combine_add_eq hptr hindex]
  refine .bind (apartMeans · ptr.op .pointer .pointer size)
    (calculates_pointerOffset hs hptr hsize hpos hop hindex hop' false line₁)
    (fun sum b h hcalc => ?_) fun sum p f m v hv => ?_
  · have hsum : (Value.ofOperand sum ptr.ty).ty = .pointer element := hptr
    rw [combine_difference_eq hsum hptr]
    rw [← hcalc.types] at hsize
    exact calculates_pointerDifference (s := { s with builder := b }) hcalc.stop hsum hsize hpos hlt
      (hcalc.precedes.offers hop) line₂
  · obtain ⟨a, n, hsuits, ha, hn, hrange, rfl⟩ := hv
    exact ⟨.pointer (shifted a n size false), ⟨a, n, hsuits, ha, hn, hrange, rfl⟩,
      fun m' _ hkept hsum => ⟨a, n, hsum, (hkept _ hop).trans ha, hrange, rfl⟩⟩

/-- The number taken off the sum leaves the pointer. -/
theorem calculates_add_sub_integer (line₁ line₂ : Nat) :
    Calculates (combine .add ptr index line₁ >>= fun sum => combine .sub sum index line₂)
      (Value.ofOperand · ptr.ty) env s here g c
      (arithmeticMeans env s.builder.mod.types ptr index size fun a _ => .pointer a) := by
  rw [combine_add_eq hptr hindex]
  refine .bind (fun sum => arithmeticMeans env s.builder.mod.types (.ofOperand sum ptr.ty) index size
      fun a n => .pointer (shifted a n size true))
    (calculates_pointerOffset hs hptr hsize hpos hop hindex hop' false line₁)
    (fun sum b h hcalc => ?_) fun sum p f m v hv => ?_
  · have hsum : (Value.ofOperand sum ptr.ty).ty = .pointer element := hptr
    rw [← hcalc.types] at hsize ⊢
    rw [combine_sub_eq hsum hindex]
    exact calculates_pointerOffset (s := { s with builder := b }) hcalc.stop hsum hsize hpos hcalc.offers hindex
      (hcalc.precedes.offers hop') true line₂
  · obtain ⟨a, n, hsuits, ha, hn, hrange, rfl⟩ := hv
    refine ⟨.pointer (shifted a n size false), ⟨a, n, hsuits, ha, hn, hrange, rfl⟩, fun m' _ hkept hsum => ?_⟩
    exact ⟨_, n, hsuits, hsum, hn.of_kept (hkept _ hop'), hrange,
      (congrArg RunValue.pointer (shifted_back a n size)).symm⟩

end Identities

end Lower

end TreeFlow
