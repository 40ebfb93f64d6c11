import TreeFlow.Lower.Basic
import TreeFlow.Lower.Value

/-!
# Conversions

Every conversion, implicit or written, goes through `Lower.convert`, which picks the cast for a
pair of types. So assignments, arguments, results and casts agree on what is allowed. Where there
is no conversion it fails without a diagnostic, and the caller reports the problem in its own
terms.
-/

namespace TreeFlow

/-- The type that two arithmetic operands are brought to: the float of higher precision, or else
the integer of greater width. -/
def Ty.common? (l r : Ty) : Option Ty :=
  if l = r then some l
  else
    match l.floatRank?, r.floatRank? with
    | some a, some b => some (if b ≤ a then l else r)
    | some _, none => if r.isInteger then some l else none
    | none, some _ => if l.isInteger then some r else none
    | none, none => do
      let a ← l.bits?
      let b ← r.bits?
      if b < a then return l
      else if a < b then return r
      else
        match l with
        | .int _ => return l
        | _ => return r

namespace Lower

/-- The diagnostic for two types that do not fit. -/
def mismatch (l r : Ty) : DiagnosticKind := .incompatibleTypes l.text r.text

/-! ### Operands -/

/-- Turns what an expression was lowered to into a value: storage is loaded, an array becomes a
pointer to its first element and a function a pointer to it. Aggregates stay in memory. -/
def toRvalue (v : Value) (line : Nat) : Lower Value :=
  match v.form with
  | .function => pure { v with form := .value, ty := v.ty.pointerTo }
  | .value => pure v
  | .storage =>
    match v.ty with
    | .struct _ | .union _ => pure v
    | .array element _ => do
      let ty := element.pointerTo
      return { v with op := ← emit line (Build.cast .bitcast v.op ty), ty, form := .value }
    | .void => pure { v with op := .const (.undef .void), form := .value }
    | ty => do return { v with op := ← emit line (Build.load v.op ty), form := .value }

/-- The operand that passes a value on; an aggregate is loaded from memory. -/
def loadAggregate (v : Value) (line : Nat) : Lower Operand :=
  if v.isStorage && v.ty.isAggregate then emit line (Build.load v.op v.ty) else pure v.op

/-- What a scalar is compared with to test it for truth. -/
def zeroOf? : Ty → Option Constant
  | .float => some (.float 0)
  | .double => some (.double 0)
  | .pointer t => some (.null (.pointer t))
  | ty => if ty.isInteger then some (.integral 0 ty) else none

/-- Tests a scalar for truth. -/
def toBool (v : Value) (line : Nat) : Lower Operand :=
  if v.ty.isBool then pure v.op
  else
    match zeroOf? v.ty with
    | none => failWith (.incompatibleTypes v.ty.text "bool") line
    | some zero =>
      emit line (Build.cmp (if v.ty.isFloat then .one else .ne) v.op zero)

/-! ### Conversions -/

/-- How an operand of one type becomes one of another. -/
inductive Conversion where
  /-- The same bits serve. -/
  | keep
  | cast (op : CastOp)
  /-- Truth values are first widened to an integer type. -/
  | castFrom (ty : Ty) (op : CastOp)
  deriving DecidableEq, Repr

/-- How to convert between two types that differ. A test for truth is not among these. -/
def conversion? (source target : Ty) : Option Conversion :=
  if source.isInteger && target.isInteger then do
    let a ← source.bits?
    let b ← target.bits?
    if a < b then return .cast (if source.isBool then .zext else .sext)
    else if b < a then return .cast .trunc
    else return .keep
  else if source.isInteger && target.isFloat then
    some (if source.isBool then .castFrom .word .sitofp else .cast .sitofp)
  else if source.isFloat && target.isInteger then some (.cast .fptosi)
  else
    match source, target with
    | .float, .double => some (.cast .fpext)
    | .double, .float => some (.cast .fptrunc)
    | .pointer _, .pointer _ => some (.cast .bitcast)
    | s, .pointer _ =>
      if s.isInteger then
        some (if s.isBool then .castFrom .long .inttoptr else .cast .inttoptr)
      else none
    | .pointer _, t => if t.isInteger then some (.cast .ptrtoint) else none
    | _, _ => none

/-- Carries out a conversion. -/
def applyConversion (c : Conversion) (op : Operand) (target : Ty) (line : Nat) : Lower Operand :=
  match c with
  | .keep => pure op
  | .cast cast => emit line (Build.cast cast op target)
  | .castFrom ty cast => do
    let wide ← emit line (Build.cast .zext op ty)
    emit line (Build.cast cast wide target)

/-- Converts a value; fails without a diagnostic where there is no conversion. -/
def convert (v : Value) (target : Ty) (line : Nat) : Lower Operand :=
  if v.ty = target then pure v.op
  else if v.ty.isAggregate || target.isAggregate || target.isArray || target.isFunction then fail
  else if target.isBool && v.ty.isScalar then toBool v line
  else
    match conversion? v.ty target with
    | some c => applyConversion c v.op target line
    | none => fail

/-- Converts a value, and reports types that do not fit. -/
def convertOrReport (v : Value) (target : Ty) (line : Nat) : Lower Operand := do
  match ← attempt (convert v target line) with
  | some op => return op
  | none => failWith (mismatch v.ty target) line

/-- Brings two arithmetic operands to a common type. -/
def promote (l r : Value) (line : Nat) : Lower (Operand × Operand × Ty) := do
  match l.ty.common? r.ty with
  | none => fail
  | some ty =>
    let lo ← convert l ty line
    let ro ← convert r ty line
    return (lo, ro, ty)

end Lower

end TreeFlow
