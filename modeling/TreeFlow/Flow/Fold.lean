import TreeFlow.Flow.Basic
import TreeFlow.Number.Binary64

/-!
# Folding constants

An operation on constants is carried out while the graph is built whenever its outcome is known.
What has no outcome is left to run: a division by zero, a shift by an amount out of range, an
operand of the wrong kind, an address that is not known yet.
-/

namespace TreeFlow

/-- A float brought to the precision of a type. -/
def Ty.roundFloat : Ty → Float → Float
  | .float, x => Binary64.toSingle x
  | _, x => x

namespace BinOp

/-- The outcome of an operation on floats. -/
def evalFloat? (op : BinOp) (l r : Float) : Option Float :=
  match op with
  | fadd => some (l + r)
  | fsub => some (l - r)
  | fmul => some (l * r)
  | fdiv => some (l / r)
  | frem => some (Binary64.rem l r)
  | _ => none

/-- The outcome of an operation on integers in the 128-bit unit, where it is known while the
graph is built. -/
def foldInt? (op : BinOp) (l r : Int) : Option Int :=
  match op with
  | add => some (Signed.add l r)
  | sub => some (Signed.sub l r)
  | mul => some (Signed.mul l r)
  | sdiv => if r = 0 then none else some (Signed.div l r)
  | srem => if r = 0 then none else some (Signed.rem l r)
  | shl => if 0 ≤ r ∧ r < 128 then some (Signed.shl l r.toNat) else none
  | ashr => if 0 ≤ r ∧ r < 128 then some (Signed.ashr l r.toNat) else none
  | and => some (Signed.and l r)
  | or => some (Signed.or l r)
  | xor => some (Signed.xor l r)
  | fadd | fsub | fmul | fdiv | frem => none

end BinOp

namespace Constant

/-- A floating point constant of a type, rounded to its precision. -/
def ofFloat? (x : Float) : Ty → Option Constant
  | .float => some (.float (Binary64.toSingle x))
  | .double => some (.double x)
  | _ => none

/-- The constant that an arithmetic operation comes to. -/
def foldBinary? (op : BinOp) (l r : Constant) (ty : Ty) : Option Constant :=
  if op.isFloat then do
    let x ← op.evalFloat? (← l.float?) (← r.float?)
    return match ty with
      | .float => .float (Binary64.toSingle x)
      | _ => .double x
  else do
    return integral (← op.foldInt? (← l.int?) (← r.int?)) ty

/-- The truth value that a comparison comes to. -/
def foldCmp? (op : CmpOp) (l r : Constant) : Option Constant :=
  if op.isFloat then do
    return ofBool (op.evalFloat (← l.float?) (← r.float?))
  else
    match l, r with
    | null _, null _ => some (ofBool (op.evalInt 0 0))
    | l, r => do return ofBool (op.evalInt (← l.int?) (← r.int?))

/-- The constant that a conversion comes to. -/
def foldCast? (op : CastOp) (c : Constant) (target : Ty) : Option Constant :=
  match op with
  | .trunc | .sext => do return integral (← c.int?) target
  | .zext => do
    let bits ← c.ty.bits?
    return integral (Signed.unsigned bits (← c.int?)) target
  | .sitofp => do ofFloat? (Binary64.ofInt (← c.int?)) target
  | .fptosi => do return integral (Binary64.toInt (← c.float?)) target
  | .fpext | .fptrunc => do ofFloat? (← c.float?) target
  | .inttoptr => do if (← c.int?) = 0 then return null target else failure
  | .ptrtoint =>
    match c with
    | null _ => some (integral 0 target)
    | _ => none
  | .bitcast =>
    match c with
    | null _ => some (null target)
    | global id _ => some (global id target)
    | function id _ => some (function id target)
    | undef _ => some (undef target)
    | _ => none

end Constant

end TreeFlow
