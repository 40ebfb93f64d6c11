import TreeFlow.Flow.Fold
import TreeFlow.Machine.Value

/-!
# Evaluating operations

Arithmetic, comparisons and conversions on run-time values. Arithmetic is that of the 128-bit
unit, and its outcome is then brought to the range of the type of the result.
-/

namespace TreeFlow

/-- An integer brought to the range of a type; `bool` only tells zero apart. -/
def Ty.fit (ty : Ty) (v : Int) : Int :=
  match ty with
  | .bool => if v = 0 then 0 else 1
  | ty => Signed.wrap (ty.bits?.getD 64) v

namespace BinOp

/-- The outcome of an operation on integers. A shift to the left takes the amount modulo 128, one
to the right takes amounts out of range to the nearer end. -/
def evalInt? (op : BinOp) (l r : Int) : Except RunError Int :=
  match op with
  | add => .ok (Signed.add l r)
  | sub => .ok (Signed.sub l r)
  | mul => .ok (Signed.mul l r)
  | sdiv => if r = 0 then .error .divisionByZero else .ok (Signed.div l r)
  | srem => if r = 0 then .error .divisionByZero else .ok (Signed.rem l r)
  | shl => .ok (Signed.shl l (r % 128).toNat)
  | ashr => .ok (Signed.ashr l (min r.toNat 127))
  | and => .ok (Signed.and l r)
  | or => .ok (Signed.or l r)
  | xor => .ok (Signed.xor l r)
  | fadd | fsub | fmul | fdiv | frem => .error (.notIntegerOperation op)

/-- The outcome of an operation whose result has the given type. -/
def eval (op : BinOp) (l r : RunValue) (ty : Ty) : Except RunError RunValue :=
  if op.isFloat then do
    let x ← l.float?
    let y ← r.float?
    match op.evalFloat? x y with
    | some z => return .float (ty.roundFloat z)
    | none => throw (.notFloatOperation op)
  else do
    let x ← l.int?
    let y ← r.int?
    return .int (ty.fit (← op.evalInt? x y))

end BinOp

/-- The outcome of a comparison. Pointers are compared by address. -/
def CmpOp.eval (op : CmpOp) (l r : RunValue) : Except RunError Bool :=
  match l, r with
  | .float x, .float y => .ok (op.evalFloat x y)
  | .pointer p, r => do return op.evalInt p.toNat (← r.address?).toNat
  | l, .pointer q => do return op.evalInt (← l.address?).toNat q.toNat
  | l, r => do return op.evalInt (← l.int?) (← r.int?)

/-- The outcome of a conversion from one type to another. -/
def CastOp.eval (op : CastOp) (v : RunValue) (source target : Ty) : Except RunError RunValue :=
  match op with
  | .trunc => do return .int (target.fit (← v.int?))
  | .sext => do
    let x ← v.int?
    return .int (target.fit (if source.isBool then -x else x))
  | .zext => do return .int (target.fit (Signed.unsigned (source.bits?.getD 64) (← v.int?)))
  | .fptosi => do return .int (target.fit (Binary64.toInt (← v.float?)))
  | .sitofp => do return .float (target.roundFloat (Binary64.ofInt (← v.int?)))
  | .fptrunc | .fpext => do return .float (target.roundFloat (← v.float?))
  | .ptrtoint => do return .int (target.fit (← v.address?).toNat)
  | .inttoptr => do return .pointer (.ofNat (Signed.word (← v.int?)))
  | .bitcast => .ok v

end TreeFlow
