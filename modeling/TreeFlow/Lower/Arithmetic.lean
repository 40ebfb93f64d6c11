import TreeFlow.Lower.Descent

/-!
# Operators

Operators with one or two operands. Arithmetic brings its operands to a common type first.
A pointer and an integer add up to a pointer so many elements on, and two pointers differ by a
number of elements; in any other arithmetic a pointer counts as its address. The right operand of
a logical operator is lowered into a block of its own, entered only when the left one does not
decide.
-/

namespace TreeFlow

/-- The instruction of a comparison. -/
def BinaryOp.cmp? (op : BinaryOp) (float : Bool) : Option CmpOp :=
  match op with
  | .eq => some (if float then .oeq else .eq)
  | .ne => some (if float then .one else .ne)
  | .lt => some (if float then .olt else .slt)
  | .le => some (if float then .ole else .sle)
  | .gt => some (if float then .ogt else .sgt)
  | .ge => some (if float then .oge else .sge)
  | _ => none

/-- The instruction of an arithmetic operator. -/
def BinaryOp.bin? (op : BinaryOp) (float : Bool) : Except DiagnosticKind BinOp :=
  match op with
  | .add => .ok (if float then .fadd else .add)
  | .sub => .ok (if float then .fsub else .sub)
  | .mul => .ok (if float then .fmul else .mul)
  | .div => .ok (if float then .fdiv else .sdiv)
  | .mod => .ok (if float then .frem else .srem)
  | .shl => if float then .error .fpValueWithShiftOperation else .ok .shl
  | .shr => if float then .error .fpValueWithShiftOperation else .ok .ashr
  | .bitAnd => if float then .error .unknownBinaryOperation else .ok .and
  | .bitOr => if float then .error .unknownBinaryOperation else .ok .or
  | .bitXor => if float then .error .unknownBinaryOperation else .ok .xor
  | _ => .error .unknownBinaryOperation

/-- A constant of a floating point type. -/
def Constant.floating (x : Float) : Ty → Constant
  | .float => .float x
  | _ => .double x

/-- What is wrong when a size is needed and there is none. -/
def LayoutError.diagnostic (name : String) : LayoutError → DiagnosticKind
  | .tooLarge => .typeTooLarge name
  | _ => .incompleteTypeUse name

namespace Lower

/-! ### Pointers -/

/-- The pointer some elements on, or back. -/
def pointerOffset (ptr index : Value) (back : Bool) (line : Nat) : Lower Value := do
  let forward ← convert index .long line
  let index ←
    if back then emit line (Build.binary .sub (.const (.ofInt 0 64)) forward .long)
    else pure forward
  return .ofOperand (← emit line (Build.offset ptr.op index ptr.ty)) ptr.ty

/-- The size of the elements that pointers are counted in. -/
def elementSize (ty : Ty) (line : Nat) : Lower Nat := do
  match (← env).config.layout.sizeOf (← types) ty with
  | .ok size => return max size 1
  | .error (.recursive key) => halt (.bottomless key)
  | .error e => failWith (e.diagnostic (← describe ty)) line

/-- The number of elements between two pointers. -/
def pointerDifference (l r : Value) (line : Nat) : Lower Value := do
  let size ← elementSize (l.ty.pointee?.getD .char) line
  let lo ← emit line (Build.cast .ptrtoint l.op .long)
  let ro ← emit line (Build.cast .ptrtoint r.op .long)
  let bytes ← emit line (Build.binary .sub lo ro .long)
  if size = 1 then return .ofOperand bytes .long
  else
    let count ← emit line (Build.binary .sdiv bytes (.const (.ofInt size 64)) .long)
    return .ofOperand count .long

/-- Compares a pointer with another value, which becomes a pointer too. -/
def pointerCompare (op : BinaryOp) (l r : Value) (line : Nat) : Lower Value := do
  let ty := if l.ty.isPointer then l.ty else r.ty
  let lo ← attempt (convert l ty line)
  let ro ← attempt (convert r ty line)
  match lo, ro, op.cmp? false with
  | some lo, some ro, some cmp => return .ofOperand (← emit line (Build.cmp cmp lo ro)) .bool
  | some _, some _, none => fail
  | _, _, _ => failWith (mismatch l.ty r.ty) line

/-- A pointer as its address; other values stay as they are. -/
def addressAsInteger (v : Value) (line : Nat) : Lower Value :=
  if v.ty.isPointer then
    return .ofOperand (← emit line (Build.cast .ptrtoint v.op .long)) .long
  else pure v

/-! ### Two operands -/

/-- Arithmetic, or a comparison, of two numbers. -/
def arithmetic (op : BinaryOp) (l r : Value) (line : Nat) : Lower Value := do
  let l ← addressAsInteger l line
  let r ← addressAsInteger r line
  if !l.ty.isArithmetic || !r.ty.isArithmetic then failWith (mismatch l.ty r.ty) line
  else
    match ← attempt (promote l r line) with
    | none => failWith (mismatch l.ty r.ty) line
    | some (lo, ro, ty) =>
      if op.isComparison then
        match op.cmp? ty.isFloat with
        | some cmp => return .ofOperand (← emit line (Build.cmp cmp lo ro)) .bool
        | none => fail
      else
        match op.bin? ty.isFloat with
        | .ok bin => return .ofOperand (← emit line (Build.binary bin lo ro ty)) ty
        | .error kind => failWith kind line

/-- Applies an operator to two values. -/
def combine (op : BinaryOp) (l r : Value) (line : Nat) : Lower Value :=
  if op.allowsPointerOffset && l.ty.isPointer && r.ty.isInteger then
    pointerOffset l r (op == .sub) line
  else if op == .add && l.ty.isInteger && r.ty.isPointer then pointerOffset r l false line
  else if op == .sub && l.ty.isPointer && r.ty.isPointer then pointerDifference l r line
  else if op.isComparison && (l.ty.isPointer || r.ty.isPointer) then pointerCompare op l r line
  else arithmetic op l r line

/-- Lowers an expression for its truth value. -/
def truth (sub : Descent) (e : ExprId) (line : Nat) : Lower Operand := do
  toBool (← sub.rvalue e) line

/-- `&&` and `||`. -/
def logical (sub : Descent) (and : Bool) (left right : ExprId) (line : Nat) : Lower Value := do
  let lb ← truth sub left line
  match lb.const?.bind Constant.truth? with
  | some known =>
    if known = and then return .ofOperand (← truth sub right line) .bool
    else return .ofConstant (.ofBool known)
  | none =>
    match ← currentBlock with
    | none => failWith (.internal "no block to branch from") line
    | some source =>
      let rightBlock ← emit line Build.newBlock
      let endBlock ← emit line Build.newBlock
      if and then emit line (Build.branch lb rightBlock endBlock)
      else emit line (Build.branch lb endBlock rightBlock)
      setBlock rightBlock
      let rb ← truth sub right line
      let rightEnd := (← currentBlock).getD rightBlock
      emit line (Build.goto endBlock)
      setBlock endBlock
      let joined ← emit line
        (Build.phi [(.const (.ofBool !and), source), (rb, rightEnd)] .bool)
      return .ofOperand joined .bool

/-- An operator with two operands. Both are lowered before either is looked at. -/
def binary (sub : Descent) (op : BinaryOp) (left right : ExprId) (line : Nat) : Lower Value :=
  match op with
  | .logicalAnd => logical sub true left right line
  | .logicalOr => logical sub false left right line
  | _ => do
    let l ← attempt (sub.rvalue left)
    let r ← attempt (sub.rvalue right)
    match l, r with
    | some l, some r => combine op l r line
    | _, _ => fail

/-! ### One operand -/

/-- `++` and `--`, in front of the operand or behind it. Pointers step by an element, numbers by
one. -/
def step (sub : Descent) (operand : ExprId) (up before : Bool) (line : Nat) : Lower Value := do
  let computed := (← expr operand).kind.isComputed
  let target ← sub.storage operand
  let ty := target.ty
  if !target.isStorage || computed || !ty.isScalar then failWith .incDecUnassignableValue line
  else
    let old ← emit line (Build.load target.op ty)
    let new ←
      if ty.isPointer then
        emit line (Build.offset old (.const (.ofInt (if up then 1 else -1) 64)) ty)
      else if ty.isFloat then
        emit line (Build.binary (if up then .fadd else .fsub) old (.const (.floating 1 ty)) ty)
      else if ty.isBool then failWith .unknownUnaryOperation line
      else
        emit line (Build.binary (if up then .add else .sub) old (.const (.integral 1 ty)) ty)
    emit line (Build.store target.op new)
    return .ofOperand (if before then new else old) ty

/-- The address of storage or of a function. -/
def addressOf (sub : Descent) (operand : ExprId) (line : Nat) : Lower Value := do
  let v ← sub.storage operand
  if v.isFunction || v.isStorage then return .ofOperand v.op v.ty.pointerTo
  else failWith .cannotTakeAddressOfNonStorageValue line

/-- What a pointer points to. -/
def deref (sub : Descent) (operand : ExprId) (line : Nat) : Lower Value := do
  let v ← sub.rvalue operand
  match v.ty.pointee? with
  | none => failWith (.indirectionRequiresPointer v.ty.text) line
  | some target =>
    if target.isFunction then return .ofFunction v.op target
    else return .inStorage v.op target

/-- The negative of a number. A float is multiplied by minus one. -/
def negate (sub : Descent) (operand : ExprId) (line : Nat) : Lower Value := do
  let v ← sub.rvalue operand
  if v.ty.isFloat then
    let op ← emit line (Build.binary .fmul v.op (.const (.floating (-1) v.ty)) v.ty)
    return .ofOperand op v.ty
  else if v.ty.isInteger then
    let ty := if v.ty.isBool then .word else v.ty
    let value ← convert v ty line
    let op ← emit line (Build.binary .sub (.const (.integral 0 ty)) value ty)
    return .ofOperand op ty
  else failWith .unknownUnaryOperation line

/-- An operator in front of its operand. -/
def unary (sub : Descent) (op : UnaryOp) (operand : ExprId) (line : Nat) : Lower Value :=
  match op with
  | .addressOf => addressOf sub operand line
  | .deref => deref sub operand line
  | .negate => negate sub operand line
  | .plus => do
    let v ← sub.rvalue operand
    if v.ty.isArithmetic then return v else failWith .unknownUnaryOperation line
  | .not => do
    let b ← truth sub operand line
    return .ofOperand (← emit line (Build.cmp .eq b (.const (.ofBool false)))) .bool
  | .bitNot => do
    let v ← sub.rvalue operand
    if v.ty.isInteger then
      let op ← emit line (Build.binary .xor v.op (.const (.integral (-1) v.ty)) v.ty)
      return .ofOperand op v.ty
    else failWith .unknownUnaryOperation line
  | .preIncrement => step sub operand true true line
  | .preDecrement => step sub operand false true line

end Lower

end TreeFlow
