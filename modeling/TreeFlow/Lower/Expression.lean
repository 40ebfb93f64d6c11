import TreeFlow.Lower.Arithmetic

/-!
# Expressions

Each kind of expression yields its natural form: what names storage yields the address of it. The
mode of the place then decides whether the value is loaded from there.
-/

namespace TreeFlow.Lower

/-! ### Literals and names -/

/-- An integer literal: a word unless it does not fit. -/
def integerLiteral (n : UInt64) : Value :=
  .ofConstant (.ofInt n.toNat (if n.toNat < 0x80000000 then 32 else 64))

/-- A string literal: a global array of bytes. -/
def stringLiteral (s : String) : Lower Value := do
  let (addr, ty) ← withBuilder (·.globalString s)
  return .inStorage (.const addr) ty

/-- A variable or function, looked up from here or from the global namespace on. -/
def identifier (name : String) (globally : Bool) (line : Nat) : Lower Value := do
  let scopes ← read (·.scopes)
  match if globally then scopes.globalVar? name else scopes.var? name with
  | some b => return if b.isFunction then .ofFunction b.addr b.ty else .inStorage b.addr b.ty
  | none => failWith (.undeclaredIdentifier name) line

/-- A name behind `::`. Behind any other expression the sign changes nothing. -/
def globalScope (sub : Descent) (operand : ExprId) (line : Nat) : Lower Value := do
  match (← expr operand).kind with
  | .identifier name => identifier name true line
  | _ => sub.raw operand

/-! ### Calls -/

/-- An argument, given the type of its parameter; there is none for one beyond the parameters. A
float beyond them is passed as a double. -/
def argument (v : Value) (param : Option Ty) (line : Nat) : Lower Operand :=
  match param with
  | some ty =>
    if v.ty.isAggregate && v.ty == ty then loadAggregate v line
    else do
      match ← attempt (convert v ty line) with
      | some op => return op
      | none => failWith .unableToMatchArguments line
  | none =>
    if v.ty = .float then emit line (Build.cast .fpext v.op .double) else loadAggregate v line

/-- The arguments of a call, from the first to the last. -/
def arguments (sub : Descent) (line : Nat) : List Ty → List ExprId → Lower (List Operand)
  | _, [] => pure []
  | params, e :: es => do
    let v ← sub.rvalue e
    let op ← argument v params.head? line
    return op :: (← arguments sub line params.tail es)

/-- A call of a function or of what a pointer points to. -/
def call (sub : Descent) (callee : ExprId) (args : List ExprId) (line : Nat) : Lower Value := do
  if ← read (·.lvalue) then failWith .functionCallAsLValue line
  else
    let f ← sub.rvalue callee
    match f.ty.calleeSignature? with
    | none => failWith .callingNonFunctionValue line
    | some sig =>
      if args.length < sig.params.length
          || (sig.params.length < args.length && !sig.variadic) then
        failWith .unableToMatchArguments line
      else
        let ops ← arguments sub line sig.params args
        return .ofOperand (← emit line (Build.call f.op ops sig.result)) sig.result

/-! ### Parts of values -/

/-- The address and type of the aggregate that a field is taken from. An aggregate that a call
returned is first put into memory. -/
def fieldBase (v : Value) (line : Nat) : Lower (Operand × Ty) := do
  if v.ty.isAggregate then
    if v.isStorage then return (v.op, v.ty)
    else
      let slot ← emit line (Build.alloca v.ty)
      emit line (Build.store slot v.op)
      return (slot, v.ty)
  else
    let v ← toRvalue v line
    match v.ty.pointee? with
    | some target => if target.isAggregate then return (v.op, target)
                     else failWith .getNonStructureField line
    | none => failWith .getNonStructureField line

/-- A field of an aggregate or of what a pointer points to. -/
def fieldAccess (sub : Descent) (base : ExprId) (name : String) (line : Nat) : Lower Value := do
  let (ptr, ty) ← fieldBase (← sub.storage base) line
  match ty.key?.bind (← types).find? with
  | none => failWith (.incompleteTypeUse (← describe ty)) line
  | some d =>
    if d.fields.isNone then failWith (.incompleteTypeUse (← describe ty)) line
    else
      match d.findField? name with
      | none => failWith (.failedToFindFieldName name) line
      | some (i, f) =>
        let place := match ty with
          | .union _ => Build.cast .bitcast ptr f.ty.pointerTo
          | _ => Build.field ptr i f.ty.pointerTo
        return .inStorage (← emit line place) f.ty

/-- An element of an array or of what a pointer points to. -/
def element (sub : Descent) (base position : ExprId) (line : Nat) : Lower Value := do
  let b ← sub.storage base
  if !(b.isStorage && b.ty.isArray) && !b.ty.isPointer then failWith .getNonArrayElement line
  else
    let ptr ← toRvalue b line
    let index ← sub.rvalue position
    if !index.ty.isInteger then failWith .getNonArrayElement line
    else
      let index ← convert index .long line
      let op ← emit line (Build.offset ptr.op index ptr.ty)
      return .inStorage op (ptr.ty.pointee?.getD .char)

/-! ### Types -/

/-- A size or alignment. -/
def layoutQuery (sub : Descent) (id : SpecId) (size : Bool) (line : Nat) : Lower Value := do
  let ty ← sub.spec id
  let layout := (← env).config.layout
  let table ← types
  match if size then layout.sizeOf table ty else layout.alignOf table ty with
  | .ok n =>
    if n < 0x8000000000000000 then return .ofConstant (.ofInt n 64)
    else failWith (.typeTooLarge (table.describe ty)) line
  | .error (.recursive key) => halt (.bottomless key)
  | .error .void => failWith (if size then .sizeOfVoid else .alignOfVoid) line
  | .error e => failWith (e.diagnostic (table.describe ty)) line

/-- A written conversion. -/
def cast (sub : Descent) (id : SpecId) (operand : ExprId) (line : Nat) : Lower Value := do
  let ty ← sub.spec id
  let v ← sub.rvalue operand
  if ty.isVoid then return .nothing
  else return .ofOperand (← convertOrReport v ty line) ty

/-! ### Assignment -/

/-- Puts an aggregate at an address: copies it from memory, or stores what a call returned. -/
def putAggregate (addr : Operand) (v : Value) (ty : Ty) (line : Nat) : Lower Unit :=
  if v.isStorage then emit line (Build.copy addr v.op ty) else emit line (Build.store addr v.op)

/-- Assigns to storage that has been lowered. Arrays and aggregates take only values of the very
same type. -/
def assignTo (sub : Descent) (target : Value) (value : ExprId) (line : Nat) : Lower Value := do
  if target.ty.isArray then
    let v ← sub.storage value
    if !v.isStorage || v.ty != target.ty then failWith (mismatch v.ty target.ty) line
    else
      emit line (Build.copy target.op v.op target.ty)
      return target
  else
    let v ← sub.rvalue value
    if target.ty.isAggregate then
      if v.ty != target.ty then failWith (mismatch v.ty target.ty) line
      else
        putAggregate target.op v target.ty line
        return target
    else
      let op ← convertOrReport v target.ty line
      emit line (Build.store target.op op)
      return .ofOperand op target.ty

/-- An assignment. The value is looked at even if the target cannot be lowered. -/
def assign (sub : Descent) (target value : ExprId) (line : Nat) : Lower Value := do
  let computed := (← expr target).kind.isComputed
  match ← attempt (sub.lvalue target) with
  | none =>
    ignoring (sub.rvalue value)
    fail
  | some t =>
    if !t.isStorage || computed || t.ty.isVoid then failWith .unassignableLValue line
    else assignTo sub t value line

/-! ### Choice -/

/-- The type of a choice between two values. A pointer wins over an integer. -/
def choiceTy? (yes no : Ty) : Option Ty :=
  if yes = no then some yes
  else if yes.isArithmetic && no.isArithmetic then yes.common? no
  else if yes.isPointer && (no.isPointer || no.isInteger) then some yes
  else if yes.isInteger && no.isPointer then some no
  else none

/-- Brings one alternative to the type of the choice. Aggregates are joined by address, so one
that a call returned is put into memory first. -/
def alternative (v : Value) (ty : Ty) (line : Nat) : Lower Operand := do
  if ty.isVoid then return .const (.undef .void)
  else if ty.isAggregate then
    if v.isStorage then return v.op
    else
      let slot ← emit line (Build.alloca ty)
      emit line (Build.store slot v.op)
      return slot
  else convertOrReport v ty line

/-- One branch of a choice: the alternative is converted where it was computed, and control then
goes to the join. Yields the operand and the block it comes from. -/
def joinFrom (source join : BlockId) (v : Value) (ty : Ty) (line : Nat) :
    Lower (Operand × BlockId) := do
  setBlock source
  let op ← alternative v ty line
  let last := (← currentBlock).getD source
  emit line (Build.goto join)
  return (op, last)

/-- Lowers one alternative into its block. Yields it, if it can be lowered, and the block where
its code ends. -/
def alternativeIn (sub : Descent) (block : BlockId) (e : ExprId) :
    Lower (Option Value × BlockId) := do
  setBlock block
  let v ← attempt (sub.rvalue e)
  return (v, (← currentBlock).getD block)

/-- `c ? a : b`. -/
def conditional (sub : Descent) (cond yes no : ExprId) (line : Nat) : Lower Value := do
  let c ← truth sub cond line
  let yesBlock ← emit line Build.newBlock
  let noBlock ← emit line Build.newBlock
  let join ← emit line Build.newBlock
  emit line (Build.branch c yesBlock noBlock)
  let (y, yesEnd) ← alternativeIn sub yesBlock yes
  let (n, noEnd) ← alternativeIn sub noBlock no
  match y, n with
  | some y, some n =>
    match choiceTy? y.ty n.ty with
    | none => failWith (mismatch y.ty n.ty) line
    | some ty =>
      let fromYes ← joinFrom yesEnd join y ty line
      let fromNo ← joinFrom noEnd join n ty line
      setBlock join
      if ty.isVoid then return .nothing
      else if ty.isAggregate then
        return .inStorage (← emit line (Build.phi [fromYes, fromNo] ty.pointerTo)) ty
      else return .ofOperand (← emit line (Build.phi [fromYes, fromNo] ty)) ty
  | _, _ => fail

/-- `a, b`. The first value is kept among the effects of the second. -/
def comma (sub : Descent) (first second : ExprId) : Lower Value := do
  let a ← sub.rvalue first
  let b ← sub.raw second
  return { b with effects := a.effects ++ a.op :: b.effects }

/-! ### All kinds -/

/-- One expression, in its natural form. -/
def rawWith (sub : Descent) (id : ExprId) : Lower Value := do
  let e ← expr id
  let line := e.line.toNat
  match e.kind with
  | .integer n => return integerLiteral n
  | .char c => return .ofConstant (.ofInt c.toNat 8)
  | .bool b => return .ofConstant (.ofBool b)
  | .double x => return .ofConstant (.double x)
  | .str s => stringLiteral s
  | .identifier name => identifier name false line
  | .globalScope operand => globalScope sub operand line
  | .call callee args => call sub callee args line
  | .field base name => fieldAccess sub base name line
  | .index base position => element sub base position line
  | .binary op left right => binary sub op left right line
  | .unary op operand => unary sub op operand line
  | .step op operand => step sub operand (op == .increment) false line
  | .sizeOf id => layoutQuery sub id true line
  | .alignOf id => layoutQuery sub id false line
  | .cast id operand => cast sub id operand line
  | .assign target value => assign sub target value line
  | .conditional cond yes no => conditional sub cond yes no line
  | .comma first second => comma sub first second

end TreeFlow.Lower
