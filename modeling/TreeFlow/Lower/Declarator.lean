import TreeFlow.Lower.Descent

/-!
# Declarators

A chain of declarators is followed from its outermost link in, and every link wraps the type built
so far: pointers add indirection, arrays dimensions, a function link makes the type a result. The
name at the centre gets whatever type is left.
-/

namespace TreeFlow.Lower

/-- The length of an array; it must be known and not negative. -/
def arrayLength (sub : Descent) (e : ExprId) (line : Nat) : Lower Nat := do
  match ← sub.constInt e with
  | some n => if 0 ≤ n then return Signed.word n else failWith .nonConstantArraySize line
  | none => failWith .nonConstantArraySize line

/-- Adds dimensions to a type, the one nearest to the element first. A dimension that is left out,
or belongs to a parameter, makes a pointer. -/
def addDimensions (sub : Descent) (mode : DeclaratorMode) (line : Nat) :
    List (Option ExprId) → Ty → Lower Ty
  | [], ty => pure ty
  | dim :: dims, ty =>
    match mode, dim with
    | .param, _ | _, none => addDimensions sub mode line dims ty.pointerTo
    | _, some e => do
      let length ← arrayLength sub e line
      addDimensions sub mode line dims (.array ty length)

/-- Follows a whole chain. -/
def declare (sub : Descent) (mode : DeclaratorMode) (id : DeclaratorId) (base : Ty) :
    Lower DeclaratorInfo := do
  let line := (← declarator id).line.toNat
  let info ← sub.link mode id { ty := base, line }
  if info.name.isSome && info.ty.isVoid && (mode == .normal || mode == .field)
  then failWith .invalidUseOfVoid line
  else return info

/-! ### Parameters -/

/-- One parameter, before its type is adjusted. -/
def param (sub : Descent) (line : Nat) (p : ParamDecl) : Lower DeclaratorInfo := do
  let base ← sub.spec p.spec
  match p.declarator with
  | some d => declare sub .param d base
  | none => return { ty := base, line }

/-- Lowers every item of a list, also behind one that failed. -/
def each (step : α → Lower β) : List α → Lower (List (Option β))
  | [] => pure []
  | a :: rest => do
    let b ← attempt (step a)
    return b :: (← each step rest)

/-- A parameter of function type is a pointer to that function. -/
def adjustParam (p : DeclaratorInfo) : DeclaratorInfo :=
  if p.ty.isFunction then { p with ty := p.ty.pointerTo } else p

/-- The parameters of a function. A lone `void` without a name stands for none. -/
def params (sub : Descent) (ps : List ParamDecl) (line : Nat) : Lower (List DeclaratorInfo) := do
  match (← each (param sub line) ps).mapM id with
  | none => fail
  | some found =>
    match found.find? (·.ty.isVoid) with
    | none => return found.map adjustParam
    | some nothing =>
      if nothing.name.isSome then failWith .voidTypeParam nothing.line
      else if 1 < found.length then failWith .voidMustBeOnlyParam nothing.line
      else return []

/-! ### Links -/

/-- One link of a chain. -/
def linkWith (sub : Descent) (mode : DeclaratorMode) (id : DeclaratorId) (info : DeclaratorInfo) :
    Lower DeclaratorInfo := do
  let d ← declarator id
  match d.kind with
  | .identifier name => return { info with name := some name }
  | .anonymous => return info
  | .pointer inner depth => sub.link mode inner { info with ty := info.ty.pointers depth.toNat }
  | .array inner dims => do
    let ty ← addDimensions sub mode d.line.toNat dims.reverse info.ty
    sub.link mode inner { info with ty }
  | .function inner ps variadic => do
    let ps ← params sub ps d.line.toNat
    let ty := Ty.function info.ty (ps.map (·.ty)) variadic
    sub.link mode inner { info with ty, params := some ps, variadic }
  | .init inner value => sub.link mode inner { info with init := some value }

end TreeFlow.Lower
