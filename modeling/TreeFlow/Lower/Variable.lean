import TreeFlow.Lower.Depth
import TreeFlow.Lower.Startup

/-!
# Variables

A variable at the top level, and a static or foreign one in a function, is a global; any other is
a stack slot. The initializer of a global is first tried as a constant. Where that fails, all
traces of the attempt are removed, and the global is initialized by the startup routine.
-/

namespace TreeFlow.Lower

/-! ### Globals -/

/-- The position of the global at an address. -/
def globalId (addr : Constant) (line : Nat) : Lower GlobalId :=
  match addr with
  | .global id _ => pure id
  | _ => failWith (.internal s!"{addr.text} is not a global") line

/-- Changes the global at an address. -/
def modifyGlobal (addr : Constant) (line : Nat) (change : Global → Global) : Lower Unit := do
  let id ← globalId addr line
  updateBuilder fun b => { b with mod := b.mod.modifyGlobal id change }

/-- Gives zeroed storage to a global that was only declared. -/
def completeGlobal (addr : Constant) (ty : Ty) (line : Nat) : Lower Unit :=
  modifyGlobal addr line fun g => { g with init := some (g.init.getD (.zero ty)) }

/-- Sets the initial value of a global. -/
def setGlobalInit (addr : Constant) (init : Constant) (line : Nat) : Lower Unit :=
  modifyGlobal addr line fun g => { g with init := some init }

/-- The linkage of what is declared with a storage class. -/
def linkageOf (storage : Storage) : Linkage :=
  if storage = .static then .internal else .external

/-! ### Initializers -/

/-- The value of an initializer as an operand of the type of the variable. -/
def initializerValue (ty : Ty) (init : ExprId) (line : Nat) : Lower Operand := do
  let v ← rvalue init
  if v.isStorage then fail else convert v ty line

/-- The constant that an initializer comes to, if it is one. Otherwise the attempt leaves no
trace, since the initializer may be lowered once more. -/
def constantInitializer (ty : Ty) (init : ExprId) (line : Nat) : Lower (Option Constant) :=
  fun env s =>
    let (saved, builder) := s.builder.snapshot
    let (result, after) := initializerValue ty init line env { s with builder }
    let undone := { after with
      builder := after.builder.restore saved .nothing
      scopes := s.scopes
      diags := after.diags.truncate s.diags.size }
    match result with
    | .stuck why => (.stuck why, after)
    | .failed => (.done none, undone)
    | .done op =>
      match op.const? with
      | none => (.done none, undone)
      | some c =>
        (.done (some c),
          { after with builder := after.builder.restore saved .typesAndGlobals })

/-- The bytes of a text with a zero byte behind them, cut or padded with zeros to a length. -/
def stringBytes (s : String) (length : Nat) : List UInt8 :=
  let contents := Utf8.encode s ++ [0]
  contents.take length ++ List.replicate (length - contents.length) 0

/-- The contents of an array that is initialized by a string literal. -/
def arrayInitializer (ty : Ty) (init : ExprId) (line : Nat) : Lower Constant := do
  match ty with
  | .array element length =>
    match (← expr init).kind with
    | .str s =>
      if element = .char then return .bytes (stringBytes s length)
      else failWith .unsupportedArrayInitializer line
    | _ => failWith .unsupportedArrayInitializer line
  | _ => fail

/-- Initializes an array: with a string literal, or with a copy of another one. -/
def storeArray (slot : Operand) (ty : Ty) (init : ExprId) (line : Nat) : Lower Unit := do
  match (← expr init).kind with
  | .str _ => do
    let contents ← arrayInitializer ty init line
    emit line (Build.store slot contents)
  | _ => do
    let v ← descend (·.storage init)
    if !v.isStorage || v.ty != ty then failWith .unsupportedArrayInitializer line
    else emit line (Build.copy slot v.op ty)

/-- Stores an initializer where the variable is. -/
def storeInitializer (slot : Operand) (ty : Ty) (init : ExprId) (line : Nat) : Lower Unit := do
  if ty.isArray then storeArray slot ty init line
  else
    let v ← rvalue init
    if ty.isAggregate then
      if v.ty != ty then failWith (mismatch v.ty ty) line
      else putAggregate slot v ty line
    else
      let op ← convertOrReport v ty line
      emit line (Build.store slot op)

/-! ### Local variables -/

/-- A foreign variable in a function. One of that name and type outside of functions is meant, if
there is any. -/
def foreignLocal (name : String) (ty : Ty) : Lower Unit := do
  let known := (← read (·.scopes)).globalVar? name
  let b ← match known.filter fun b => !b.isFunction && b.ty == ty with
    | some b => pure b
    | none =>
      let addr ← withBuilder (·.addGlobal
        { name, ty, linkage := .external, init := none, constant := false })
      pure (Binding.ofVariable ty addr)
  updateScopes (·.defineVar name b)

/-- A static variable in a function. Only a constant can initialize it. -/
def staticLocal (name : String) (ty : Ty) (init : Option ExprId) (line : Nat) :
    Lower Unit := do
  let owner := ((← read (·.func)).map OpenFunction.name).getD ""
  let addr ← withBuilder (·.addGlobal
    { name := s!"{owner}.{name}", ty, linkage := .internal, init := some (.zero ty)
      constant := false })
  updateScopes (·.defineVar name (.ofVariable ty addr))
  match init with
  | none => pure ()
  | some init =>
    match ← constantInitializer ty init line with
    | some c => setGlobalInit addr c line
    | none => report .nonConstantInitializer line

/-- A variable on the stack. -/
def stackLocal (name : String) (ty : Ty) (init : Option ExprId) (line : Nat) : Lower Unit := do
  let slot ← emit line (Build.alloca ty)
  updateScopes (·.defineVar name (.ofVariable ty slot))
  match init with
  | none => pure ()
  | some init => storeInitializer slot ty init line

/-- A variable in a function. -/
def localVariable (name : String) (storage : Storage) (ty : Ty) (init : Option ExprId)
    (line : Nat) : Lower Unit :=
  match storage with
  | .foreign => foreignLocal name ty
  | .static => staticLocal name ty init line
  | .normal => stackLocal name ty init line

/-! ### Global variables -/

/-- The address of a global variable. A repeated declaration means the same storage. -/
def globalAddress (name : String) (storage : Storage) (ty : Ty) (hasInit : Bool) (line : Nat) :
    Lower Constant := do
  let scopes ← read (·.scopes)
  let full := scopes.qualify name
  match scopes.globalVar? full with
  | some b =>
    if !b.isFunction && b.ty == ty then
      match b.addr.const? with
      | some addr => return addr
      | none => failWith (.internal s!"{full} has no storage") line
    else failWith (mismatch b.ty ty) line
  | none =>
    let init := if storage = .foreign && !hasInit then none else some (.zero ty)
    let addr ← withBuilder (·.addGlobal
      { name := full, ty, linkage := linkageOf storage, init, constant := false })
    updateScopes (·.defineGlobalVar name (.ofVariable ty addr))
    return addr

/-- Initializes a global variable. -/
def initGlobal (addr : Constant) (storage : Storage) (ty : Ty) (init : ExprId) (line : Nat) :
    Lower Unit := do
  if ty.isArray then setGlobalInit addr (← arrayInitializer ty init line) line
  else
    match ← constantInitializer ty init line with
    | some c => setGlobalInit addr c line
    | none =>
      if storage = .foreign then failWith .externalVariableIsNotConstant line
      else
        report .nonConstantInitializer line
        completeGlobal addr ty line
        inStartup (storeInitializer addr ty init line)

/-- A variable outside of functions. -/
def globalVariable (name : String) (storage : Storage) (ty : Ty) (init : Option ExprId)
    (line : Nat) : Lower Unit := do
  let addr ← globalAddress name storage ty init.isSome line
  match init with
  | some init => initGlobal addr storage ty init line
  | none => if storage = .foreign then pure () else completeGlobal addr ty line

end TreeFlow.Lower
