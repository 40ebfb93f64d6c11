import TreeFlow.Lower.Variable

/-!
# Functions

A function may be declared any number of times, always with the same type, and defined once. When
its body ends, every block is closed: the place where the body ends returns, labels that were
never defined are reported, and all other open blocks are never reached.
-/

namespace TreeFlow

/-- Where two signatures of one function first differ: the result is at zero, the parameters
follow. -/
def Signature.firstMismatch (a b : Signature) : Nat :=
  if a.result ≠ b.result then 0
  else
    let pairs := a.params.zip b.params
    (pairs.findIdx? fun (p, q) => p ≠ q).getD pairs.length + 1

namespace Lower

/-! ### Declarations -/

/-- The function that an earlier declaration means; the two declarations have to agree. -/
def redeclare (name : String) (sig : Signature) (b : Binding) (line : Nat) : Lower FuncId := do
  let agrees : Except Nat Unit := match b.ty.signature? with
    | some earlier => if earlier = sig then .ok () else .error (earlier.firstMismatch sig)
    | none => .error 0
  match agrees with
  | .error position => failWith (.conflictingType name position) line
  | .ok () =>
    match b.addr with
    | .const (.function id _) =>
      if (← read (·.func)).isSome then updateScopes (·.defineVar name b)
      return id
    | _ =>
      let full := (← read (·.scopes)).qualify name
      failWith (.internal s!"{full} is not a function") line

/-- Declares a function. -/
def declareFunction (name : String) (sig : Signature) (storage : Storage) (line : Nat) :
    Lower FuncId := do
  let scopes ← read (·.scopes)
  let full := scopes.qualify name
  if full = "main" ∧ sig.result ≠ .word then report .invalidMainFunctionReturnType line
  match scopes.globalVar? full with
  | some b => redeclare name sig b line
  | none =>
    let id ← withBuilder (·.declareFunction full sig (linkageOf storage))
    let addr := (← read (·.builder)).functionRef id
    updateScopes (·.defineGlobalVar name (.ofFunction (.ofSignature sig) addr))
    return id

/-! ### The end of a body -/

/-- The function at a position. -/
def functionAt (id : FuncId) : Lower (Option Function) := read (·.builder.mod.function? id)

/-- Closes the block where a body ends. It returns, unless control never gets there. -/
def closeLast (f : OpenFunction) (line : Nat) : Lower Unit := do
  let reached ← match ← currentBlock with
    | none => pure false
    | some block =>
      let sources ← emit line (Build.predecessors block)
      pure (!sources.isEmpty || (← functionAt f.id).bind Function.entry? == some block)
  if !reached then emit line Build.unreachable
  else if f.result.isVoid then emit line (Build.ret none)
  else
    report .missingReturnStatement line
    emit line (Build.ret (some (.const (.zero f.result))))

/-- Reports labels that were never defined and closes the blocks that stand for them. -/
def closePending : List PendingLabel → Lower Unit
  | [] => pure ()
  | label :: rest => do
    report (.undeclaredIdentifier label.name) label.line
    setBlock label.block
    emit label.line Build.unreachable
    closePending rest

/-- Closes some blocks that are never reached. -/
def closeBlocks (line : Nat) : List BlockId → Lower Unit
  | [] => pure ()
  | block :: rest => do
    setBlock block
    emit line Build.unreachable
    closeBlocks line rest

/-- Labels by the line of the first jump to them. -/
def sortPending (labels : List PendingLabel) : List PendingLabel :=
  labels.mergeSort fun a b => a.line ≤ b.line

/-- Closes every open block of the function at hand. -/
def finishFunction (line : Nat) : Lower Unit := do
  match ← read (·.func) with
  | none => fail
  | some f =>
    if !(← read (·.builder.isTerminated)) then closeLast f line
    let labels ← read (·.pending)
    update fun s => { s with pending := [] }
    closePending (sortPending labels)
    match ← functionAt f.id with
    | none => pure ()
    | some g => closeBlocks line (g.layout.filter fun block => !g.isTerminated block)

/-! ### Bodies -/

/-- Gives every parameter with a name, counted from a position on, a stack slot. -/
def bindParams : Nat → List DeclaratorInfo → Lower Unit
  | _, [] => pure ()
  | i, p :: ps => do
    match p.name with
    | none => report .uselessParam p.line
    | some name =>
      let slot ← emit p.line (Build.alloca p.ty)
      emit p.line (Build.store slot (.arg i))
      updateScopes (·.defineVar name (.ofVariable p.ty slot))
    bindParams (i + 1) ps

/-- Lowers a body into a new entry block. -/
def functionContents (lower : StmtId → Lower Unit) (ps : List DeclaratorInfo) (body : StmtId)
    (line : Nat) : Lower Unit := do
  setBlock (← emit line Build.newBlock)
  bindParams 0 ps
  lower body

/-- Lowers the body of a function, in a scope of its own. -/
def functionBody (lower : StmtId → Lower Unit) (id : FuncId) (result : Ty)
    (ps : List DeclaratorInfo) (body : StmtId) (line : Nat) : Lower Unit := do
  let prev ← read (·.builder.func)
  let name := ((← functionAt id).map Function.name).getD ""
  updateBuilder (·.setFunction (some id))
  match (← read (·.scopes)).openFunction with
  | .error fault =>
    report (.internal fault.message) line
    updateBuilder (·.setFunction prev)
    fail
  | .ok scopes =>
    update fun s => { s with scopes, func := some ⟨id, name, result⟩ }
    let lowered ← attempt (functionContents lower ps body line)
    let finished ← attempt (finishFunction line)
    update fun s => { s with func := none, loops := [], pending := [] }
    match (← read (·.scopes)).closeFunction with
    | .ok scopes => update fun s => { s with scopes }
    | .error fault => report (.internal fault.message) line
    updateBuilder (·.setFunction prev)
    if lowered.isSome && finished.isSome then pure () else fail

/-- Gives a declared function its body. -/
def defineFunction (lower : StmtId → Lower Unit) (id : FuncId) (name : String) (result : Ty)
    (storage : Storage) (ps : List DeclaratorInfo) (body : StmtId) (line : Nat) :
    Lower Unit := do
  if (← read (·.func)).isSome then failWith .nestingFunctionNotAllowed line
  else if !((← functionAt id).map Function.isDeclaration).getD false then
    failWith (.redefinitionOfFunction name) line
  else
    if storage = .static then
      updateBuilder fun b =>
        { b with mod := b.mod.modifyFunction id fun f => { f with linkage := .internal } }
    functionBody lower id result ps body line

/-- A declaration or definition of a function. -/
def function (lower : StmtId → Lower Unit) (decl : FunctionDecl) (line : Nat) : Lower Unit := do
  let result ← resolve decl.result
  let info ← resolveDeclarator .normal decl.declarator result
  match info.ty.signature? with
  | none => failWith (.incompatibleTypes info.ty.text "function") line
  | some sig =>
    match info.name with
    | none => pure ()
    | some name =>
      let id ← declareFunction name sig decl.storage line
      match decl.body with
      | none => pure ()
      | some body =>
        defineFunction lower id name sig.result decl.storage (info.params.getD []) body line

end Lower

end TreeFlow
