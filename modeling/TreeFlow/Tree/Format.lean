import TreeFlow.Json.Basic
import TreeFlow.Tree.Basic

/-!
# The JSON form of syntax trees

A record is an object with one member per field; members it does not know are ignored, and no field
is given twice. A choice is an object with one member, named for the alternative, or only that name
when the alternative holds nothing. Handles are plain numbers. Optional fields may be left out or
`null`, and the file, the lists and the storage class have defaults; every other field is required.

A record may also be written as the list of its field values, in order. Then only fields with a
default may be left out, at the end. Where an alternative has fields of its own, and no record that
holds them, their values may be listed in a text only. In a text that is not JSON, a tag may name
the alternative that a scalar is held by.

`encode` writes every field; `decode?` reads what `encode` writes and the shorter forms.
-/

namespace TreeFlow.Format

/-! ### Records -/

/-- The fields of a record that is being read. -/
structure Fields where
  get? : String → Option Json
  /-- The record is a list of values, without names. -/
  positional : Bool

/-- Does no field of a record have two members? -/
def noneRepeated (names : List String) (members : List (String × Json)) : Bool :=
  names.all fun name => (members.filter fun m => m.1 = name).length ≤ 1

/-- The fields of a record with the given field names. -/
def fields? (names : List String) : Json → Option Fields
  | .object members | .record members =>
    if noneRepeated names members then some ⟨fun name => members.lookup name, false⟩ else none
  | .list items =>
    if items.length ≤ names.length then some ⟨fun name => (names.zip items).lookup name, true⟩
    else none
  | _ => none

/-- Where a tree comes from. -/
inductive Origin where
  /-- A text, which is read while the tree is. -/
  | text
  /-- A value that has been read before. -/
  | value
  deriving DecidableEq, Repr, Inhabited

/-- The fields of an alternative, with the given field names. Only in a text may they be a list. -/
def Origin.fields? (o : Origin) (names : List String) (x : Json) : Option Fields :=
  if o = .value ∧ x.list?.isSome = true then none else Format.fields? names x

/-- A field that has to be there. -/
def Fields.required (f : Fields) (name : String) (read : Json → Option α) : Option α :=
  f.get? name >>= read

/-- A value that may be `null`. -/
def nullable? (read : Json → Option α) (x : Json) : Option (Option α) := do
  match ← x.nullable? with
  | none => return none
  | some x => (read x).map some

/-- A field that may be left out or `null`. -/
def Fields.optional (f : Fields) (name : String) (read : Json → Option α) :
    Option (Option α) :=
  match f.get? name with
  | none => if f.positional then none else some none
  | some x => nullable? read x

/-- A field that takes a default when it is left out. -/
def Fields.withDefault (f : Fields) (name : String) (default : α) (read : Json → Option α) :
    Option α :=
  match f.get? name with
  | none => some default
  | some x => read x

/-- A list whose items are read one by one. -/
def list? (read : Json → Option α) (x : Json) : Option (List α) :=
  x.list? >>= fun items => items.mapM read

/-! ### Choices -/

/-- The name of an alternative, and what it holds. A scalar is the name itself, or what the
alternative named by its tag holds, if there is one of that name. -/
def choice? (names : List String) : Json → Option (String × Option Json)
  | .text name => some (name, none)
  | .scalar s =>
    match s.alternative? names with
    | some name => some (name, some (.scalar s))
    | none => some (s.text, none)
  | .object [(name, x)] => some (name, some x)
  | _ => none

/-- An alternative that holds nothing. -/
def nothing? : Option Json → Option Unit
  | none => some ()
  | some x => if x.isNull then some () else none

/-- One of a list of named alternatives that hold nothing. -/
def named? (names : List (String × α)) (x : Json) : Option α := do
  let (name, inner) ← choice? (names.map Prod.fst) x
  nothing? inner
  names.lookup name

/-- The name of an alternative. -/
def nameOf [DecidableEq α] (names : List (String × α)) (a : α) : String :=
  ((names.find? fun p => p.2 = a).map Prod.fst).getD ""

/-- A choice that holds something. -/
def holding (name : String) (x : Json) : Json := .object [(name, x)]

/-! ### Names of operators -/

/-- The binary operators by name. -/
def binaryNames : List (String × BinaryOp) :=
  [("Add", .add), ("Sub", .sub), ("Mul", .mul), ("Div", .div), ("Mod", .mod), ("Shl", .shl),
    ("Shr", .shr), ("BitAnd", .bitAnd), ("BitOr", .bitOr), ("BitXor", .bitXor), ("Eq", .eq),
    ("NEq", .ne), ("Ls", .lt), ("LsEq", .le), ("Gr", .gt), ("GrEq", .ge),
    ("LogicalAnd", .logicalAnd), ("LogicalOr", .logicalOr)]

/-- The unary operators by name. -/
def unaryNames : List (String × UnaryOp) :=
  [("AddressOf", .addressOf), ("Deref", .deref), ("Negate", .negate), ("Plus", .plus),
    ("Not", .not), ("BitNot", .bitNot), ("PreIncrement", .preIncrement),
    ("PreDecrement", .preDecrement)]

/-- The operators behind an operand by name. -/
def stepNames : List (String × StepOp) := [("Increment", .increment), ("Decrement", .decrement)]

/-- The storage classes by name. -/
def storageNames : List (String × Storage) :=
  [("Default", .normal), ("Static", .static), ("Extern", .foreign)]

/-! ### Leaves -/

/-- A line, a width or a handle: a number of 32 bits. -/
def word? (x : Json) : Option UInt32 := (x.nat? UInt32.size).map UInt32.ofNat

/-- The handle of an expression. -/
def exprId? (x : Json) : Option ExprId := (word? x).map ExprId.mk

/-- The handle of a statement. -/
def stmtId? (x : Json) : Option StmtId := (word? x).map StmtId.mk

/-- The handle of a type specifier. -/
def specId? (x : Json) : Option SpecId := (word? x).map SpecId.mk

/-- The handle of a declarator. -/
def declaratorId? (x : Json) : Option DeclaratorId := (word? x).map DeclaratorId.mk

/-- A number of 32 bits, written. -/
def ofWord (n : UInt32) : Json := .ofNat n.toNat

/-- A handle of an expression, written. -/
def ofExprId (id : ExprId) : Json := ofWord id.raw

/-- A handle of a statement, written. -/
def ofStmtId (id : StmtId) : Json := ofWord id.raw

/-- A handle of a type specifier, written. -/
def ofSpecId (id : SpecId) : Json := ofWord id.raw

/-- A handle of a declarator, written. -/
def ofDeclaratorId (id : DeclaratorId) : Json := ofWord id.raw

/-- A list, written item by item. -/
def ofList (write : α → Json) (items : List α) : Json := .list (items.map write)

/-! ### Nodes -/

/-- Reads a node: its kind and its line. -/
def node? (read : Json → Option α) (x : Json) : Option (Node α) := do
  let f ← fields? ["kind", "line"] x
  return ⟨← f.required "kind" read, ← f.required "line" word?⟩

/-- Writes a node. -/
def ofNode (write : α → Json) (n : Node α) : Json :=
  .object [("kind", write n.kind), ("line", ofWord n.line)]

/-! ### Expressions -/

/-- The alternatives of an expression. -/
def expressionNames : List String :=
  ["Integer", "Char", "Bool", "Double", "Str", "Identifier", "Call", "Field", "Index", "Binary",
    "Unary", "Postfix", "SizeOf", "AlignOf", "Cast", "GlobalScope", "Assign", "Conditional",
    "Comma"]

/-- Reads an expression kind. -/
def exprKind? (o : Origin) (x : Json) : Option ExprKind := do
  let (name, inner) ← choice? expressionNames x
  let value ← inner
  match name with
  | "Integer" => (value.nat? UInt64.size).map fun n => .integer (.ofNat n)
  | "Char" => (value.nat? UInt8.size).map fun n => .char (.ofNat n)
  | "Bool" => value.bool?.map .bool
  | "Double" => value.float?.map .double
  | "Str" => value.text?.map .str
  | "Identifier" => value.text?.map .identifier
  | "Call" => do
    let f ← o.fields? ["callee", "args"] value
    return .call (← f.required "callee" exprId?) (← f.required "args" (list? exprId?))
  | "Field" => do
    let f ← o.fields? ["base", "field"] value
    return .field (← f.required "base" exprId?) (← f.required "field" Json.text?)
  | "Index" => do
    let f ← o.fields? ["base", "index"] value
    return .index (← f.required "base" exprId?) (← f.required "index" exprId?)
  | "Binary" => do
    let f ← o.fields? ["op", "left", "right"] value
    return .binary (← f.required "op" (named? binaryNames)) (← f.required "left" exprId?)
      (← f.required "right" exprId?)
  | "Unary" => do
    let f ← o.fields? ["op", "operand"] value
    return .unary (← f.required "op" (named? unaryNames)) (← f.required "operand" exprId?)
  | "Postfix" => do
    let f ← o.fields? ["op", "operand"] value
    return .step (← f.required "op" (named? stepNames)) (← f.required "operand" exprId?)
  | "SizeOf" => (specId? value).map .sizeOf
  | "AlignOf" => (specId? value).map .alignOf
  | "Cast" => do
    let f ← o.fields? ["ty", "operand"] value
    return .cast (← f.required "ty" specId?) (← f.required "operand" exprId?)
  | "GlobalScope" => (exprId? value).map .globalScope
  | "Assign" => do
    let f ← o.fields? ["target", "value"] value
    return .assign (← f.required "target" exprId?) (← f.required "value" exprId?)
  | "Conditional" => do
    let f ← o.fields? ["cond", "then", "otherwise"] value
    return .conditional (← f.required "cond" exprId?) (← f.required "then" exprId?)
      (← f.required "otherwise" exprId?)
  | "Comma" => do
    let f ← o.fields? ["first", "second"] value
    return .comma (← f.required "first" exprId?) (← f.required "second" exprId?)
  | _ => none

/-- Writes an expression kind. -/
def ofExprKind : ExprKind → Json
  | .integer v => holding "Integer" (.ofNat v.toNat)
  | .char c => holding "Char" (.ofNat c.toNat)
  | .bool b => holding "Bool" (.bool b)
  | .double x => holding "Double" (.ofFloat x)
  | .str s => holding "Str" (.text s)
  | .identifier name => holding "Identifier" (.text name)
  | .call callee args =>
    holding "Call" (.object [("callee", ofExprId callee), ("args", ofList ofExprId args)])
  | .field base name =>
    holding "Field" (.object [("base", ofExprId base), ("field", .text name)])
  | .index base position =>
    holding "Index" (.object [("base", ofExprId base), ("index", ofExprId position)])
  | .binary op left right =>
    holding "Binary" (.object [("op", .text (nameOf binaryNames op)), ("left", ofExprId left),
      ("right", ofExprId right)])
  | .unary op operand =>
    holding "Unary" (.object [("op", .text (nameOf unaryNames op)),
      ("operand", ofExprId operand)])
  | .step op operand =>
    holding "Postfix" (.object [("op", .text (nameOf stepNames op)),
      ("operand", ofExprId operand)])
  | .sizeOf spec => holding "SizeOf" (ofSpecId spec)
  | .alignOf spec => holding "AlignOf" (ofSpecId spec)
  | .cast spec operand =>
    holding "Cast" (.object [("ty", ofSpecId spec), ("operand", ofExprId operand)])
  | .globalScope operand => holding "GlobalScope" (ofExprId operand)
  | .assign target value =>
    holding "Assign" (.object [("target", ofExprId target), ("value", ofExprId value)])
  | .conditional cond yes no =>
    holding "Conditional" (.object [("cond", ofExprId cond), ("then", ofExprId yes),
      ("otherwise", ofExprId no)])
  | .comma first second =>
    holding "Comma" (.object [("first", ofExprId first), ("second", ofExprId second)])

/-! ### Declarations -/

/-- Reads a declaration of variables. -/
def variableDecl? (x : Json) : Option VariableDecl := do
  let f ← fields? ["storage", "ty", "declarators"] x
  return {
    storage := ← f.withDefault "storage" .normal (named? storageNames)
    spec := ← f.required "ty" specId?
    declarators := ← f.required "declarators" (list? declaratorId?) }

/-- Writes a declaration of variables. -/
def ofVariableDecl (v : VariableDecl) : Json :=
  .object [("storage", .text (nameOf storageNames v.storage)), ("ty", ofSpecId v.spec),
    ("declarators", ofList ofDeclaratorId v.declarators)]

/-- Reads a struct or union. -/
def aggregateDecl? (x : Json) : Option AggregateDecl := do
  let f ← fields? ["name", "fields"] x
  return {
    name := ← f.optional "name" Json.text?
    fields := ← f.optional "fields" (list? variableDecl?) }

/-- Writes a struct or union. -/
def ofAggregateDecl (a : AggregateDecl) : Json :=
  .object [("name", Json.ofOption .text a.name),
    ("fields", Json.ofOption (ofList ofVariableDecl) a.fields)]

/-- Reads a parameter. -/
def paramDecl? (x : Json) : Option ParamDecl := do
  let f ← fields? ["ty", "declarator"] x
  return {
    spec := ← f.required "ty" specId?
    declarator := ← f.optional "declarator" declaratorId? }

/-- Writes a parameter. -/
def ofParamDecl (p : ParamDecl) : Json :=
  .object [("ty", ofSpecId p.spec), ("declarator", Json.ofOption ofDeclaratorId p.declarator)]

/-- Reads a function. -/
def functionDecl? (x : Json) : Option FunctionDecl := do
  let f ← fields? ["storage", "ret", "declarator", "body"] x
  return {
    storage := ← f.withDefault "storage" .normal (named? storageNames)
    result := ← f.required "ret" specId?
    declarator := ← f.required "declarator" declaratorId?
    body := ← f.optional "body" stmtId? }

/-- Writes a function. -/
def ofFunctionDecl (d : FunctionDecl) : Json :=
  .object [("storage", .text (nameOf storageNames d.storage)), ("ret", ofSpecId d.result),
    ("declarator", ofDeclaratorId d.declarator), ("body", Json.ofOption ofStmtId d.body)]

/-- The alternatives of a type specifier. -/
def specNames : List String :=
  ["Named", "Struct", "Union", "BitField", "TypeOf", "Derived"]

/-- Reads a type specifier kind. -/
def specKind? (o : Origin) (x : Json) : Option SpecKind := do
  let (name, inner) ← choice? specNames x
  let value ← inner
  match name with
  | "Named" => value.text?.map .named
  | "Struct" => (aggregateDecl? value).map .struct
  | "Union" => (aggregateDecl? value).map .union
  | "BitField" => (word? value).map .bitField
  | "TypeOf" => (exprId? value).map .typeOf
  | "Derived" => do
    let f ← o.fields? ["base", "pointers"] value
    return .derived (← f.required "base" specId?) (← f.required "pointers" word?)
  | _ => none

/-- Writes a type specifier kind. -/
def ofSpecKind : SpecKind → Json
  | .named name => holding "Named" (.text name)
  | .struct decl => holding "Struct" (ofAggregateDecl decl)
  | .union decl => holding "Union" (ofAggregateDecl decl)
  | .bitField width => holding "BitField" (ofWord width)
  | .typeOf e => holding "TypeOf" (ofExprId e)
  | .derived base pointers =>
    holding "Derived" (.object [("base", ofSpecId base), ("pointers", ofWord pointers)])

/-- The alternatives of a declarator. -/
def declaratorNames : List String :=
  ["Abstract", "Identifier", "Pointer", "Array", "Function", "Init"]

/-- Reads a declarator kind. -/
def declaratorKind? (o : Origin) (x : Json) : Option DeclaratorKind := do
  let (name, inner) ← choice? declaratorNames x
  match name, inner with
  | "Abstract", inner => do
    nothing? inner
    return .anonymous
  | "Identifier", some value => value.text?.map .identifier
  | "Pointer", some value => do
    let f ← o.fields? ["inner", "depth"] value
    return .pointer (← f.required "inner" declaratorId?) (← f.required "depth" word?)
  | "Array", some value => do
    let f ← o.fields? ["inner", "dims"] value
    return .array (← f.required "inner" declaratorId?)
      (← f.required "dims" (list? (nullable? exprId?)))
  | "Function", some value => do
    let f ← o.fields? ["inner", "params", "variadic"] value
    return .function (← f.required "inner" declaratorId?)
      (← f.required "params" (list? paramDecl?)) (← f.required "variadic" Json.bool?)
  | "Init", some value => do
    let f ← o.fields? ["inner", "init"] value
    return .init (← f.required "inner" declaratorId?) (← f.required "init" exprId?)
  | _, _ => none

/-- Writes a declarator kind. -/
def ofDeclaratorKind : DeclaratorKind → Json
  | .identifier name => holding "Identifier" (.text name)
  | .anonymous => .text "Abstract"
  | .pointer inner depth =>
    holding "Pointer" (.object [("inner", ofDeclaratorId inner), ("depth", ofWord depth)])
  | .array inner dims =>
    holding "Array" (.object [("inner", ofDeclaratorId inner),
      ("dims", ofList (Json.ofOption ofExprId) dims)])
  | .function inner params variadic =>
    holding "Function" (.object [("inner", ofDeclaratorId inner),
      ("params", ofList ofParamDecl params), ("variadic", .bool variadic)])
  | .init inner value =>
    holding "Init" (.object [("inner", ofDeclaratorId inner), ("init", ofExprId value)])

/-! ### Statements -/

/-- The alternatives of a statement. -/
def statementNames : List String :=
  ["Break", "Continue", "Expression", "Block", "If", "While", "For", "Return", "Goto", "Label",
    "Variable", "Function", "Struct", "Union", "Typedef", "Delegate", "Namespace"]

/-- Reads a statement kind. -/
def stmtKind? (o : Origin) (x : Json) : Option StmtKind := do
  let (name, inner) ← choice? statementNames x
  match name, inner with
  | "Break", inner => do
    nothing? inner
    return .brk
  | "Continue", inner => do
    nothing? inner
    return .cont
  | "Expression", some value => (exprId? value).map .expression
  | "Block", some value => (list? stmtId? value).map .block
  | "If", some value => do
    let f ← o.fields? ["cond", "then", "otherwise"] value
    return .branch (← f.required "cond" exprId?) (← f.required "then" stmtId?)
      (← f.optional "otherwise" stmtId?)
  | "While", some value => do
    let f ← o.fields? ["cond", "body"] value
    return .whileLoop (← f.required "cond" exprId?) (← f.required "body" stmtId?)
  | "For", some value => do
    let f ← o.fields? ["init", "cond", "step", "body"] value
    return .forLoop (← f.optional "init" stmtId?) (← f.optional "cond" exprId?)
      (← f.optional "step" exprId?) (← f.required "body" stmtId?)
  | "Return", some value => (nullable? exprId? value).map .ret
  | "Goto", some value => value.text?.map .goto
  | "Label", some value => do
    let f ← o.fields? ["name", "body"] value
    return .label (← f.required "name" Json.text?) (← f.required "body" stmtId?)
  | "Variable", some value => (variableDecl? value).map .variable
  | "Function", some value => (functionDecl? value).map .function
  | "Struct", some value => (aggregateDecl? value).map .struct
  | "Union", some value => (aggregateDecl? value).map .union
  | "Typedef", some value => do
    let f ← o.fields? ["ty", "declarator"] value
    return .typedef (← f.required "ty" specId?) (← f.required "declarator" declaratorId?)
  | "Delegate", some value => do
    let f ← o.fields? ["ret", "name", "params", "variadic"] value
    return .delegate (← f.required "ret" specId?) (← f.required "name" Json.text?)
      (← f.required "params" (list? paramDecl?)) (← f.required "variadic" Json.bool?)
  | "Namespace", some value => do
    let f ← o.fields? ["name", "body"] value
    return .namespaceBlock (← f.required "name" Json.text?)
      (← f.required "body" (list? stmtId?))
  | _, _ => none

/-- Writes a statement kind. -/
def ofStmtKind : StmtKind → Json
  | .expression e => holding "Expression" (ofExprId e)
  | .block body => holding "Block" (ofList ofStmtId body)
  | .branch cond yes no =>
    holding "If" (.object [("cond", ofExprId cond), ("then", ofStmtId yes),
      ("otherwise", Json.ofOption ofStmtId no)])
  | .whileLoop cond body =>
    holding "While" (.object [("cond", ofExprId cond), ("body", ofStmtId body)])
  | .forLoop init cond step body =>
    holding "For" (.object [("init", Json.ofOption ofStmtId init),
      ("cond", Json.ofOption ofExprId cond), ("step", Json.ofOption ofExprId step),
      ("body", ofStmtId body)])
  | .ret value => holding "Return" (Json.ofOption ofExprId value)
  | .brk => .text "Break"
  | .cont => .text "Continue"
  | .goto label => holding "Goto" (.text label)
  | .label name body => holding "Label" (.object [("name", .text name), ("body", ofStmtId body)])
  | .variable decl => holding "Variable" (ofVariableDecl decl)
  | .function decl => holding "Function" (ofFunctionDecl decl)
  | .struct decl => holding "Struct" (ofAggregateDecl decl)
  | .union decl => holding "Union" (ofAggregateDecl decl)
  | .typedef spec declarator =>
    holding "Typedef" (.object [("ty", ofSpecId spec), ("declarator", ofDeclaratorId declarator)])
  | .delegate result name params variadic =>
    holding "Delegate" (.object [("ret", ofSpecId result), ("name", .text name),
      ("params", ofList ofParamDecl params), ("variadic", .bool variadic)])
  | .namespaceBlock name body =>
    holding "Namespace" (.object [("name", .text name), ("body", ofList ofStmtId body)])

/-! ### Trees -/

/-- Reads a list of nodes into an arena. -/
def arena? (read : Json → Option α) (x : Json) : Option (Array (Node α)) :=
  (list? (node? read) x).map List.toArray

/-- Reads a tree. -/
def decode? (o : Origin) (x : Json) : Option Tree := do
  let f ← fields? ["file", "exprs", "stmts", "type_specs", "declarators", "externs", "root"] x
  return {
    file := ← f.withDefault "file" "" Json.text?
    exprs := ← f.withDefault "exprs" #[] (arena? (exprKind? o))
    stmts := ← f.withDefault "stmts" #[] (arena? (stmtKind? o))
    specs := ← f.withDefault "type_specs" #[] (arena? (specKind? o))
    declarators := ← f.withDefault "declarators" #[] (arena? (declaratorKind? o))
    externs := ← f.withDefault "externs" [] (list? stmtId?)
    root := ← f.withDefault "root" [] (list? stmtId?) }

/-- Writes a tree in full. -/
def encode (t : Tree) : Json :=
  .object [("file", .text t.file),
    ("exprs", ofList (ofNode ofExprKind) t.exprs.toList),
    ("stmts", ofList (ofNode ofStmtKind) t.stmts.toList),
    ("type_specs", ofList (ofNode ofSpecKind) t.specs.toList),
    ("declarators", ofList (ofNode ofDeclaratorKind) t.declarators.toList),
    ("externs", ofList ofStmtId t.externs),
    ("root", ofList ofStmtId t.root)]

end TreeFlow.Format
