/-!
# Syntax trees

A compilation unit is an arena: four lists hold its expressions, statements, type specifiers and
declarators, and a node refers to its children by their position in those lists. A tree comes
from elsewhere, so a handle may point at anything; `Tree.Handles` says which trees are sound.

Every node carries the line it was written on.
-/

namespace TreeFlow

/-! ### Handles -/

/-- The position of an expression in its tree. -/
structure ExprId where
  raw : UInt32
  deriving DecidableEq, Repr, Inhabited

/-- The position of a statement in its tree. -/
structure StmtId where
  raw : UInt32
  deriving DecidableEq, Repr, Inhabited

/-- The position of a type specifier in its tree. -/
structure SpecId where
  raw : UInt32
  deriving DecidableEq, Repr, Inhabited

/-- The position of a declarator in its tree. -/
structure DeclaratorId where
  raw : UInt32
  deriving DecidableEq, Repr, Inhabited

namespace ExprId

/-- The handle of the `n`th expression. -/
def ofNat (n : Nat) : ExprId := ⟨.ofNat n⟩

/-- The position that the handle stands for. -/
def index (id : ExprId) : Nat := id.raw.toNat

/-- The handle as it appears in messages. -/
def text (id : ExprId) : String := s!"e{id.index}"

end ExprId

namespace StmtId

/-- The handle of the `n`th statement. -/
def ofNat (n : Nat) : StmtId := ⟨.ofNat n⟩

/-- The position that the handle stands for. -/
def index (id : StmtId) : Nat := id.raw.toNat

/-- The handle as it appears in messages. -/
def text (id : StmtId) : String := s!"s{id.index}"

end StmtId

namespace SpecId

/-- The handle of the `n`th type specifier. -/
def ofNat (n : Nat) : SpecId := ⟨.ofNat n⟩

/-- The position that the handle stands for. -/
def index (id : SpecId) : Nat := id.raw.toNat

/-- The handle as it appears in messages. -/
def text (id : SpecId) : String := s!"t{id.index}"

end SpecId

namespace DeclaratorId

/-- The handle of the `n`th declarator. -/
def ofNat (n : Nat) : DeclaratorId := ⟨.ofNat n⟩

/-- The position that the handle stands for. -/
def index (id : DeclaratorId) : Nat := id.raw.toNat

/-- The handle as it appears in messages. -/
def text (id : DeclaratorId) : String := s!"d{id.index}"

end DeclaratorId

/-- Something written on a line. -/
structure Node (α : Type) where
  kind : α
  line : UInt32
  deriving DecidableEq, Repr, Inhabited

/-! ### Expressions -/

/-- Operators with two operands. -/
inductive BinaryOp where
  | add | sub | mul | div | mod
  | shl | shr
  | bitAnd | bitOr | bitXor
  | eq | ne | lt | le | gt | ge
  | logicalAnd | logicalOr
  deriving DecidableEq, Repr, Inhabited

namespace BinaryOp

/-- Does the operator compare its operands? -/
def isComparison : BinaryOp → Bool
  | .eq | .ne | .lt | .le | .gt | .ge => true
  | _ => false

/-- Does the operator accept a pointer on the left and an integer on the right? -/
def allowsPointerOffset : BinaryOp → Bool
  | .add | .sub => true
  | _ => false

/-- The operator as it is written. -/
def text : BinaryOp → String
  | .add => "+" | .sub => "-" | .mul => "*" | .div => "/" | .mod => "%"
  | .shl => "<<" | .shr => ">>"
  | .bitAnd => "&" | .bitOr => "|" | .bitXor => "^"
  | .eq => "==" | .ne => "!=" | .lt => "<" | .le => "<=" | .gt => ">" | .ge => ">="
  | .logicalAnd => "&&" | .logicalOr => "||"

end BinaryOp

/-- Operators in front of their operand. -/
inductive UnaryOp where
  | addressOf | deref | negate | plus | not | bitNot | preIncrement | preDecrement
  deriving DecidableEq, Repr, Inhabited

namespace UnaryOp

/-- Does the operator change its operand by one? -/
def isStep : UnaryOp → Bool
  | .preIncrement | .preDecrement => true
  | _ => false

/-- The operator as it is written. -/
def text : UnaryOp → String
  | .addressOf => "&" | .deref => "*" | .negate => "-" | .plus => "+"
  | .not => "!" | .bitNot => "~" | .preIncrement => "++" | .preDecrement => "--"

end UnaryOp

/-- Operators behind their operand. -/
inductive StepOp where
  | increment | decrement
  deriving DecidableEq, Repr, Inhabited

/-- The operator as it is written. -/
def StepOp.text : StepOp → String
  | .increment => "++"
  | .decrement => "--"

/-- What an expression is. -/
inductive ExprKind where
  | integer (value : UInt64)
  | char (code : UInt8)
  | bool (value : Bool)
  | double (value : Float)
  | str (text : String)
  | identifier (name : String)
  | call (callee : ExprId) (args : List ExprId)
  | field (base : ExprId) (name : String)
  | index (base position : ExprId)
  | binary (op : BinaryOp) (left right : ExprId)
  | unary (op : UnaryOp) (operand : ExprId)
  | step (op : StepOp) (operand : ExprId)
  | sizeOf (spec : SpecId)
  | alignOf (spec : SpecId)
  | cast (spec : SpecId) (operand : ExprId)
  /-- Looks up the name inside the operand from the global namespace on. -/
  | globalScope (operand : ExprId)
  | assign (target value : ExprId)
  | conditional (cond yes no : ExprId)
  | comma (first second : ExprId)
  deriving Inhabited

/-- An expression. -/
abbrev Expr := Node ExprKind

/-- Does the expression yield a value that was computed rather than read out of storage, so that
it can never be the target of an assignment? -/
def ExprKind.isComputed : ExprKind → Bool
  | .binary .. | .step .. => true
  | .unary op _ => op.isStep
  | _ => false

/-! ### Declarations -/

/-- The storage class in front of a declaration. -/
inductive Storage where
  | normal | static | foreign
  deriving DecidableEq, Repr, Inhabited

/-- Variables of one type: `storage type d1, d2 = e, ...;`. -/
structure VariableDecl where
  storage : Storage
  spec : SpecId
  declarators : List DeclaratorId
  deriving DecidableEq, Repr, Inhabited

/-- A struct or union. Without a name it is anonymous, without fields only declared. -/
structure AggregateDecl where
  name : Option String
  fields : Option (List VariableDecl)
  deriving DecidableEq, Repr, Inhabited

/-- A parameter of a function. -/
structure ParamDecl where
  spec : SpecId
  declarator : Option DeclaratorId
  deriving DecidableEq, Repr, Inhabited

/-- A function. Its declarator has to come out as a function type; a definition has a body. -/
structure FunctionDecl where
  storage : Storage
  result : SpecId
  declarator : DeclaratorId
  body : Option StmtId
  deriving DecidableEq, Repr, Inhabited

/-- A type as it is written, before names and dimensions are known. -/
inductive SpecKind where
  /-- The name of a primitive type or a typedef. -/
  | named (name : String)
  | struct (decl : AggregateDecl)
  | union (decl : AggregateDecl)
  /-- An integer of a given width, `int:N`. -/
  | bitField (width : UInt32)
  | typeOf (expr : ExprId)
  /-- A type followed by some stars. -/
  | derived (base : SpecId) (pointers : UInt32)
  deriving DecidableEq, Repr, Inhabited

/-- A type specifier. -/
abbrev Spec := Node SpecKind

/-- A link of a declarator. Links wrap each other from the outside in: the outermost one is
applied to the base type first, and the name sits at the centre. -/
inductive DeclaratorKind where
  | identifier (name : String)
  /-- Ends a declarator without a name, as in parameters and type names. -/
  | anonymous
  | pointer (inner : DeclaratorId) (depth : UInt32)
  /-- Array dimensions `inner[d0][d1]...`; one that is left out is written `[]`. -/
  | array (inner : DeclaratorId) (dims : List (Option ExprId))
  | function (inner : DeclaratorId) (params : List ParamDecl) (variadic : Bool)
  | init (inner : DeclaratorId) (value : ExprId)
  deriving DecidableEq, Repr, Inhabited

/-- A declarator. -/
abbrev Declarator := Node DeclaratorKind

/-! ### Statements -/

/-- What a statement or declaration is. -/
inductive StmtKind where
  | expression (expr : ExprId)
  | block (body : List StmtId)
  | branch (cond : ExprId) (yes : StmtId) (no : Option StmtId)
  | whileLoop (cond : ExprId) (body : StmtId)
  | forLoop (init : Option StmtId) (cond step : Option ExprId) (body : StmtId)
  | ret (value : Option ExprId)
  | brk
  | cont
  | goto (label : String)
  | label (name : String) (body : StmtId)
  | variable (decl : VariableDecl)
  | function (decl : FunctionDecl)
  | struct (decl : AggregateDecl)
  | union (decl : AggregateDecl)
  | typedef (spec : SpecId) (declarator : DeclaratorId)
  /-- Names a type of pointers to functions. -/
  | delegate (result : SpecId) (name : String) (params : List ParamDecl) (variadic : Bool)
  | namespaceBlock (name : String) (body : List StmtId)
  deriving DecidableEq, Repr, Inhabited

/-- A statement. -/
abbrev Stmt := Node StmtKind

/-- Is the statement a declaration, lowered where it stands even at the top level? -/
def StmtKind.isDeclaration : StmtKind → Bool
  | .variable _ | .function _ | .struct _ | .union _ | .typedef .. | .delegate ..
  | .namespaceBlock .. => true
  | _ => false

/-! ### The arena -/

/-- The nodes of one compilation unit. -/
structure Tree where
  /-- The name of the file the tree was read from. -/
  file : String := ""
  exprs : Array Expr := #[]
  stmts : Array Stmt := #[]
  specs : Array Spec := #[]
  declarators : Array Declarator := #[]
  /-- Declarations that are lowered before the top level. -/
  externs : List StmtId := []
  /-- The top level. -/
  root : List StmtId := []
  deriving Inhabited

namespace Tree

/-- The expression at a handle. -/
def expr? (t : Tree) (id : ExprId) : Option Expr := t.exprs[id.index]?

/-- The statement at a handle. -/
def stmt? (t : Tree) (id : StmtId) : Option Stmt := t.stmts[id.index]?

/-- The type specifier at a handle. -/
def spec? (t : Tree) (id : SpecId) : Option Spec := t.specs[id.index]?

/-- The declarator at a handle. -/
def declarator? (t : Tree) (id : DeclaratorId) : Option Declarator := t.declarators[id.index]?

/-- The number of nodes other than statements: no chain of distinct ones is longer. -/
def exprSize (t : Tree) : Nat := t.exprs.size + t.specs.size + t.declarators.size

end Tree

end TreeFlow
