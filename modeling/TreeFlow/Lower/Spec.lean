import TreeFlow.Lower.Declarator

/-!
# Type specifiers

Structs and unions with a body are defined where they are written, whether as a statement or in
the place of a type. The tag is bound before the fields are looked at, so a field may point back
at the aggregate it belongs to.
-/

namespace TreeFlow.Lower

/-- The widest bit field that draws no warning. -/
def widestBitField : Nat := 128

/-- A type by its name. Primitive names win over others. A name known only as a tag gets a hint. -/
def namedType (name : String) (line : Nat) : Lower Ty := do
  match Ty.primitive? name with
  | some ty => return ty
  | none =>
    let scopes ← read (·.scopes)
    match scopes.type? name with
    | some ty => return ty
    | none =>
      if (scopes.tag? .struct name).isSome then failWith (.expectedStructKeyword name) line
      else if (scopes.tag? .union name).isSome then failWith (.expectedUnionKeyword name) line
      else failWith (.unknownTypeName name) line

/-! ### Tags -/

/-- The diagnostic for a tag that stands for nothing. -/
def unknownTag (name : String) : AggregateKind → DiagnosticKind
  | .struct => .unknownStructType name
  | .union => .unknownUnionType name

/-- The diagnostic for a second body of a tag. -/
def redefinedTag (name : String) : AggregateKind → DiagnosticKind
  | .struct => .redefinitionOfStruct name
  | .union => .redefinitionOfUnion name

/-- The diagnostic for a field with an initializer. -/
def initializedField : AggregateKind → DiagnosticKind
  | .struct => .initializerCannotBeInStruct
  | .union => .initializerCannotBeInUnion

/-- Declares a new aggregate and binds its tag. -/
def declareTag (kind : AggregateKind) (name : String) : Lower Ty := do
  let scopes ← read (·.scopes)
  let ty ← withTypes (·.declare kind (scopes.qualify name))
  match ty.key? with
  | some key => updateScopes (·.defineTag kind name key)
  | none => pure ()
  return ty

/-- A tag without a body. What the tag stands for in this scope already is kept. -/
def declareAggregate (kind : AggregateKind) (name : String) : Lower Ty := do
  match (← read (·.scopes)).tagInScope? kind name with
  | some key => return kind.ty key
  | none => declareTag kind name

/-- The aggregate that a body belongs to. A tag that has a body in this scope gets no other. -/
def aggregateToDefine (kind : AggregateKind) (name : Option String) (line : Nat) : Lower Ty := do
  match name with
  | none => withTypes (·.declare kind "anon")
  | some name =>
    match (← read (·.scopes)).tagInScope? kind name with
    | none => declareTag kind name
    | some key =>
      if (← types).isDefined key then failWith (redefinedTag name kind) line
      else return kind.ty key

/-! ### Fields -/

/-- A field. It must not be an aggregate whose fields are not known. -/
def field (sub : Descent) (kind : AggregateKind) (base : Ty) (id : DeclaratorId) : Lower Field := do
  let line := (← declarator id).line.toNat
  let info ← declare sub .field id base
  if info.init.isSome then report (initializedField kind) line
  if (info.ty.key?.map (← types).isDefined).getD true then return ⟨info.name.getD "", info.ty⟩
  else failWith (.incompleteTypeUse (← describe info.ty)) line

/-- The fields of one declaration; those that cannot be lowered are left out. -/
def fieldsOf (sub : Descent) (kind : AggregateKind) (decl : VariableDecl) : Lower (List Field) := do
  let base ← sub.spec decl.spec
  return (← each (field sub kind base) decl.declarators).filterMap id

/-- Defines an aggregate. -/
def defineAggregate (sub : Descent) (kind : AggregateKind) (decl : AggregateDecl) (line : Nat) :
    Lower Ty := do
  let ty ← aggregateToDefine kind decl.name line
  let found ← each (fieldsOf sub kind) (decl.fields.getD [])
  match (← types).define (ty.key?.getD "") (found.filterMap id).flatten with
  | .ok table => withTypes fun _ => (ty, table)
  | .error fault => failWith (.internal fault.message) line

/-- An aggregate in the place of a type. -/
def aggregateType (sub : Descent) (kind : AggregateKind) (decl : AggregateDecl) (line : Nat) :
    Lower Ty := do
  if decl.fields.isSome then defineAggregate sub kind decl line
  else
    match decl.name with
    | none => failWith (.internal "aggregate without a name or body") line
    | some name =>
      match (← read (·.scopes)).tag? kind name with
      | some key => return kind.ty key
      | none => failWith (unknownTag name kind) line

/-! ### Specifiers -/

/-- An integer with a width of its own. -/
def bitFieldType (width line : Nat) : Lower Ty := do
  if width = 0 then failWith (.zeroOrOversizedBitfieldWidth width) line
  else
    if widestBitField < width then report (.zeroOrOversizedBitfieldWidth width) line
    return .bitField width

/-- One type specifier. -/
def specWith (sub : Descent) (id : SpecId) : Lower Ty := do
  let s ← spec id
  let line := s.line.toNat
  match s.kind with
  | .named name => namedType name line
  | .struct decl => aggregateType sub .struct decl line
  | .union decl => aggregateType sub .union decl line
  | .bitField width => bitFieldType width.toNat line
  | .typeOf e => sub.typeOf e
  | .derived base pointers => return (← sub.spec base).pointers pointers.toNat

end TreeFlow.Lower
