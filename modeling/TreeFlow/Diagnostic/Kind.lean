import TreeFlow.Json.Basic

/-!
# Kinds of diagnostics

Each problem that can be found in a unit is one kind. Its severity, and what happens once it has
been reported, are fixed by the kind, and so is its wording.
-/

namespace TreeFlow

/-- How bad a problem is. -/
inductive Severity where
  | note | warning | error
  deriving DecidableEq, Repr, Inhabited

namespace Severity

/-- The severity in front of a message. -/
def text : Severity → String
  | note => "note"
  | warning => "warning"
  | error => "error"

/-- The severity in a record. -/
def name : Severity → String
  | note => "Note"
  | warning => "Warning"
  | error => "Error"

end Severity

/-- What happens once a diagnostic has been reported. -/
inductive Action where
  /-- Keep going. -/
  | none
  /-- End with a failure code. -/
  | exit
  /-- Stop at once. -/
  | abort
  deriving DecidableEq, Repr, Inhabited

namespace Action

/-- The action in a record. -/
def name : Action → String
  | none => "None"
  | exit => "Exit"
  | abort => "Abort"

/-- The actions, ordered by how drastic they are. -/
def rank : Action → Nat
  | none => 0
  | exit => 1
  | abort => 2

/-- The more drastic one of two actions. -/
def max (a b : Action) : Action := if a.rank < b.rank then b else a

end Action

/-- A problem in a unit. -/
inductive DiagnosticKind where
  -- types
  | unknownTypeName (name : String)
  | expectedStructKeyword (name : String)
  | expectedUnionKeyword (name : String)
  | zeroOrOversizedBitfieldWidth (width : Nat)
  | unknownStructType (name : String)
  | unknownUnionType (name : String)
  | incompleteTypeUse (name : String)
  | invalidUseOfVoid
  | nonConstantArraySize
  | sizeOfVoid
  | alignOfVoid
  | typeTooLarge (name : String)
  -- expressions
  | undeclaredIdentifier (name : String)
  | callingNonFunctionValue
  | functionCallAsLValue
  | unableToMatchArguments
  | getNonStructureField
  | failedToFindFieldName (name : String)
  | getNonArrayElement
  | cannotTakeAddressOfNonStorageValue
  | indirectionRequiresPointer (ty : String)
  | unassignableLValue
  | incDecUnassignableValue
  | unknownBinaryOperation
  | unknownUnaryOperation
  | fpValueWithShiftOperation
  | incompatibleTypes (left right : String)
  -- statements
  | breakWithoutIteration
  | continueWithoutIteration
  | missingReturnStatement
  | redefinitionOfLabel (name : String)
  -- declarations
  | nestingFunctionNotAllowed
  | redefinitionOfStruct (name : String)
  | redefinitionOfUnion (name : String)
  | initializerCannotBeInStruct
  | initializerCannotBeInUnion
  | redefinitionOfFunction (name : String)
  /-- The position is that of the first mismatch; the return type is at zero. -/
  | conflictingType (name : String) (position : Nat)
  | voidTypeParam
  | voidMustBeOnlyParam
  | uselessParam
  | nonConstantInitializer
  | externalVariableIsNotConstant
  | unsupportedArrayInitializer
  | invalidMainFunctionReturnType
  -- execution
  | missingMainFunction
  | mainTakesArguments
  /-- Lowering reached a state that it cannot recover from. -/
  | internal (message : String)
  deriving DecidableEq, Repr, Inhabited

namespace DiagnosticKind

/-! ### Policy -/

/-- How bad a kind is, and what happens once it has been reported. -/
def policy : DiagnosticKind → Severity × Action
  | invalidMainFunctionReturnType => (.note, .none)
  | zeroOrOversizedBitfieldWidth (_ + 1) => (.warning, .none)
  | initializerCannotBeInStruct | initializerCannotBeInUnion | uselessParam
  | nonConstantInitializer | missingReturnStatement | missingMainFunction
  | mainTakesArguments => (.warning, .none)
  | internal _ => (.error, .abort)
  | _ => (.error, .exit)

/-- How bad a kind is. -/
def severity (k : DiagnosticKind) : Severity := k.policy.1

/-- What happens once a kind has been reported. -/
def action (k : DiagnosticKind) : Action := k.policy.2

/-! ### Wording -/

/-- The ending of an ordinal number. -/
def ordinalEnding (n : Nat) : String :=
  if 11 ≤ n % 100 ∧ n % 100 ≤ 13 then "th"
  else if n % 10 = 1 then "st"
  else if n % 10 = 2 then "nd"
  else if n % 10 = 3 then "rd"
  else "th"

/-- A name in double quotes. -/
def inQuotes (name : String) : String := "\"" ++ name ++ "\""

/-- The message of a kind. -/
def message : DiagnosticKind → String
  | unknownTypeName name => "Unknown type name " ++ inQuotes name
  | expectedStructKeyword name =>
    "Type " ++ inQuotes name ++ " is suppose to be structure type (add struct keyword)"
  | expectedUnionKeyword name =>
    "Type " ++ inQuotes name ++ " is suppose to be union type (add union keyword)"
  | zeroOrOversizedBitfieldWidth 0 => "Integer type with size of zero"
  | zeroOrOversizedBitfieldWidth width => s!"Too huge integer (with size of {width})"
  | unknownStructType name => "Unknown structure type name " ++ inQuotes name
  | unknownUnionType name => "Unknown union type name " ++ inQuotes name
  | incompleteTypeUse name => "Invalid use of incompelete type " ++ inQuotes name
  | invalidUseOfVoid => "Invalid use of incompelete type void"
  | nonConstantArraySize => "Non-constant array size"
  | sizeOfVoid => "Cannot get size of void"
  | alignOfVoid => "Cannot get align of void"
  | typeTooLarge name => "Type " ++ inQuotes name ++ " is too large"
  | undeclaredIdentifier name => "Undeclared identifier " ++ inQuotes name
  | callingNonFunctionValue => "Calling non-function value"
  | functionCallAsLValue => "Function call cannot be a lvalue"
  | unableToMatchArguments => "Cannot match any function for function call"
  | getNonStructureField => "Get non-structure type field"
  | failedToFindFieldName name => "Failed to find field name " ++ inQuotes name
  | getNonArrayElement => "Get non-array value's element"
  | cannotTakeAddressOfNonStorageValue => "Get non-resident value's address"
  | indirectionRequiresPointer ty =>
    "Indirection requires pointer operand (" ++ inQuotes ty ++ " invalid)"
  | unassignableLValue => "Unassignable left value"
  | incDecUnassignableValue => "Use inc/dec operator on unassignable value"
  | unknownBinaryOperation => "Unknown binary operation"
  | unknownUnaryOperation => "Unknown unary operation"
  | fpValueWithShiftOperation => "FP value with shift operation (cast to int first?)"
  | incompatibleTypes left right =>
    "Incompatible types " ++ inQuotes left ++ " and " ++ inQuotes right
  | breakWithoutIteration =>
    "Used break statement without iteration statement or switch statement"
  | continueWithoutIteration => "Used continue statement without iteration statement"
  | missingReturnStatement => "Missing return statement"
  | redefinitionOfLabel name => "Redefinition of label " ++ inQuotes name
  | nestingFunctionNotAllowed => "Nesting function is not allowed"
  | redefinitionOfStruct name => "Redefinition of struct " ++ inQuotes name
  | redefinitionOfUnion name => "Redefinition of union " ++ inQuotes name
  | initializerCannotBeInStruct => "Field in structure cannot have initializer (ignore)"
  | initializerCannotBeInUnion => "Field in union cannot have initializer (ignore)"
  | redefinitionOfFunction name => "Redefinition of function " ++ inQuotes name
  | conflictingType name 0 => "Conflicting type for " ++ inQuotes name ++ " (the return type)"
  | conflictingType name position =>
    "Conflicting type for " ++ inQuotes name ++
      s!" (the {position}{ordinalEnding position} argument)"
  | voidTypeParam => "Parameter with void type"
  | voidMustBeOnlyParam => "void must be the first and only parameter if specified"
  | uselessParam => "Useless parameter without a name"
  | nonConstantInitializer =>
    "Non-constant initializer will be initialized in constructor which can't work in JIT mode"
  | externalVariableIsNotConstant =>
    "Initializer of external variable is not a compiler-time constant"
  | unsupportedArrayInitializer => "Unsupport integer bit width for data array"
  | invalidMainFunctionReturnType => "main function return type is supposed to be int"
  | missingMainFunction => "The function named \"main\" is missing, exiting..."
  | mainTakesArguments =>
    "The function named \"main\" takes arguments, which cannot be passed"
  | internal message => "Internal error: " ++ message

/-! ### Records -/

/-- The name of a kind in a record. -/
def name : DiagnosticKind → String
  | unknownTypeName _ => "UnknownTypeName"
  | expectedStructKeyword _ => "ExpectedStructKeyword"
  | expectedUnionKeyword _ => "ExpectedUnionKeyword"
  | zeroOrOversizedBitfieldWidth _ => "ZeroOrOversizedBitfieldWidth"
  | unknownStructType _ => "UnknownStructType"
  | unknownUnionType _ => "UnknownUnionType"
  | incompleteTypeUse _ => "IncompleteTypeUse"
  | invalidUseOfVoid => "InvalidUseOfVoid"
  | nonConstantArraySize => "NonConstantArraySize"
  | sizeOfVoid => "SizeOfVoid"
  | alignOfVoid => "AlignOfVoid"
  | typeTooLarge _ => "TypeTooLarge"
  | undeclaredIdentifier _ => "UndeclaredIdentifier"
  | callingNonFunctionValue => "CallingNonFunctionValue"
  | functionCallAsLValue => "FunctionCallAsLValue"
  | unableToMatchArguments => "UnableToMatchArguments"
  | getNonStructureField => "GetNonStructureField"
  | failedToFindFieldName _ => "FailedToFindFieldName"
  | getNonArrayElement => "GetNonArrayElement"
  | cannotTakeAddressOfNonStorageValue => "CannotTakeAddressOfNonStorageValue"
  | indirectionRequiresPointer _ => "IndirectionRequiresPointer"
  | unassignableLValue => "UnassignableLValue"
  | incDecUnassignableValue => "IncDecUnassignableValue"
  | unknownBinaryOperation => "UnknownBinaryOperation"
  | unknownUnaryOperation => "UnknownUnaryOperation"
  | fpValueWithShiftOperation => "FPValueWithShiftOperation"
  | incompatibleTypes .. => "IncompatibleTypes"
  | breakWithoutIteration => "BreakWithoutIteration"
  | continueWithoutIteration => "ContinueWithoutIteration"
  | missingReturnStatement => "MissingReturnStatement"
  | redefinitionOfLabel _ => "RedefinitionOfLabel"
  | nestingFunctionNotAllowed => "NestingFunctionNotAllowed"
  | redefinitionOfStruct _ => "RedefinitionOfStruct"
  | redefinitionOfUnion _ => "RedefinitionOfUnion"
  | initializerCannotBeInStruct => "InitializerCannotBeInStruct"
  | initializerCannotBeInUnion => "InitializerCannotBeInUnion"
  | redefinitionOfFunction _ => "RedefinitionOfFunction"
  | conflictingType .. => "ConflictingType"
  | voidTypeParam => "VoidTypeParam"
  | voidMustBeOnlyParam => "VoidMustBeOnlyParam"
  | uselessParam => "UselessParam"
  | nonConstantInitializer => "NonConstantInitializer"
  | externalVariableIsNotConstant => "ExternalVariableIsNotConstant"
  | unsupportedArrayInitializer => "UnsupportedArrayInitializer"
  | invalidMainFunctionReturnType => "InvalidMainFunctionReturnType"
  | missingMainFunction => "MissingMainFunction"
  | mainTakesArguments => "MainTakesArguments"
  | internal _ => "Internal"

/-- What a kind holds, in a record. -/
def payload? : DiagnosticKind → Option Json
  | unknownTypeName s | expectedStructKeyword s | expectedUnionKeyword s | unknownStructType s
  | unknownUnionType s | incompleteTypeUse s | typeTooLarge s | undeclaredIdentifier s
  | failedToFindFieldName s | indirectionRequiresPointer s | redefinitionOfLabel s
  | redefinitionOfStruct s | redefinitionOfUnion s | redefinitionOfFunction s
  | internal s => some (.text s)
  | zeroOrOversizedBitfieldWidth n => some (.ofNat n)
  | incompatibleTypes l r => some (.list [.text l, .text r])
  | conflictingType s n => some (.list [.text s, .ofNat n])
  | _ => none

/-- A kind in a record: its name, with what it holds. -/
def toJson (k : DiagnosticKind) : Json :=
  match k.payload? with
  | none => .text k.name
  | some payload => .object [(k.name, payload)]

/-- The kinds that hold nothing. -/
def plain : List DiagnosticKind :=
  [invalidUseOfVoid, nonConstantArraySize, sizeOfVoid, alignOfVoid, callingNonFunctionValue,
    functionCallAsLValue, unableToMatchArguments, getNonStructureField, getNonArrayElement,
    cannotTakeAddressOfNonStorageValue, unassignableLValue, incDecUnassignableValue,
    unknownBinaryOperation, unknownUnaryOperation, fpValueWithShiftOperation,
    breakWithoutIteration, continueWithoutIteration, missingReturnStatement,
    nestingFunctionNotAllowed, initializerCannotBeInStruct, initializerCannotBeInUnion,
    voidTypeParam, voidMustBeOnlyParam, uselessParam, nonConstantInitializer,
    externalVariableIsNotConstant, unsupportedArrayInitializer, invalidMainFunctionReturnType,
    missingMainFunction, mainTakesArguments]

/-- The kinds that hold a name. -/
def ofName : List (String → DiagnosticKind) :=
  [unknownTypeName, expectedStructKeyword, expectedUnionKeyword, unknownStructType,
    unknownUnionType, incompleteTypeUse, typeTooLarge, undeclaredIdentifier,
    failedToFindFieldName, indirectionRequiresPointer, redefinitionOfLabel,
    redefinitionOfStruct, redefinitionOfUnion, redefinitionOfFunction, internal]

/-- Reads a kind from a record. -/
def ofJson? : Json → Option DiagnosticKind
  | .text name => plain.find? (·.name == name)
  | .object [(name, .text s)] => (ofName.map (· s)).find? (·.name == name)
  | .object [("ZeroOrOversizedBitfieldWidth", x)] =>
    (x.nat? UInt32.size).map zeroOrOversizedBitfieldWidth
  | .object [("IncompatibleTypes", .list [.text l, .text r])] => some (incompatibleTypes l r)
  | .object [("ConflictingType", .list [.text s, n])] =>
    (n.nat? UInt64.size).map (conflictingType s)
  | _ => none

end DiagnosticKind

end TreeFlow
