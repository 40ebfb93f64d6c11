import TreeFlow.Flow.Basic
import TreeFlow.Number.Shortest
import TreeFlow.Text.Quoted

/-!
# The text of flow graphs

How modules, functions and their parts are written. A function is a head line, then each block
with its label, its instructions and its terminator; an instruction that yields a value is
preceded by its position and type.
-/

namespace TreeFlow

/-- Function positions. -/
def FuncId.text (id : FuncId) : String := s!"fn{id.index}"

/-- Global positions. -/
def GlobalId.text (id : GlobalId) : String := s!"@g{id.index}"

/-- Block positions. -/
def BlockId.text (id : BlockId) : String := s!"BB{id.index}"

/-- Instruction positions. -/
def InstId.text (id : InstId) : String := s!"%{id.index}"

/-- The name of an arithmetic operation. -/
def BinOp.text : BinOp → String
  | .add => "add" | .sub => "sub" | .mul => "mul" | .sdiv => "sdiv" | .srem => "srem"
  | .shl => "shl" | .ashr => "ashr" | .and => "and" | .or => "or" | .xor => "xor"
  | .fadd => "fadd" | .fsub => "fsub" | .fmul => "fmul" | .fdiv => "fdiv" | .frem => "frem"

/-- The name of a comparison. -/
def CmpOp.text : CmpOp → String
  | .eq => "eq" | .ne => "ne" | .slt => "slt" | .sle => "sle" | .sgt => "sgt" | .sge => "sge"
  | .oeq => "oeq" | .one => "one" | .olt => "olt" | .ole => "ole" | .ogt => "ogt"
  | .oge => "oge"

/-- The name of a conversion. -/
def CastOp.text : CastOp → String
  | .trunc => "trunc" | .zext => "zext" | .sext => "sext" | .fptrunc => "fptrunc"
  | .fpext => "fpext" | .fptosi => "fptosi" | .sitofp => "sitofp" | .ptrtoint => "ptrtoint"
  | .inttoptr => "inttoptr" | .bitcast => "bitcast"

/-- The arithmetic operation with a name. -/
def BinOp.ofText? (name : String) : Option BinOp :=
  [BinOp.add, .sub, .mul, .sdiv, .srem, .shl, .ashr, .and, .or, .xor, .fadd, .fsub, .fmul, .fdiv,
    .frem].find? (·.text == name)

/-- The comparison with a name. -/
def CmpOp.ofText? (name : String) : Option CmpOp :=
  [CmpOp.eq, .ne, .slt, .sle, .sgt, .sge, .oeq, .one, .olt, .ole, .ogt, .oge].find?
    (·.text == name)

/-- The conversion with a name. -/
def CastOp.ofText? (name : String) : Option CastOp :=
  [CastOp.trunc, .zext, .sext, .fptrunc, .fpext, .fptosi, .sitofp, .ptrtoint, .inttoptr,
    .bitcast].find? (·.text == name)

/-- Constants. -/
def Constant.text : Constant → String
  | .int v ty => toString v ++ ty.text
  | .float x => Shortest.text x ++ "f32"
  | .double x => Shortest.text x ++ "f64"
  | .null _ => "null"
  | .zero ty => s!"zeroinit {ty}"
  | .bytes contents => "c" ++ Quoted.ofBytes contents
  | .global id _ => id.text
  | .function id _ => "@" ++ id.text
  | .undef ty => s!"undef {ty}"

/-- Operands. -/
def Operand.text : Operand → String
  | .const c => c.text
  | .inst id => id.text
  | .arg i => s!"%arg{i}"

/-- Texts separated by commas. -/
def commaSeparated (items : List String) : String := ", ".intercalate items

/-- An incoming value of a phi. -/
def incomingText (value : String) (source : BlockId) : String := s!"[{value}, {source.text}]"

/-- Instructions. -/
def InstKind.text : InstKind → String
  | .alloca ty => s!"alloca {ty}"
  | .load ptr => s!"load {ptr.text}"
  | .store ptr value => s!"store {value.text} -> {ptr.text}"
  | .binary op l r => s!"{op.text} {l.text}, {r.text}"
  | .cmp op l r => s!"cmp {op.text} {l.text}, {r.text}"
  | .cast op v => s!"{op.text} {v.text}"
  | .offset ptr i => s!"offset {ptr.text}[{i.text}]"
  | .field base i => s!"field {base.text}.{i}"
  | .call callee args =>
    let inside := commaSeparated (args.map Operand.text)
    s!"call {callee.text}({inside})"
  | .phi incoming =>
    "phi " ++ commaSeparated (incoming.map fun (v, id) => incomingText v.text id)
  | .copy dst src ty => s!"memcpy {src.text} -> {dst.text} ({ty})"

/-- Terminators. -/
def Terminator.text : Terminator → String
  | .ret (some v) => s!"return {v.text}"
  | .ret none => "return"
  | .goto target => s!"goto {target.text}"
  | .branch cond yes no => s!"if {cond.text} then {yes.text} else {no.text}"
  | .unreachable => "unreachable"

/-- Linkage. -/
def Linkage.text : Linkage → String
  | .external => "external"
  | .internal => "internal"

namespace Function

/-- The line of an instruction. -/
def instLine (f : Function) (id : InstId) : String :=
  match f.inst? id with
  | none => ""
  | some i =>
    if i.ty.isVoid then s!"    {i.kind.text}\n" else s!"    {id.text}: {i.ty} = {i.kind.text}\n"

/-- The lines of a block. -/
def blockLines (f : Function) (id : BlockId) : String :=
  match f.block? id with
  | none => ""
  | some b =>
    let last := match b.term with
      | some term => term.text
      | none => "<unterminated>"
    s!"{id.text}:\n" ++ String.join (b.insts.map f.instLine) ++ s!"    {last}\n"

/-- The parameters in the head line. -/
def paramList (f : Function) : String :=
  commaSeparated (f.sig.params.mapIdx fun i ty => s!"%arg{i}: {ty}") ++
    if f.sig.variadic then ", ..." else ""

/-- The text of a function. -/
def text (f : Function) : String :=
  let head := s!"fn {f.name} ({f.paramList}) -> {f.sig.result}"
  if f.isDeclaration then s!"declare {head}\n"
  else s!"{f.linkage.text} {head}:\n" ++ String.join (f.layout.map f.blockLines)

end Function

/-- The text of a global. -/
def Global.text (g : Global) : String :=
  let kind := if g.constant then "constant" else "global"
  let head := s!"{g.linkage.text} {kind} {g.ty} \"{g.name}\""
  match g.init with
  | some c => s!"{head} = {c.text}"
  | none => head

/-- The text of a module: its name, the aggregates, the globals, what runs before `main`, and the
functions, each after an empty line. -/
def Module.text (m : Module) : String :=
  let types := m.types.entries.toList.map fun d => s!"type {d.text}\n"
  let globals := m.globals.toList.mapIdx fun i g => (GlobalId.mk i).text ++ s!" = {g.text}\n"
  let ctors := m.ctors.map fun (priority, id) =>
    let name := ((m.function? id).map Function.name).getD ""
    s!"ctor {priority} @{name}\n"
  let functions := m.functions.toList.map fun f => "\n" ++ f.text
  s!"module {m.name}\n" ++ String.join types ++ String.join globals ++ String.join ctors ++
    String.join functions

end TreeFlow
