import TypedIR.World

/-! The text of modules. Pretty text keeps the order of declaration and sets the parts apart by empty
lines; canonical text sorts named structs and declarations by name. -/

namespace TypedIR

inductive Style
  | pretty | canonical
  deriving DecidableEq, Inhabited

namespace Assembly

/-- What the text of an instruction depends on: the world for the labels of blocks, the context and
module for types, constants and symbols, the function for the names of temporaries. -/
structure Env where
  world : World
  context : Context
  module : Module
  func : Option Func := none

namespace Env

variable (e : Env)

def type (t : TypeRef) : String := e.context.types.text t

def value (v : Value) : String :=
  let named := (e.func.filter (·.serial = v.scope)).bind (·.tempName? v.id)
  match v.kind with
  | .const => e.context.literal v
  | .global => "@" ++ (e.module.symbolName? v).getD "<unknown>"
  | .param => "%" ++ named.getD s!"arg{v.id}"
  | .result => "%" ++ named.getD s!"t{v.id}"

def typed (v : Value) : String := s!"{e.type v.type} {e.value v}"

def result (i : Instr) : String :=
  match i.result, e.func with
  | some id, some f => e.value ((f.tempValue? id).getD (.result {} id f.serial)) ++ " = "
  | _, _ => ""

def block (b : Option BlockRef) : String :=
  match b with
  | some b => "%" ++ e.world.label b
  | none => "%<null>"

def operands (i : Instr) : String :=
  if i.operands.isEmpty then "" else " " ++ commaList (i.operands.map e.typed)

def pair (i : Instr) : String :=
  match i.operands with
  | [a, b] => s!" {e.type a.type} {e.value a}, {e.value b}"
  | _ => ""

def first (lead : String) (i : Instr) : String :=
  match i.operands with
  | v :: _ => lead ++ e.typed v
  | [] => ""

def call (i : Instr) : String :=
  let result :=
    match e.context.types.lookup i.typeOperand with
    | some (.fn result ..) => e.type result
    | some _ => e.type {}
    | none => "<invalid>"
  let callee := (i.operands.head?.map e.value).getD ""
  s!" {result} {callee}({commaList (i.operands.tail.map e.typed)})"

def phi (i : Instr) : String :=
  let edge (x : Value × Nat) :=
    s!" [ {e.value x.1}, {e.block (i.incoming.getD x.2 none)} ]"
  s!" {e.type i.type}" ++ ",".intercalate (i.operands.zipIdx.map edge)

def switch (i : Instr) : String :=
  match i.operands, i.targets with
  | scrutinee :: cases, default :: targets =>
    let case (x : Value × Nat) :=
      s!" {e.typed x.1}, label {e.block (targets.getD x.2 none)}"
    s!" {e.typed scrutinee}, label {e.block default} ["
      ++ String.join (cases.zipIdx.map case) ++ " ]"
  | _, _ => ""

def terminator (i : Instr) : String :=
  match i.op with
  | .br =>
    match i.targets with
    | b :: _ => s!" label {e.block b}"
    | [] => ""
  | .condbr => e.first " " i ++ String.join (i.targets.map fun b => s!", label {e.block b}")
  | .switch => e.switch i
  | .ret => if i.operands.isEmpty then " void" else e.first " " i
  | _ => ""

def memory (i : Instr) : String :=
  match i.op with
  | .alloca => s!" {e.type i.typeOperand}" ++ e.first ", " i
  | .load => s!" {e.type i.type}" ++ e.first ", " i
  | _ => e.operands i

def rest (i : Instr) : String :=
  match i.op.category with
  | .intBinary | .floatBinary => e.pair i
  | .floatUnary => e.first " " i
  | .compare => s!" {i.predicate.spelling}" ++ e.pair i
  | .cast => e.first " " i ++ s!" to {e.type i.type}"
  | .memory => e.memory i
  | .call => e.call i
  | .select => e.operands i
  | .phi => e.phi i
  | .terminator => e.terminator i

def instr (i : Instr) : String :=
  let loc := if i.loc.isValid then s!"  ; loc {i.loc.trail}" else ""
  s!"  {e.result i}{i.op.mnemonic}{e.rest i}{loc}\n"

def signature (f : Func) : String :=
  let param (p : Param) :=
    if f.isDeclaration then e.type p.type
    else s!"{e.type p.type} {e.value (.param p.type p.id f.serial)}"
  let tail := if f.variadic then ["..."] else []
  s!"{f.linkage.spelling} {e.type f.retType} @{f.name}"
    ++ s!"({commaList (f.params.map param ++ tail)})"

def function (f : Func) : String :=
  let e := { e with func := some f }
  if f.isDeclaration then s!"declare {e.signature f}\n"
  else
    let block (x : Nat × Block) := s!"{x.2.label}:\n" ++ String.join (x.2.instrs.map e.instr)
    s!"define {e.signature f} \x7b\n" ++ String.join (f.blocks.entries.map block) ++ "\x7d\n"

def global (g : Global) : String :=
  let init := (g.init.map fun v => " " ++ e.value v).getD ""
  let kind := if g.isConstant then "constant" else "global"
  s!"@{g.name} = {g.linkage.spelling} {kind} {e.type g.type}{init}\n"

def namedStruct (t : TypeRef) : String :=
  s!"{e.type t} = type {e.context.types.bodyText t}\n"

end Env

def paragraph (items : List String) : String :=
  if items.isEmpty then "" else "\n" ++ String.join items

def byText {α : Type} (key : α → String) (xs : List α) : List α :=
  xs.mergeSort fun a b => key a ≤ key b

end Assembly

namespace World

open Assembly

def assemblyEnv (w : World) (m : Nat) : Env := ⟨w, w.contextOf m, w.module m, none⟩

def prettyText (w : World) (m : Nat) : String :=
  let e := w.assemblyEnv m
  let decls := e.module.funcs.filter (·.isDeclaration)
  let defs := e.module.funcs.filter (!·.isDeclaration)
  s!"; module '{e.module.name}'\n"
    ++ paragraph (e.context.types.namedStructs.map e.namedStruct)
    ++ paragraph (e.module.globals.map e.global)
    ++ paragraph (decls.map e.function)
    ++ String.join (defs.map fun f => "\n" ++ e.function f)

def canonicalText (w : World) (m : Nat) : String :=
  let e := w.assemblyEnv m
  let decls := e.module.funcs.filter (·.isDeclaration)
  let defs := e.module.funcs.filter (!·.isDeclaration)
  String.join ((byText e.type e.context.types.namedStructs).map e.namedStruct)
    ++ String.join (e.module.globals.map e.global)
    ++ String.join ((byText (·.name) decls).map e.function)
    ++ String.join (defs.map e.function)

/-- The text of a module; a single comment if its context is gone. -/
def text (w : World) (m : Nat) (style : Style) : String :=
  if (w.contextOf m).isDisposed then s!"; module '{(w.module m).name}' (context disposed)\n"
  else match style with
    | .pretty => w.prettyText m
    | .canonical => w.canonicalText m

def funcText (w : World) (m : Nat) (f : FuncRef) : String :=
  if (w.contextOf m).isDisposed then "" else (w.assemblyEnv m).function (w.func f)

end World

end TypedIR
