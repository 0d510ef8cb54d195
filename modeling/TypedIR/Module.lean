import TypedIR.Func

namespace TypedIR

inductive Symbol
  | func (index : Nat)
  | global (index : Nat)
  deriving DecidableEq, Inhabited

/-- `context` is the number of the owning context, `serial` the module's number there. The table
keeps the names under which symbols were declared. -/
structure Module where
  context : Nat := 0
  name : String := ""
  serial : Nat := 0
  funcs : List Func := []
  globals : List Global := []
  symbols : List (String × Symbol) := []
  deriving Inhabited

namespace Module

def funcNamed? (m : Module) (name : String) : Option Nat :=
  match m.symbols.lookup name with
  | some (.func index) => some index
  | _ => none

def globalNamed? (m : Module) (name : String) : Option Nat :=
  match m.symbols.lookup name with
  | some (.global index) => some index
  | _ => none

def symbolName? (m : Module) (v : Value) : Option String :=
  if v.kind = .global ∧ v.scope = m.serial then
    if v.isFunction then (m.funcs[v.id]?.filter (·.refType = v.type)).map (·.name)
    else (m.globals[v.id]?.filter (·.refType = v.type)).map (·.name)
  else none

end Module

end TypedIR
