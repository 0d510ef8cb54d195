import TypedIR.Type.Basic

namespace TypedIR

inductive ValueKind
  | const | result | param | global
  deriving DecidableEq, Inhabited

namespace ValueKind

def code : ValueKind → Nat
  | const => 0
  | result => 1
  | param => 2
  | global => 3

def spelling : ValueKind → String
  | const => "const"
  | result => "result"
  | param => "param"
  | global => "global"

end ValueKind

/-- A constant counts within its context, a parameter or result within its function, the address
of a symbol within its module. `isFunction` tells the two kinds of symbol apart. -/
structure Value where
  kind : ValueKind := .const
  type : TypeRef := {}
  id : Nat := 0
  scope : Nat := 0
  isFunction : Bool := false
  deriving DecidableEq, Inhabited

namespace Value

def const (type : TypeRef) (id context : Nat) : Value := ⟨.const, type, id, context, false⟩
def result (type : TypeRef) (id func : Nat) : Value := ⟨.result, type, id, func, false⟩
def param (type : TypeRef) (id func : Nat) : Value := ⟨.param, type, id, func, false⟩

def global (type : TypeRef) (index module : Nat) (isFunction : Bool) : Value :=
  ⟨.global, type, index, module, isFunction⟩

def text (v : Value) : String :=
  match v.kind with
  | .const => s!"#c{v.id}"
  | .result => s!"%t{v.id}"
  | .param => s!"%arg{v.id}"
  | .global => if v.isFunction then s!"@f{v.id}" else s!"@g{v.id}"

end Value

end TypedIR
