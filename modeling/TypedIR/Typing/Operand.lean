import TypedIR.World

namespace TypedIR

inductive OperandError
  | foreign (value : String)
  | invalidType (value : String)
  | notConstant (value : String)
  | outside (value func : String)
  | undefined (value func : String)
  | otherType (value recorded defined : String)
  | notSymbol (value module : String)
  deriving DecidableEq

namespace OperandError

def message : OperandError → String
  | foreign v => s!"operand {v} belongs to a different context"
  | invalidType v => s!"operand {v} has an invalid type"
  | notConstant v => s!"operand {v} is not a constant of this context"
  | outside v func => s!"operand {v} is defined outside @{func}"
  | undefined v func => s!"operand {v} is not defined in @{func}"
  | otherType v recorded defined =>
    s!"operand {v} records type {recorded} but is defined as {defined}"
  | notSymbol v module => s!"operand {v} is not a symbol of module '{module}'"

def diag (e : OperandError) : Diag := ⟨.illTypedOperation, e.message, {}, .error⟩

end OperandError

def checkTemp (c : Context) (f : Func) (v : Value) : Except OperandError Unit := do
  if v.scope ≠ f.serial then throw (.outside v.text f.name)
  match f.temps[v.id]? with
  | none => throw (.undefined v.text f.name)
  | some t =>
    if ¬ (v.id < f.params.length ↔ v.kind = .param) then throw (.undefined v.text f.name)
    if t.type ≠ v.type then
      throw (.otherType v.text (c.types.text v.type) (c.types.text t.type))

/-- A value may be used if it is a constant of the context, a temporary of the function, or the
address of a symbol of the module, just as it was handed out. -/
def checkOperand (c : Context) (m : Module) (f : Func) (v : Value) : Except OperandError Unit := do
  if !c.types.owns v.type then
    throw (if v.type.isValid ∧ v.type.context ≠ c.id then .foreign v.text else .invalidType v.text)
  match v.kind with
  | .const =>
    if v.scope ≠ c.id then throw (.foreign v.text)
    if (c.lookupConstant v).isNone then throw (.notConstant v.text)
  | .global => if (m.symbolName? v).isNone then throw (.notSymbol v.text m.name)
  | .result | .param => checkTemp c f v

end TypedIR
