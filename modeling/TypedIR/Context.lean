import TypedIR.Constant.Request

/-! A context owns types, constants and named values, and numbers its modules and functions. Its
disposal takes all of them away for good. -/

namespace TypedIR

/-- `widthLimit` is the greatest integer width that was asked for; the registry may allow less. -/
structure Context where
  widthLimit : Nat
  traces : Bool
  types : TypeRegistry
  constants : ConstantPool := {}
  names : List (String × Value) := []
  modulesMade : Nat := 0
  funcsMade : Nat := 0

inductive ContextError
  | disposed
  | emptyName
  | notConstant (name : String)
  | taken (name : String)
  deriving DecidableEq

namespace ContextError

def code : ContextError → ErrorCode
  | disposed => .useAfterDispose
  | notConstant _ => .typeMismatch
  | emptyName | taken _ => .duplicateSymbol

def message : ContextError → String
  | disposed => "context used after its context was disposed"
  | emptyName => "named value requires a non-empty name"
  | notConstant name => s!"named value '{name}' must be a constant of this context"
  | taken name => s!"named value '{name}' is already defined"

def diag (e : ContextError) : Diag := ⟨e.code, e.message, {}, .error⟩

end ContextError

namespace Context

def new (id widthLimit : Nat) (traces : Bool) : Context :=
  { widthLimit, traces, types := .empty id widthLimit }

/-- What stands behind a number that no context has: a context that is gone. -/
instance : Inhabited Context := ⟨⟨0, false, (TypeRegistry.empty 0 0).dispose, {}, [], 0, 0⟩⟩

def id (c : Context) : Nat := c.types.context

/-- A context is disposed together with its types and constants, so one flag says it of all three. A
registry or a pool that is disposed alone, behind its context, cannot be expressed. -/
def isDisposed (c : Context) : Bool := c.types.disposed

def dispose (c : Context) : Context :=
  { c with types := c.types.dispose, constants := {}, names := [] }

def lookupConstant (c : Context) (v : Value) : Option Constant := c.constants.lookup c.id v

def literal (c : Context) (v : Value) : String := c.constants.literal c.types v

def bool (c : Context) (b : Bool) : Except ConstantError (Value × Context) :=
  match TypeRequest.int 1 c.types with
  | .error e _ => .error (.type e)
  | .ok t types => do
    let call : ConstantCall := .unsigned (if b then 1 else 0)
    let (v, constants) ← call.request c.constants types t
    return (v, { c with types, constants })

def defineName (c : Context) (name : String) (v : Value) : Except ContextError Context := do
  if c.isDisposed then throw .disposed
  if name.isEmpty then throw .emptyName
  if (c.lookupConstant v).isNone then throw (.notConstant name)
  match c.names.lookup name with
  | none => return { c with names := c.names ++ [(name, v)] }
  | some w => if w = v then return c else throw (.taken name)

def lookupName (c : Context) (name : String) : Option Value := c.names.lookup name

end Context

end TypedIR
