import TypedIR.World

/-! Declarations. Declaring a symbol again in the same way finds the first one; a global may be given
its initial value later, once. -/

namespace TypedIR

inductive DeclareError
  | disposed (module : String)
  | emptyFuncName
  | emptyGlobalName
  | signatureUnknown (name : String)
  | notSignature (name text : String)
  | isGlobal (name : String)
  | isFunc (name : String)
  | otherType (name text : String)
  | typeUnknown (name : String)
  | unsized (name text : String)
  | initType (name got expected : String)
  | initNotConstant (name : String)
  | initForeignSymbol (name : String)
  | initKind (name : String)
  | initSet (name : String)
  | type (error : TypeError)
  deriving DecidableEq

namespace DeclareError

def code : DeclareError → ErrorCode
  | disposed _ => .useAfterDispose
  | emptyFuncName | emptyGlobalName | isGlobal _ | isFunc _ | otherType .. | initSet _ =>
    .duplicateSymbol
  | signatureUnknown _ | typeUnknown _ => .invalidTypeSpec
  | type e => e.code
  | _ => .typeMismatch

def message : DeclareError → String
  | disposed name => s!"module '{name}' used after its context was disposed"
  | emptyFuncName => "function name must be non-empty"
  | emptyGlobalName => "global name must be non-empty"
  | signatureUnknown name => s!"signature of @{name} is not a type of this context"
  | notSignature name text => s!"signature of @{name} must be a function type, got {text}"
  | isGlobal name => s!"@{name} is already declared as a global"
  | isFunc name => s!"@{name} is already declared as a function"
  | otherType name text => s!"@{name} is already declared with type {text}"
  | typeUnknown name => s!"type of @{name} is not a type of this context"
  | unsized name text => s!"global @{name} needs a sized type, got {text}"
  | initType name got expected => s!"initializer of @{name} has type {got}, expected {expected}"
  | initNotConstant name => s!"initializer of @{name} is not a constant of this context"
  | initForeignSymbol name => s!"initializer of @{name} refers to a symbol of another module"
  | initKind name => s!"initializer of @{name} must be a constant or a symbol address"
  | initSet name => s!"@{name} already has an initializer"
  | type e => e.message

def diag (e : DeclareError) : Diag := ⟨e.code, e.message, {}, .error⟩

end DeclareError

/-- A declaration writes into a world as it goes. What it wrote stays, also where it fails. -/
abbrev DeclareM := EStateM DeclareError World

namespace Module

def checkLive (m : Module) (c : Context) : Except DeclareError Unit :=
  if c.isDisposed then .error (.disposed m.name) else .ok ()

def checkInit (m : Module) (c : Context) (name : String) (type : TypeRef) (v : Value) :
    Except DeclareError Unit := do
  if v.type ≠ type then throw (.initType name (c.types.text v.type) (c.types.text type))
  match v.kind with
  | .const => if (c.lookupConstant v).isNone then throw (.initNotConstant name)
  | .global => if (m.symbolName? v).isNone then throw (.initForeignSymbol name)
  | _ => throw (.initKind name)

def newFunc (m : Module) (name : String) (signature : TypeRef) (linkage : Linkage) (serial : Nat)
    (refType result : TypeRef) (params : List TypeRef) (variadic : Bool) : Func :=
  params.foldl .addParam {
    name, type := signature, retType := result, variadic, linkage, serial
    moduleSerial := m.serial, index := m.funcs.length, refType }

end Module

namespace DeclareM

variable (m : Nat)

def check {α : Type} (f : Module → Context → Except DeclareError α) : DeclareM α := fun w =>
  match f (w.module m) (w.contextOf m) with
  | .error e => .error e w
  | .ok a => .ok a w

def addressType : DeclareM TypeRef := fun w =>
  match w.requestType (w.module m).context (.pointer 0) with
  | (.error e, w) => .error (.type e) w
  | (.ok t, w) => .ok t w

def nextSerial : DeclareM Nat := modifyGet fun w =>
  let c := w.contextOf m
  let serial := c.funcsMade + 1
  (serial, w.setContext (w.module m).context { c with funcsMade := serial })

def modifyModule (g : Module → Module) : DeclareM Unit := modify fun w => w.setModule m (g (w.module m))

def trace (line : Context → String) : DeclareM Unit := modify fun w =>
  w.trace (w.contextOf m) (line (w.contextOf m))

def func (name : String) (signature : TypeRef) (linkage : Linkage) : DeclareM FuncRef := do
  check m Module.checkLive
  if name.isEmpty then throw .emptyFuncName
  let x := (← get).module m
  let types := ((← get).contextOf m).types
  match types.lookup signature with
  | none => throw (.signatureUnknown name)
  | some (.fn result params variadic) =>
    match x.symbols.lookup name with
    | some (.global _) => throw (.isGlobal name)
    | some (.func index) =>
      let existing := x.funcs.getD index default
      if existing.type ≠ signature then throw (.otherType name (types.text existing.type))
      return ⟨m, index⟩
    | none =>
      let refType ← addressType m
      let serial ← nextSerial m
      modifyModule m fun x =>
        let f := x.newFunc name signature linkage serial refType result params variadic
        { x with funcs := x.funcs ++ [f], symbols := x.symbols ++ [(name, .func f.index)] }
      trace m fun c => s!"declare function @{name} : {c.types.text signature} ({linkage.spelling})"
      return ⟨m, x.funcs.length⟩
  | some _ => throw (.notSignature name (types.text signature))

/-- A global that may be declared: found again, given its initial value, or new. -/
def placeGlobal (name : String) (type : TypeRef) (init : Option Value) (isConstant : Bool)
    (linkage : Linkage) : DeclareM Nat := do
  let x := (← get).module m
  let types := ((← get).contextOf m).types
  match x.symbols.lookup name with
  | some (.func _) => throw (.isFunc name)
  | some (.global index) =>
    let existing := x.globals.getD index default
    if existing.type ≠ type then throw (.otherType name (types.text existing.type))
    match init, existing.init with
    | none, _ => return index
    | some v, some w =>
      if w ≠ v then throw (.initSet name)
      return index
    | some v, none =>
      let defined := { existing with init := some v, isConstant }
      modifyModule m fun x => { x with globals := x.globals.set index defined }
      trace m fun _ => s!"define global @{name}"
      return index
  | none =>
    let refType ← addressType m
    modifyModule m fun x =>
      let g : Global := {
        name, type, init, isConstant, linkage
        moduleSerial := x.serial, index := x.globals.length, refType }
      { x with globals := x.globals ++ [g], symbols := x.symbols ++ [(name, .global g.index)] }
    trace m fun c => s!"declare global @{name} : {c.types.text type} ({linkage.spelling})"
    return x.globals.length

def global (name : String) (type : TypeRef) (init : Option Value) (isConstant : Bool)
    (linkage : Linkage) : DeclareM Nat := do
  check m Module.checkLive
  if name.isEmpty then throw .emptyGlobalName
  let types := ((← get).contextOf m).types
  unless types.owns type do throw (.typeUnknown name)
  unless types.isSized type do throw (.unsized name (types.text type))
  if let some v := init then check m fun x c => x.checkInit c name type v
  placeGlobal m name type init isConstant linkage

end DeclareM

end TypedIR
