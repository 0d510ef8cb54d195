import TypedIR.Diag
import TypedIR.Type.Text

/-! Requests to a registry. A request answers or fails, and leaves a registry either way: a spec
whose later part is refused has already made its earlier parts. -/

namespace TypedIR

inductive TypeRole
  | arrayElement | vectorElement | structField | functionResult | functionParameter
  | referenced | struct
  deriving DecidableEq

def TypeRole.spelling : TypeRole → String
  | arrayElement => "array element"
  | vectorElement => "vector element"
  | structField => "struct field"
  | functionResult => "function result"
  | functionParameter => "function parameter"
  | referenced => "referenced"
  | struct => "struct"

inductive TypeError
  | disposed
  | zeroWidth
  | tooWide (bits max : Nat)
  | foreign (role : TypeRole)
  | invalid (role : TypeRole)
  | voidPart (role : TypeRole)
  | functionPart (role : TypeRole)
  | unsizedPart (role : TypeRole) (text : String)
  | zeroLength
  | vectorElement (text : String)
  | emptyName
  | elementCount
  | noResult
  | malformed
  | notNamed (text : String)
  | recursive (name : String)
  | bodySet (name : String)
  deriving DecidableEq

namespace TypeError

def code : TypeError → ErrorCode
  | disposed => .useAfterDispose
  | _ => .invalidTypeSpec

def message : TypeError → String
  | disposed => "type registry used after its context was disposed"
  | zeroWidth => "integer width must be positive"
  | tooWide bits max => s!"integer width {bits} exceeds maximum {max}"
  | foreign role => s!"{role.spelling} type belongs to a different context"
  | invalid role => s!"{role.spelling} type is invalid"
  | voidPart role => s!"{role.spelling} cannot be void"
  | functionPart role => s!"{role.spelling} cannot be a function type"
  | unsizedPart role text => s!"{role.spelling} has unsized type {text}"
  | zeroLength => "vector length must be positive"
  | vectorElement text => s!"vector element must be an integer, float or pointer, got {text}"
  | emptyName => "named struct requires a non-empty name"
  | elementCount => "array and vector specs take exactly one element spec"
  | noResult => "function spec needs a result type"
  | malformed => "unknown type spec kind"
  | notNamed text => s!"{text} is not a named struct"
  | recursive name => s!"recursive type %{name} must reference itself through a pointer"
  | bodySet name => s!"body of %{name} is already set"

def diag (e : TypeError) : Diag := ⟨e.code, e.message, {}, .error⟩

end TypeError

abbrev TypeRequest := EStateM TypeError TypeRegistry

namespace TypeRegistry

def component (r : TypeRegistry) (role : TypeRole) (t : TypeRef) : Except TypeError TypeDesc :=
  match r.lookup t with
  | some d => .ok d
  | none => .error (if t.isValid ∧ t.context ≠ r.context then .foreign role else .invalid role)

def sizedComponent (r : TypeRegistry) (role : TypeRole) (t : TypeRef) : Except TypeError Unit := do
  match ← r.component role t with
  | .void => throw (.voidPart role)
  | .fn .. => throw (.functionPart role)
  | d => unless d.isSized do throw (.unsizedPart role (r.text t))

def check (r : TypeRegistry) : TypeDesc → Except TypeError Unit
  | .void | .float _ | .pointer _ | .named .. => pure ()
  | .int bits => do
    if bits = 0 then throw .zeroWidth
    if r.maxBits < bits then throw (.tooWide bits r.maxBits)
  | .array elem _ => r.sizedComponent .arrayElement elem
  | .vector elem count => do
    let d ← r.component .vectorElement elem
    if count = 0 then throw .zeroLength
    unless d.isScalar do throw (.vectorElement (r.text elem))
  | .struct fields _ => fields.forM (r.sizedComponent .structField)
  | .fn result params _ => do
    let d ← r.component .functionResult result
    unless d = .void do r.sizedComponent .functionResult result
    params.forM (r.sizedComponent .functionParameter)

def intern (r : TypeRegistry) (d : TypeDesc) : TypeRef × TypeRegistry :=
  match r.arena.findIdx? (· = d) with
  | some position => (r.handle position, r)
  | none => (r.handle r.size, { r with arena := r.arena ++ [d] })

theorem lookup_intern (r : TypeRegistry) (d : TypeDesc) :
    (r.intern d).2.lookup (r.intern d).1 = some d := by
  unfold intern
  split
  next h =>
    have := List.findIdx?_eq_some_iff_getElem.1 h
    simp only [lookup_handle]
    grind
  next => simp [lookup, handle, size]

def admitField (r : TypeRegistry) (t : TypeRef) (name : String) (field : TypeRef) :
    Except TypeError Unit := do
  discard <| r.component .structField field
  if r.containsByValue field t then throw (.recursive name)
  r.sizedComponent .structField field

/-- The descriptor of `t` with the given body, if it may have that body: a named struct that is
opaque, or has just this body already. -/
def admitBody (r : TypeRegistry) (t : TypeRef) (fields : List TypeRef) (packed : Bool) :
    Except TypeError TypeDesc := do
  match ← r.component .struct t with
  | .named name body =>
    fields.forM (r.admitField t name)
    unless body.all (· = (fields, packed)) do throw (.bodySet name)
    return .named name (some (fields, packed))
  | _ => throw (.notNamed (r.text t))

end TypeRegistry

namespace TypeRequest

def live : TypeRequest Unit := fun r => if r.disposed then .error .disposed r else .ok () r

def make (d : TypeDesc) : TypeRequest TypeRef := fun r =>
  if r.disposed then .error .disposed r
  else match r.check d with
    | .error e => .error e r
    | .ok () => let (t, r') := r.intern d; .ok t r'

def void : TypeRequest TypeRef := make .void
def int (bits : Nat) : TypeRequest TypeRef := make (.int bits)
def float (kind : FloatKind) : TypeRequest TypeRef := make (.float kind)
def pointer (space : Nat) : TypeRequest TypeRef := make (.pointer space)
def array (elem : TypeRef) (count : UInt64) : TypeRequest TypeRef := make (.array elem count)
def vector (elem : TypeRef) (count : UInt64) : TypeRequest TypeRef := make (.vector elem count)

def struct (fields : List TypeRef) (packed : Bool) : TypeRequest TypeRef :=
  make (.struct fields packed)

def fn (result : TypeRef) (params : List TypeRef) (variadic : Bool) : TypeRequest TypeRef :=
  make (.fn result params variadic)

def named (name : String) : TypeRequest TypeRef := fun r =>
  if r.disposed then .error .disposed r
  else if name.isEmpty then .error .emptyName r
  else match r.lookupNamed name with
    | some t => .ok t r
    | none => .ok (r.handle r.size) { r with arena := r.arena ++ [.named name none] }

def setBody (t : TypeRef) (fields : List TypeRef) (packed : Bool) : TypeRequest Unit := fun r =>
  if r.disposed then .error .disposed r
  else match r.admitBody t fields packed with
    | .error e => .error e r
    | .ok d => .ok () { r with arena := r.arena.set (t.id - 1) d }

def handle (t : TypeRef) : TypeRequest TypeRef := fun r =>
  match r.component .referenced t with
  | .error e => .error e r
  | .ok _ => .ok t r

mutual

/-- The type of a spec, made from the parts up, each part before the next. -/
def resolve (s : TypeSpec) : TypeRequest TypeRef := do
  live
  match s with
  | .void => void
  | .int bits => int bits
  | .float kind => float kind
  | .pointer space => pointer space
  | .array parts count =>
    if parts.length ≠ 1 then throw .elementCount
    match ← resolveAll parts with
    | elem :: _ => array elem count
    | [] => throw .elementCount
  | .vector parts count =>
    if parts.length ≠ 1 then throw .elementCount
    match ← resolveAll parts with
    | elem :: _ => vector elem count
    | [] => throw .elementCount
  | .struct fields packed => struct (← resolveAll fields) packed
  | .fn parts variadic =>
    match ← resolveAll parts with
    | result :: params => fn result params variadic
    | [] => throw .noResult
  | .named name => named name
  | .handle t => handle t
  | .malformed => throw .malformed

def resolveAll : List TypeSpec → TypeRequest (List TypeRef)
  | [] => pure []
  | s :: rest => do
    let t ← resolve s
    return t :: (← resolveAll rest)

end

end TypeRequest

end TypedIR
