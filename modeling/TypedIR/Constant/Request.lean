import TypedIR.Constant.Pool
import TypedIR.Type.Request

namespace TypedIR

inductive ConstantError
  | disposed
  | foreignType
  | invalidType
  | notInteger (text : String)
  | intRange (literal : Int) (text : String)
  | notFloat (text : String)
  | floatRange (bits : UInt64) (text : String)
  | notPointer (text : String)
  | unsizedZero (text : String)
  | unsizedUndef (text : String)
  | opaqueStruct (text : String)
  | notAggregate (text : String)
  | elementCount (text : String) (expected got : Nat)
  | elementUnknown (position : Nat)
  | elementType (position : Nat) (got expected : String)
  | type (error : TypeError)
  deriving DecidableEq

namespace ConstantError

def code : ConstantError → ErrorCode
  | disposed => .useAfterDispose
  | foreignType | invalidType => .invalidTypeSpec
  | type e => e.code
  | _ => .typeMismatch

def message : ConstantError → String
  | disposed => "constant pool used after its context was disposed"
  | foreignType => "constant type belongs to a different context"
  | invalidType => "constant type is invalid"
  | notInteger text => s!"integer constant requires an integer type, got {text}"
  | intRange literal text => s!"literal {literal} does not fit in {text}"
  | notFloat text => s!"float constant requires a floating-point type, got {text}"
  | floatRange bits text => s!"literal {Decimal.general bits} overflows {text}"
  | notPointer text => s!"null requires a pointer type, got {text}"
  | unsizedZero text => s!"zero initializer requires a sized type, got {text}"
  | unsizedUndef text => s!"undef requires a sized type, got {text}"
  | opaqueStruct text => s!"cannot build a constant of opaque {text}"
  | notAggregate text => s!"aggregate constant requires an array, vector or struct type, got {text}"
  | elementCount text expected got => s!"aggregate {text} expects {expected} elements, got {got}"
  | elementUnknown position => s!"aggregate element {position} is not a constant of this context"
  | elementType position got expected =>
    s!"aggregate element {position} has type {got}, expected {expected}"
  | type e => e.message

def diag (e : ConstantError) : Diag := ⟨e.code, e.message, {}, .error⟩

end ConstantError

namespace ConstantPool

variable (p : ConstantPool) (types : TypeRegistry)

def typeOf (t : TypeRef) : Except ConstantError TypeDesc :=
  if types.disposed then .error .disposed
  else match types.lookup t with
    | some d => .ok d
    | none =>
      .error (if t.isValid ∧ t.context ≠ types.context then .foreignType else .invalidType)

def signed (t : TypeRef) (v : Int64) : Except ConstantError Payload := do
  match ← typeOf types t with
  | .int width =>
    let n := v.toInt
    if width < 64 ∧ ¬ (-(Nat.pow 2 (width - 1) : Int) ≤ n ∧ n < Nat.pow 2 width) then
      throw (.intRange n (types.text t))
    return .int (n % Nat.pow 2 (min width 64)).toNat (64 < width && n < 0)
  | _ => throw (.notInteger (types.text t))

def unsigned (t : TypeRef) (v : UInt64) : Except ConstantError Payload := do
  match ← typeOf types t with
  | .int width =>
    if width < 64 ∧ Nat.pow 2 width ≤ v.toNat then throw (.intRange v.toNat (types.text t))
    return .int v.toNat false
  | _ => throw (.notInteger (types.text t))

def float (t : TypeRef) (bits : UInt64) : Except ConstantError Payload := do
  match ← typeOf types t with
  | .float kind =>
    if Binary64.isFinite bits ∧ kind.maxFinite < Binary64.magnitude bits then
      throw (.floatRange bits (types.text t))
    return .float bits
  | _ => throw (.notFloat (types.text t))

def null (t : TypeRef) : Except ConstantError Payload := do
  match ← typeOf types t with
  | .pointer _ => return .null
  | _ => throw (.notPointer (types.text t))

/-- Scalars share their zero with the literals; only the others have a zero of their own. -/
def zeroPayload : TypeDesc → Payload
  | .int _ => .int 0 false
  | .float _ => .float 0
  | .pointer _ => .null
  | _ => .zero

def zero (t : TypeRef) : Except ConstantError Payload := do
  let d ← typeOf types t
  unless d.isSized do throw (.unsizedZero (types.text t))
  return zeroPayload d

def undefined (t : TypeRef) : Except ConstantError Payload := do
  let d ← typeOf types t
  unless d.isSized do throw (.unsizedUndef (types.text t))
  return .undefined

structure Layout where
  count : Nat
  elemAt : Nat → TypeRef

def layout (t : TypeRef) : TypeDesc → Except ConstantError Layout
  | .array elem count | .vector elem count => .ok ⟨count.toNat, fun _ => elem⟩
  | .struct fields _ | .named _ (some (fields, _)) => .ok ⟨fields.length, (fields.getD · {})⟩
  | .named _ none => .error (.opaqueStruct (types.text t))
  | _ => .error (.notAggregate (types.text t))

def elementId (l : Layout) (position : Nat) (v : Value) : Except ConstantError Nat := do
  if (p.lookup types.context v).isNone then throw (.elementUnknown position)
  if v.type ≠ l.elemAt position then
    throw (.elementType position (types.text v.type) (types.text (l.elemAt position)))
  return v.id

def elementIds (l : Layout) : Nat → List Value → Except ConstantError (List Nat)
  | _, [] => .ok []
  | position, v :: rest => do
    let id ← elementId p types l position v
    return id :: (← elementIds l (position + 1) rest)

/-- The count of an array stands for the list of its element types. Where that list is laid out before the
comparison it can be too long for any memory; that failure is no error of the pool, which it leaves as it
was, and here a wrong number of elements is refused as such, however large the count. -/
def aggregate (t : TypeRef) (elements : List Value) : Except ConstantError Payload := do
  let l ← layout types t (← typeOf types t)
  if elements.length ≠ l.count then
    throw (.elementCount (types.text t) l.count elements.length)
  return .aggregate (← elementIds p types l 0 elements)

abbrev Request := ConstantPool → TypeRegistry → TypeRef → Except ConstantError (Value × ConstantPool)

def make (t : TypeRef) (payload : Payload) : Value × ConstantPool :=
  p.intern types.context ⟨t, payload⟩

end ConstantPool

inductive ConstantCall
  | signed (n : Int64)
  | unsigned (n : UInt64)
  | float (bits : UInt64)
  | null
  | zero
  | undefined
  | aggregate (elements : List Value)

namespace ConstantCall

def payload (p : ConstantPool) (types : TypeRegistry) (t : TypeRef) :
    ConstantCall → Except ConstantError Payload
  | signed n => ConstantPool.signed types t n
  | unsigned n => ConstantPool.unsigned types t n
  | float bits => ConstantPool.float types t bits
  | null => ConstantPool.null types t
  | zero => ConstantPool.zero types t
  | undefined => ConstantPool.undefined types t
  | aggregate elements => ConstantPool.aggregate p types t elements

def request (call : ConstantCall) : ConstantPool.Request := fun p types t => do
  return p.make types t (← call.payload p types t)

end ConstantCall

end TypedIR
