/-! Types are named by handles. A handle is the number of the context that made the type and the
type's place in that context's registry, counted from one. -/

namespace TypedIR

structure TypeRef where
  context : Nat := 0
  id : Nat := 0
  deriving DecidableEq, Inhabited

namespace TypeRef

def isValid (t : TypeRef) : Bool := t.id != 0

def hash (t : TypeRef) : UInt64 := t.context.toUInt64 * 0x9E3779B97F4A7C15 ^^^ t.id.toUInt64

end TypeRef

inductive FloatKind
  | half | single | double | quad | undeclared (n : Nat)
  deriving DecidableEq, Inhabited

namespace FloatKind

def ofCode : Nat → FloatKind
  | 0 => half
  | 1 => single
  | 2 => double
  | 3 => quad
  | n + 4 => undeclared n

def code : FloatKind → Nat
  | half => 0
  | single => 1
  | double => 2
  | quad => 3
  | undeclared n => n + 4

@[simp] theorem ofCode_code (k : FloatKind) : ofCode k.code = k := by cases k <;> rfl

def bits : FloatKind → Nat
  | half => 16
  | single => 32
  | double => 64
  | quad => 128
  | undeclared _ => 0

def spelling : FloatKind → String
  | half => "half"
  | single => "float"
  | double => "double"
  | quad => "fp128"
  | undeclared _ => "float?"

def maxFinite : FloatKind → UInt64
  | half => 0x40EFFC0000000000
  | single => 0x47EFFFFFE0000000
  | _ => 0x7FEFFFFFFFFFFFFF

end FloatKind

/-- What a handle stands for. A named struct is opaque while it has no body. -/
inductive TypeDesc
  | void
  | int (bits : Nat)
  | float (kind : FloatKind)
  | pointer (space : Nat)
  | array (elem : TypeRef) (count : UInt64)
  | vector (elem : TypeRef) (count : UInt64)
  | struct (fields : List TypeRef) (packed : Bool)
  | named (name : String) (body : Option (List TypeRef × Bool))
  | fn (result : TypeRef) (params : List TypeRef) (variadic : Bool)
  deriving DecidableEq, Inhabited

namespace TypeDesc

def isScalar : TypeDesc → Bool
  | int _ | float _ | pointer _ => true
  | _ => false

def isInt : TypeDesc → Bool
  | int _ => true
  | _ => false

def isFloat : TypeDesc → Bool
  | float _ => true
  | _ => false

def isPointer : TypeDesc → Bool
  | pointer _ => true
  | _ => false

def isAggregate : TypeDesc → Bool
  | array .. | struct .. | named .. => true
  | _ => false

def isNamed : TypeDesc → Bool
  | named .. => true
  | _ => false

def isSized : TypeDesc → Bool
  | void | fn .. | named _ none => false
  | _ => true

def byValueParts : TypeDesc → List TypeRef
  | array elem _ | vector elem _ => [elem]
  | struct fields _ | named _ (some (fields, _)) => fields
  | _ => []

end TypeDesc

/-- A type asked for by its structure. Element lists that are too long or too short, and
`malformed`, can be written down but are refused. -/
inductive TypeSpec
  | void
  | int (bits : Nat)
  | float (kind : FloatKind)
  | pointer (space : Nat)
  | array (parts : List TypeSpec) (count : UInt64)
  | vector (parts : List TypeSpec) (count : UInt64)
  | struct (fields : List TypeSpec) (packed : Bool)
  | fn (parts : List TypeSpec) (variadic : Bool)
  | named (name : String)
  | handle (type : TypeRef)
  | malformed
  deriving Inhabited

def TypeSpec.ofCode (code bits : Nat) (count : UInt64) (parts : List TypeSpec) : TypeSpec :=
  match code with
  | 0 => .void
  | 1 => .int bits
  | 2 => .float .double
  | 3 => .pointer 0
  | 4 => .array parts count
  | 5 => .vector parts count
  | 6 => .struct parts false
  | 7 => .fn parts false
  | 8 => .named ""
  | 9 => .handle {}
  | _ => .malformed

end TypedIR
