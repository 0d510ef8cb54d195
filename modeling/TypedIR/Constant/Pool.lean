import TypedIR.Decimal
import TypedIR.Type.Text
import TypedIR.Value

namespace TypedIR

/-- What a constant holds beside its type. An integer is the low word of its two's-complement
pattern; wider than 64 bits it goes on with ones when `negative` holds and with zeros otherwise.
A float is its binary64 pattern. -/
inductive Payload
  | int (bits : Nat) (negative : Bool)
  | float (bits : UInt64)
  | null
  | zero
  | undefined
  | aggregate (elements : List Nat)
  deriving DecidableEq, Inhabited

structure Constant where
  type : TypeRef
  payload : Payload
  deriving DecidableEq, Inhabited

structure ConstantPool where
  entries : List Constant := []
  deriving DecidableEq, Inhabited

namespace ConstantPool

def size (p : ConstantPool) : Nat := p.entries.length

/-- Constants are numbered in 32 bits. Up to here each number is told apart from the others. -/
def fits (p : ConstantPool) : Bool := p.size < 0x100000000

def lookup (p : ConstantPool) (context : Nat) (v : Value) : Option Constant :=
  if v.kind = .const ∧ v.scope = context ∧ v.id ≠ 0 then
    p.entries[v.id - 1]?.filter (·.type = v.type)
  else none

def intern (p : ConstantPool) (context : Nat) (c : Constant) : Value × ConstantPool :=
  match p.entries.findIdx? (· = c) with
  | some position => (.const c.type (position + 1) context, p)
  | none => (.const c.type (p.size + 1) context, { p with entries := p.entries ++ [c] })

theorem lookup_intern (p : ConstantPool) (context : Nat) (c : Constant) :
    (p.intern context c).2.lookup context (p.intern context c).1 = some c := by
  unfold intern
  split
  next h =>
    have := List.findIdx?_eq_some_iff_getElem.1 h
    simp [lookup, Value.const]
    grind
  next => simp [lookup, Value.const, size]

def signedValue (width pattern : Nat) : Int :=
  if pattern < Nat.pow 2 (width - 1) then pattern else (pattern : Int) - Nat.pow 2 width

def intText (width bits : Nat) (negative : Bool) : String :=
  if width = 1 then if bits = 0 then "false" else "true"
  else if width < 64 then toString (signedValue width bits)
  else if width = 64 ∨ negative then toString (signedValue 64 bits)
  else toString bits

def brackets : TypeDesc → String × String × String
  | .array .. => ("[", "]", "[]")
  | .vector .. => ("<", ">", "<>")
  | _ => ("\x7b ", " \x7d", "\x7b\x7d")

def literalWithin (p : ConstantPool) (types : TypeRegistry) : Nat → Nat → String
  | 0, _ => "?"
  | depth + 1, id =>
    match p.entries[id - 1]? with
    | none => "?"
    | some c =>
      match c.payload with
      | .int bits negative =>
        match types.lookup c.type with
        | some (.int width) => intText width bits negative
        | _ => "?"
      | .float bits => Decimal.scientific bits
      | .null => "null"
      | .zero => "zeroinitializer"
      | .undefined => "undef"
      | .aggregate elements =>
        let (opening, closing, both) := brackets ((types.lookup c.type).getD .void)
        let element id :=
          let type := (p.entries[id - 1]?.map (·.type)).getD {}
          s!"{types.text type} {p.literalWithin types depth id}"
        if elements.isEmpty then both else opening ++ commaList (elements.map element) ++ closing

/-- The literal of a value, without its type. Elements are made before the aggregates they are
elements of, so a constant's number bounds its depth. -/
def literal (p : ConstantPool) (types : TypeRegistry) (v : Value) : String :=
  match p.lookup types.context v with
  | some _ => p.literalWithin types v.id v.id
  | none => "<invalid constant>"

end ConstantPool

end TypedIR
