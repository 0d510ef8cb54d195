import TypedIR.Type.Basic

/-! The registry of one context: its types in the order in which they were made. A type is made at
most once, so handles are equal exactly when the types are. -/

namespace TypedIR

structure TypeRegistry where
  context : Nat
  maxBits : Nat
  disposed : Bool := false
  arena : List TypeDesc := []
  deriving DecidableEq

namespace TypeRegistry

def maxIntegerBits : Nat := 0x7FFFFF

def empty (context maxBits : Nat) : TypeRegistry := ⟨context, min maxBits maxIntegerBits, false, []⟩

def handle (r : TypeRegistry) (position : Nat) : TypeRef := ⟨r.context, position + 1⟩

def lookup (r : TypeRegistry) (t : TypeRef) : Option TypeDesc :=
  if t.context = r.context ∧ t.id ≠ 0 then r.arena[t.id - 1]? else none

@[simp] theorem lookup_handle (r : TypeRegistry) (position : Nat) :
    r.lookup (r.handle position) = r.arena[position]? := by
  simp [lookup, handle]

theorem lookup_eq_some_iff {r : TypeRegistry} {t : TypeRef} {d : TypeDesc} :
    r.lookup t = some d ↔ ∃ position, t = r.handle position ∧ r.arena[position]? = some d := by
  constructor
  · intro h
    simp only [lookup] at h
    split at h
    next => exact ⟨t.id - 1, by cases t; simp_all [handle]; omega, h⟩
    next => simp at h
  · rintro ⟨position, rfl, h⟩
    simpa using h

def owns (r : TypeRegistry) (t : TypeRef) : Bool := (r.lookup t).isSome

def isSized (r : TypeRegistry) (t : TypeRef) : Bool := (r.lookup t).any TypeDesc.isSized

def size (r : TypeRegistry) : Nat := r.arena.length

/-- Places are kept in 32 bits. Up to here each of them is told apart from the others. -/
def fits (r : TypeRegistry) : Bool := r.size < 0x100000000

def dispose (r : TypeRegistry) : TypeRegistry := { r with disposed := true, arena := [] }

@[simp] theorem lookup_dispose (r : TypeRegistry) (t : TypeRef) : r.dispose.lookup t = none := by
  simp [lookup, dispose]

def namedStructs (r : TypeRegistry) : List TypeRef :=
  (r.arena.zipIdx.filter (·.1.isNamed)).map fun d => r.handle d.2

def hasName (name : String) : TypeDesc → Bool
  | .named n _ => n = name
  | _ => false

def lookupNamed (r : TypeRegistry) (name : String) : Option TypeRef :=
  (r.arena.findIdx? (hasName name)).map r.handle

def byValueParts (r : TypeRegistry) (t : TypeRef) : List TypeRef :=
  ((r.lookup t).map TypeDesc.byValueParts).getD []

def containsWithin (r : TypeRegistry) (needle : TypeRef) : Nat → TypeRef → Bool
  | 0, t => t == needle
  | steps + 1, t => t == needle || (r.byValueParts t).any (r.containsWithin needle steps)

/-- Does a value of `t` contain a value of `needle`, or is it one? A path that repeats no type
has at most as many steps as there are types. -/
def containsByValue (r : TypeRegistry) (t needle : TypeRef) : Bool :=
  r.containsWithin needle r.size t

end TypeRegistry

end TypedIR
