namespace TypedIR

/-- How often each name was asked for. A name that was made by adding a suffix counts once. -/
structure NameUses where
  counts : List (String × Nat) := []
  deriving DecidableEq, Inhabited

namespace NameUses

def count (u : NameUses) (name : String) : Nat := (u.counts.lookup name).getD 0

def taken (u : NameUses) (name : String) : Bool := (u.counts.lookup name).isSome

def set (u : NameUses) (name : String) (n : Nat) : NameUses :=
  if u.taken name then
    ⟨u.counts.map fun e => if e.1 = name then (name, n) else e⟩
  else ⟨u.counts ++ [(name, n)]⟩

def suffixed (base : String) (n : Nat) : String := s!"{base}.{n}"

def freeSuffix (u : NameUses) (base : String) (n : Nat) : Nat :=
  ((List.range' n (u.counts.length + 1)).find? fun k => !u.taken (suffixed base k)).getD n

/-- The name itself when it is asked for the first time, else the name with the next free suffix.
The count of a name stays one ahead of the last suffix that it was given. -/
def claim (u : NameUses) (base : String) : String × NameUses :=
  match u.count base with
  | 0 => (base, u.set base 1)
  | n =>
    let k := u.freeSuffix base n
    (suffixed base k, (u.set base (k + 1)).set (suffixed base k) 1)

end NameUses

/-- Is a name spelled like a generated one: `t` or `arg` with digits after it? -/
def isReservedName (name : String) : Bool :=
  let digits (cs : List Char) := !cs.isEmpty && cs.all Char.isDigit
  match name.toList with
  | 'a' :: 'r' :: 'g' :: cs => digits cs
  | 't' :: cs => digits cs
  | _ => false

end TypedIR
