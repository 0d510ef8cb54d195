namespace TypedIR

/-- First those of integers and pointers, then those of floats, ordered (`fo`) and unordered
(`fu`). `undeclared n` is the `n`-th code after the declared ones. -/
inductive Predicate
  | none
  | eq | ne | ugt | uge | ult | ule | sgt | sge | slt | sle
  | foeq | fogt | foge | folt | fole | fone | ford
  | fueq | fugt | fuge | fult | fule | fune | funo
  | undeclared (n : Nat)
  deriving DecidableEq, Inhabited

namespace Predicate

def declared : List Predicate :=
  [none, eq, ne, ugt, uge, ult, ule, sgt, sge, slt, sle,
   foeq, fogt, foge, folt, fole, fone, ford, fueq, fugt, fuge, fult, fule, fune, funo]

def ofCode (n : Nat) : Predicate := declared.getD n (undeclared (n - declared.length))

def code (p : Predicate) : Nat :=
  match p with
  | undeclared n => n + declared.length
  | p => declared.idxOf p

theorem ofCode_code (p : Predicate) : ofCode p.code = p := by
  cases p with
  | undeclared n => simp [ofCode, code, declared]
  | _ => rfl

def isInt (p : Predicate) : Bool := 1 ≤ p.code && p.code ≤ 10

def isFloat (p : Predicate) : Bool := 11 ≤ p.code && p.code ≤ 24

def spelling : Predicate → String
  | none => "none"
  | eq => "eq"
  | ne => "ne"
  | ugt | fugt => "ugt"
  | uge | fuge => "uge"
  | ult | fult => "ult"
  | ule | fule => "ule"
  | sgt => "sgt"
  | sge => "sge"
  | slt => "slt"
  | sle => "sle"
  | foeq => "oeq"
  | fogt => "ogt"
  | foge => "oge"
  | folt => "olt"
  | fole => "ole"
  | fone => "one"
  | ford => "ord"
  | fueq => "ueq"
  | fune => "une"
  | funo => "uno"
  | undeclared _ => "?"

end Predicate

end TypedIR
