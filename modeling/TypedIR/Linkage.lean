namespace TypedIR

/-- `undeclared n` is the `n`-th code after the three declared ones. -/
inductive Linkage
  | internal | exported | imported | undeclared (n : Nat)
  deriving DecidableEq, Inhabited

namespace Linkage

def ofCode : Nat → Linkage
  | 0 => internal
  | 1 => exported
  | 2 => imported
  | n + 3 => undeclared n

def code : Linkage → Nat
  | internal => 0
  | exported => 1
  | imported => 2
  | undeclared n => n + 3

@[simp] theorem ofCode_code (l : Linkage) : ofCode l.code = l := by cases l <;> rfl

def spelling : Linkage → String
  | internal => "internal"
  | exported => "export"
  | imported => "import"
  | undeclared _ => "unknown"

end Linkage

end TypedIR
