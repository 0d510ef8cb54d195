namespace TypedIR

structure SourceLoc where
  file : Nat := 0
  line : Nat := 0
  column : Nat := 0
  deriving DecidableEq, Inhabited

namespace SourceLoc

def isValid (l : SourceLoc) : Bool := l.file != 0

def lead (l : SourceLoc) : String :=
  if l.line = 0 then s!"{l.file}"
  else if l.column = 0 then s!"{l.file}:{l.line}"
  else s!"{l.file}:{l.line}:{l.column}"

def trail (l : SourceLoc) : String :=
  if l.column = 0 then s!"{l.file}:{l.line}" else s!"{l.file}:{l.line}:{l.column}"

end SourceLoc

end TypedIR
