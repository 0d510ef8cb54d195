import TypedIR.SourceLoc

namespace TypedIR

inductive Severity
  | note | warning | error | unknown
  deriving DecidableEq, Inhabited

namespace Severity

def ofCode : Nat → Severity
  | 0 => note
  | 1 => warning
  | 2 => error
  | _ => unknown

def spelling : Severity → String
  | note => "note"
  | warning => "warning"
  | error => "error"
  | unknown => ""

end Severity

inductive ErrorCode
  | none | invalidTypeSpec | typeMismatch | duplicateSymbol | useAfterDispose
  | illTypedOperation | invalidInsertionPoint | verificationFailure | ioError | unknown
  deriving DecidableEq, Inhabited

namespace ErrorCode

def ofCode : Nat → ErrorCode
  | 0 => none
  | 1 => invalidTypeSpec
  | 2 => typeMismatch
  | 3 => duplicateSymbol
  | 4 => useAfterDispose
  | 5 => illTypedOperation
  | 6 => invalidInsertionPoint
  | 7 => verificationFailure
  | 8 => ioError
  | _ => unknown

def spelling : ErrorCode → String
  | none => "none"
  | invalidTypeSpec => "InvalidTypeSpec"
  | typeMismatch => "TypeMismatch"
  | duplicateSymbol => "DuplicateSymbol"
  | useAfterDispose => "UseAfterDispose"
  | illTypedOperation => "IllTypedOperation"
  | invalidInsertionPoint => "InvalidInsertionPoint"
  | verificationFailure => "VerificationFailure"
  | ioError => "IoError"
  | unknown => "unknown"

end ErrorCode

structure Diag where
  code : ErrorCode
  message : String
  loc : SourceLoc := {}
  severity : Severity := .error
  deriving DecidableEq, Inhabited

def Diag.text (d : Diag) : String :=
  (if d.loc.isValid then d.loc.lead ++ ": " else "")
    ++ d.severity.spelling ++ ": "
    ++ (if d.code = .none then "" else s!"[{d.code.spelling}] ")
    ++ d.message ++ "\n"

end TypedIR
