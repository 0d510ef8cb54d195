import TypedIR.Fingerprint
import TypedIR.Hex
import TypedIR.Verify.Phase

namespace TypedIR

structure Certificate where
  module : Nat
  serial : Nat
  fingerprint : UInt64
  deriving DecidableEq, Inhabited

namespace World

def firstFindings (w : World) (m : Nat) : List Phase → List Violation
  | [] => []
  | p :: rest =>
    match p.run w m with
    | [] => w.firstFindings m rest
    | vs => vs

def violations (w : World) (m : Nat) : List Violation :=
  if (w.contextOf m).isDisposed then [.atModule (.contextDisposed (w.module m).name)]
  else w.firstFindings m Phase.all

def certificate (w : World) (m : Nat) : Certificate :=
  ⟨m, (w.module m).serial, (w.module m).fingerprint⟩

def verify (w : World) (m : Nat) : Except (List Violation) Certificate :=
  match w.violations m with
  | [] => .ok (w.certificate m)
  | vs => .error vs

/-- Does a certificate stand for the module as it is? -/
def covers (w : World) (m : Nat) (c : Certificate) : Bool :=
  c.module = m && c.serial = (w.module m).serial && !(w.contextOf m).isDisposed
    && (w.module m).fingerprint = c.fingerprint

def verified (w : World) (m : Nat) (verdict : Except (List Violation) Certificate) : World :=
  let outcome :=
    match verdict with
    | .ok c => s!"ok (fingerprint {Hex.padded 16 c.fingerprint.toNat})"
    | .error vs => s!"{vs.length} violation(s)"
  w.trace (w.contextOf m) s!"verify module '{(w.module m).name}': {outcome}"

end World

def Module.disposedDiag (m : Module) : Diag :=
  ⟨.useAfterDispose, (Finding.contextDisposed m.name).message, {}, .error⟩

def Violation.summary (vs : List Violation) : Diag :=
  let plural := if vs.length = 1 then "" else "s"
  let lines := vs.map fun v => s!"\n  {v.code.spelling}: {v.message}"
  let message := s!"module failed verification with {vs.length} violation{plural}"
  match vs with
  | [] => ⟨.verificationFailure, message, {}, .error⟩
  | v :: _ =>
    if v.code = .contextDisposed then ⟨.useAfterDispose, v.message, {}, .error⟩
    else ⟨.verificationFailure, message ++ String.join lines, v.loc, .error⟩

end TypedIR
