import TypedIR.Assembly
import TypedIR.Buffer.Basic
import TypedIR.Verify.Certificate

namespace TypedIR

/-- A text backend keeps the text of each module that it takes; the other kind takes none, and
says why. -/
inductive Backend
  | text (style : Style) (outputs : List Buffer)
  | failing (name : String) (diag : Diag)

namespace Backend

def name : Backend → String
  | text .. => "text"
  | failing name _ => name

def consume (b : Backend) (w : World) (m : Nat) : Except Diag Backend :=
  match b with
  | text style outputs =>
    .ok (text style (outputs ++ [.ofCopy (Text.bytes (w.text m style)) s!"{(w.module m).name}.kiln"]))
  | failing _ diag => .error diag

end Backend

namespace World

def submit (w : World) (m : Nat) (c : Certificate) (b : Backend) :
    Except Diag Backend × World :=
  let name := (w.module m).name
  let ctx := w.contextOf m
  let traced (outcome : String) := w.trace ctx s!"submit module '{name}' to {b.name}: {outcome}"
  if ctx.isDisposed then
    (.error (w.module m).disposedDiag, w)
  else if !w.covers m c then
    let message := s!"certificate does not cover module '{name}'; verify it again after mutation"
    (.error ⟨.verificationFailure, message, {}, .error⟩, traced "rejected (stale certificate)")
  else
    let result := b.consume w m
    let word := if result.isOk then "accepted" else "failed"
    let digits := Hex.padded 1 c.fingerprint.toNat
    (result, traced s!"{word} (fingerprint {digits})")

def verifyAndSubmit (w : World) (m : Nat) (b : Backend) : Except Diag Backend × World :=
  let verdict := w.verify m
  let w := w.verified m verdict
  match verdict with
  | .error vs => (.error (Violation.summary vs), w)
  | .ok c => w.submit m c b

end World

end TypedIR
