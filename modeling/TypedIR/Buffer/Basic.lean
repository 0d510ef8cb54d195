import TypedIR.Diag

namespace TypedIR

inductive Storage
  | owned (bytes : List UInt8)
  | borrowed
  deriving DecidableEq

structure Buffer where
  name : String
  storage : Storage
  deriving DecidableEq

inductive BufferError
  | directory (path : String)
  | missing (path : String)
  | broken (name : String)
  deriving DecidableEq

namespace BufferError

def message : BufferError → String
  | directory path => s!"cannot read '{path}': is a directory"
  | missing path => s!"cannot open file '{path}'"
  | broken name => s!"error while reading '{name}'"

def diag (e : BufferError) : Diag := ⟨.ioError, e.message, {}, .error⟩

end BufferError

namespace Buffer

def isOwning (b : Buffer) : Bool :=
  match b.storage with
  | .owned _ => true
  | .borrowed => false

def view (b : Buffer) (source : List UInt8) : List UInt8 :=
  match b.storage with
  | .owned bytes => bytes
  | .borrowed => source

def ofRange (name : String) : Buffer := ⟨name, .borrowed⟩

def ofCopy (bytes : List UInt8) (name : String) : Buffer := ⟨name, .owned bytes⟩

@[simp] theorem view_ofCopy (bytes source : List UInt8) (name : String) :
    (ofCopy bytes name).view source = bytes := rfl

@[simp] theorem view_ofRange (source : List UInt8) (name : String) :
    (ofRange name).view source = source := rfl

end Buffer

/-- An input stream: the bytes to come and the three state bits. -/
structure InStream where
  rest : List UInt8
  eof : Bool := false
  fail : Bool := false
  bad : Bool := false

namespace InStream

def good (s : InStream) : Bool := !s.eof && !s.fail && !s.bad

def ok (s : InStream) : Bool := !s.fail && !s.bad

/-- Reads up to `n` bytes. Fewer than `n` set the end bit and the failure bit; a stream that is
not good gives none and fails. -/
def read (s : InStream) (n : Nat) : List UInt8 × InStream :=
  if s.good then
    let short : Bool := s.rest.length < n
    (s.rest.take n, { s with rest := s.rest.drop n, eof := short, fail := short })
  else ([], { s with fail := true })

def chunk : Nat := 4096

def drain (s : InStream) (got : List UInt8) : List UInt8 × InStream :=
  let x := s.read chunk
  if x.2.ok || !x.1.isEmpty then
    if _h : x.2.rest.length < s.rest.length then x.2.drain (got ++ x.1) else (got ++ x.1, x.2)
  else (got, x.2)
termination_by s.rest.length

end InStream

namespace Buffer

def ofStream (s : InStream) (name : String) : Except BufferError Buffer :=
  let (bytes, s) := s.drain []
  if s.bad || !s.eof then .error (.broken name) else .ok (.ofCopy bytes name)

def ofStdin (s : InStream) : Except BufferError Buffer := ofStream s "<stdin>"

end Buffer

end TypedIR
