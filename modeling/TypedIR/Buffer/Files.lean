import TypedIR.Buffer.Basic

namespace TypedIR

inductive Node
  | directory
  | file (bytes : List UInt8)
  deriving DecidableEq

def maxNameBytes : Nat := 255

def maxPathBytes : Nat := 4095

inductive FilePlace
  | inside (names : List String)
  | outside
  deriving DecidableEq

def FilePlace.next? : FilePlace → String → Option FilePlace
  | p, "" | p, "." => some p
  | .inside (_ :: names), ".." => some (.inside names)
  | _, ".." => some .outside
  | .inside names, name =>
    if name.length ≤ maxNameBytes then some (.inside (name :: names)) else none
  | .outside, _ => none

/-- The names that a path consists of. It is taken up to its first NUL; one that is empty or too
long has none. -/
def pathNames? (path : String) : Option (List String) :=
  let path := String.ofList (path.toList.takeWhile (· ≠ '\x00'))
  if path.isEmpty ∨ maxPathBytes < path.length then none else some (path.splitOn "/")

/-- Files and directories by their names, the innermost one first. The newest entry counts. -/
structure FileTree where
  nodes : List (List String × Node) := []

namespace FileTree

def node? (t : FileTree) : FilePlace → Option Node
  | .inside [] | .outside => some .directory
  | .inside names => t.nodes.lookup names

def step (t : FileTree) (p : FilePlace) (name : String) : Option FilePlace :=
  if t.node? p = some .directory then p.next? name else none

def walk (t : FileTree) (names : List String) : Option FilePlace :=
  names.foldlM t.step (if names.head? = some "" then .outside else .inside [])

def put (t : FileTree) (names : List String) (n : Node) : FileTree := ⟨(names, n) :: t.nodes⟩

theorem node?_put (t : FileTree) (name : String) (names : List String) (n : Node) :
    (t.put (name :: names) n).node? (.inside (name :: names)) = some n := by
  simp [put, node?]

theorem node?_put_of_ne (t : FileTree) {p : FilePlace} {names : List String} (n : Node)
    (h : p ≠ .inside names) : (t.put names n).node? p = t.node? p := by
  match p with
  | .outside | .inside [] => rfl
  | .inside (name :: rest) =>
    have different : (name :: rest == names) = false := beq_false_of_ne fun e => h (e ▸ rfl)
    simp only [put, node?, List.lookup_cons, different]

def write (t : FileTree) (path : String) (bytes : List UInt8) : FileTree :=
  match (pathNames? path).bind t.walk with
  | some (.inside names) =>
    if t.node? (.inside names) = some .directory then t else t.put names (.file bytes)
  | _ => t

def mkdir (t : FileTree) (path : String) : FileTree :=
  let names? := (pathNames? path).map fun names => (names.reverse.dropWhile (· = "")).reverse
  match names?.bind t.walk with
  | some (.inside names) =>
    if (t.node? (.inside names)).isSome then t else t.put names .directory
  | _ => t

end FileTree

def Buffer.ofFile (t : FileTree) (path : String) : Except BufferError Buffer :=
  match ((pathNames? path).bind t.walk).bind t.node? with
  | some .directory => .error (.directory path)
  | some (.file bytes) => Buffer.ofStream ⟨bytes, false, false, false⟩ path
  | none => .error (.missing path)

end TypedIR
