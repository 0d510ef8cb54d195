import TypedIR.Backend
import TypedIR.Builder.Calls
import TypedIR.Declare

namespace TypedIR

inductive TypeCall
  | resolve (spec : TypeSpec)
  | void
  | int (bits : Nat)
  | float (kind : FloatKind)
  | pointer (space : Nat)
  | array (elem : TypeRef) (count : UInt64)
  | vector (elem : TypeRef) (count : UInt64)
  | struct (fields : List TypeRef) (packed : Bool)
  | fn (result : TypeRef) (params : List TypeRef) (variadic : Bool)
  | named (name : String)
  | setBody (t : TypeRef) (fields : List TypeRef) (packed : Bool)

def TypeCall.request : TypeCall → TypeRequest TypeRef
  | resolve spec => .resolve spec
  | void => .void
  | int bits => .int bits
  | float kind => .float kind
  | pointer space => .pointer space
  | array elem count => .array elem count
  | vector elem count => .vector elem count
  | struct fields packed => .struct fields packed
  | fn result params variadic => .fn result params variadic
  | named name => .named name
  | setBody t fields packed => do
    TypeRequest.setBody t fields packed
    return t

inductive BuildCall
  | appendBlock (f : FuncRef) (label : String)
  | setCursor (c : Cursor)
  | setLoc (loc : SourceLoc)
  | atEnd (b : BlockRef)
  | before (b : Option BlockRef) (index : Nat)
  | binary (op : Opcode) (a b : Value) (name : String)
  | fneg (a : Value) (name : String)
  | icmp (predicate : Predicate) (a b : Value) (name : String)
  | fcmp (predicate : Predicate) (a b : Value) (name : String)
  | cast (op : Opcode) (a : Value) (type : TypeRef) (name : String)
  | alloca (allocated : TypeRef) (count : Option Value) (name : String)
  | load (type : TypeRef) (p : Value) (name : String)
  | store (v p : Value)
  | select (condition a b : Value) (name : String)
  | phi (type : TypeRef) (edges : List (Option BlockRef × Value)) (name : String)
  | addIncoming (p : Value) (block : BlockRef) (v : Value)
  | call (callee : FuncRef) (args : List Value) (name : String)
  | callIndirect (signature : TypeRef) (callee : Value) (args : List Value) (name : String)
  | br (target : BlockRef)
  | condbr (condition : Value) (yes no : BlockRef)
  | switch (scrutinee : Value) (default : BlockRef) (cases : List (Value × Option BlockRef))
  | ret (v : Value)
  | retVoid
  | unreachable

def BuildCall.run : BuildCall → BuildM (Option Value)
  | appendBlock f label => (fun _ => none) <$> BuildM.appendBlock f label
  | setCursor c => (fun _ => none) <$> BuildM.setCursor c
  | setLoc loc => (fun _ => none) <$> BuildM.setLoc loc
  | atEnd b => (fun _ => none) <$> BuildM.atEnd b
  | before b index => (fun _ => none) <$> BuildM.before b index
  | binary op a b name => some <$> BuildM.binary op a b name
  | fneg a name => some <$> BuildM.fneg a name
  | icmp predicate a b name => some <$> BuildM.icmp predicate a b name
  | fcmp predicate a b name => some <$> BuildM.fcmp predicate a b name
  | cast op a type name => some <$> BuildM.cast op a type name
  | alloca allocated count name => some <$> BuildM.alloca allocated count name
  | load type p name => some <$> BuildM.load type p name
  | store v p => (fun _ => none) <$> BuildM.store v p
  | select condition a b name => some <$> BuildM.select condition a b name
  | phi type edges name => some <$> BuildM.phi type edges name
  | addIncoming p block v => (fun _ => none) <$> BuildM.addIncoming p block v
  | call callee args name => BuildM.call callee args name
  | callIndirect signature callee args name => BuildM.callIndirect signature callee args name
  | br target => (fun _ => none) <$> BuildM.br target
  | condbr condition yes no => (fun _ => none) <$> BuildM.condbr condition yes no
  | switch scrutinee default cases => (fun _ => none) <$> BuildM.switch scrutinee default cases
  | ret v => (fun _ => none) <$> BuildM.ret v
  | retVoid => (fun _ => none) <$> BuildM.retVoid
  | unreachable => (fun _ => none) <$> BuildM.unreachable

def BuildM.after {α : Type} (x : BuildM α) (s : BuildState) : BuildState :=
  match x s with
  | .ok _ s' | .error _ s' => s'

def BuildCall.after (c : BuildCall) : BuildState → BuildState := c.run.after

def DeclareM.after {α : Type} (x : DeclareM α) (w : World) : World :=
  match x w with
  | .ok _ w' | .error _ w' => w'

/-- A builder call comes with its builder as it is by then: of any module, at any cursor. -/
inductive Operation
  | newContext (widthLimit : Nat) (traces : Bool)
  | dispose (context : Nat)
  | newModule (context : Nat) (name : String)
  | type (context : Nat) (call : TypeCall)
  | constant (context : Nat) (t : TypeRef) (call : ConstantCall)
  | bool (context : Nat) (b : Bool)
  | defineName (context : Nat) (name : String) (v : Value)
  | declareFunc (m : Nat) (name : String) (signature : TypeRef) (linkage : Linkage)
  | declareGlobal (m : Nat) (name : String) (type : TypeRef) (init : Option Value)
      (isConstant : Bool) (linkage : Linkage)
  | build (builder : Builder) (call : BuildCall)
  | verify (m : Nat)
  | submit (m : Nat) (c : Certificate) (b : Backend)

namespace World

def orSame {ε α : Type} (w : World) (answer : Except ε (α × World)) : World :=
  match answer with
  | .ok x => x.2
  | .error _ => w

def perform (w : World) : Operation → World
  | .newContext widthLimit traces => (w.addContext widthLimit traces).2
  | .dispose context => w.dispose context
  | .newModule context name =>
    if 0 < context ∧ context ≤ w.contexts.length then (w.addModule context name).2 else w
  | .type context call => (w.requestType context call.request).2
  | .constant context t call => w.orSame (w.requestConstant context t call.request)
  | .bool context b => w.orSame (w.requestBool context b)
  | .defineName context name v => w.orSame (w.defineName context name v)
  | .declareFunc m name signature linkage => (DeclareM.func m name signature linkage).after w
  | .declareGlobal m name type init isConstant linkage =>
    (DeclareM.global m name type init isConstant linkage).after w
  | .build builder call => (call.after ⟨w, builder⟩).world
  | .verify m => w.verified m (w.verify m)
  | .submit m c b => (w.submit m c b).2

/-- Worlds that operations lead to from the empty one, in any order. -/
inductive Reachable : World → Prop
  | empty : Reachable {}
  | perform {w : World} (h : Reachable w) (o : Operation) : Reachable (w.perform o)

end World

end TypedIR
