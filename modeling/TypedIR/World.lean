import TypedIR.Context
import TypedIR.Module

/-! Everything there is: contexts, modules, and the text that traced operations have written.
Contexts and modules are never taken away, so their numbers stay good. A reference to something
that was never made finds an empty thing, whose context is gone. -/

namespace TypedIR

structure World where
  contexts : List Context := []
  modules : List Module := []
  log : String := ""
  deriving Inhabited

namespace World

def context (w : World) : Nat → Context
  | 0 => default
  | n + 1 => w.contexts.getD n default

def module (w : World) (m : Nat) : Module := w.modules.getD m default

def contextOf (w : World) (m : Nat) : Context := w.context (w.module m).context

def func? (w : World) (f : FuncRef) : Option Func := (w.module f.module).funcs[f.index]?

def func (w : World) (f : FuncRef) : Func := (w.func? f).getD default

def block? (w : World) (b : BlockRef) : Option Block := (w.func b.func).blocks.get? b.id

def parent? (w : World) (b : BlockRef) : Option FuncRef := (w.block? b).bind (·.parent)

def label (w : World) (b : BlockRef) : String := ((w.block? b).map (·.label)).getD ""

def isBlockOf (w : World) (f : FuncRef) (b : Option BlockRef) : Bool :=
  match b with
  | none => false
  | some b => w.parent? b == some f

def funcRefs (w : World) (m : Nat) : List FuncRef :=
  (List.range (w.module m).funcs.length).map (⟨m, ·⟩)

def blocksOf (w : World) (f : FuncRef) : List (BlockRef × Block) :=
  (w.func f).blocks.entries.map fun e => (⟨f, e.1⟩, e.2)

def setContext (w : World) : Nat → Context → World
  | 0, _ => w
  | n + 1, c => { w with contexts := w.contexts.set n c }

def setModule (w : World) (m : Nat) (x : Module) : World :=
  { w with modules := w.modules.set m x }

theorem module_setModule (w : World) {m : Nat} (h : m < w.modules.length) (x : Module) (k : Nat) :
    (w.setModule m x).module k = if k = m then x else w.module k := by
  simp only [setModule, module]
  grind

@[simp] theorem context_setModule (w : World) (m : Nat) (x : Module) (k : Nat) :
    (w.setModule m x).context k = w.context k := by
  cases k <;> rfl

def modifyFunc (w : World) (f : FuncRef) (g : Func → Func) : World :=
  let m := w.module f.module
  w.setModule f.module { m with funcs := m.funcs.modify f.index g }

def modifyGlobal (w : World) (m index : Nat) (g : Global → Global) : World :=
  let x := w.module m
  w.setModule m { x with globals := x.globals.modify index g }

def modifyBlock (w : World) (b : BlockRef) (g : Block → Block) : World :=
  w.modifyFunc b.func fun f => { f with blocks := f.blocks.modify b.id g }

def modifyInstr (w : World) (b : BlockRef) (index : Nat) (g : Instr → Instr) : World :=
  w.modifyBlock b fun x => { x with instrs := x.instrs.modify index g }

def trace (w : World) (c : Context) (line : String) : World :=
  if c.traces then { w with log := w.log ++ "[kiln] " ++ line ++ "\n" } else w

def addContext (w : World) (widthLimit : Nat) (traces : Bool) : Nat × World :=
  let id := w.contexts.length + 1
  (id, { w with contexts := w.contexts ++ [.new id widthLimit traces] })

def addModule (w : World) (context : Nat) (name : String) : Nat × World :=
  let c := w.context context
  let m : Module := { context, name, serial := c.modulesMade + 1 }
  (w.modules.length,
    { w.setContext context { c with modulesMade := c.modulesMade + 1 } with
      modules := w.modules ++ [m] })

def dispose (w : World) (context : Nat) : World :=
  let c := w.context context
  if c.isDisposed then w
  else (w.setContext context c.dispose).trace c s!"dispose context {c.id}"

/-- A request to the types of a context. What it made stays even if it fails in the end. -/
def requestType {α : Type} (w : World) (context : Nat) (q : TypeRequest α) :
    Except TypeError α × World :=
  let c := w.context context
  match q c.types with
  | .ok a types => (.ok a, w.setContext context { c with types })
  | .error e types => (.error e, w.setContext context { c with types })

def requestConstant (w : World) (context : Nat) (t : TypeRef) (q : ConstantPool.Request) :
    Except ConstantError (Value × World) := do
  let c := w.context context
  let (v, constants) ← q c.constants c.types t
  return (v, w.setContext context { c with constants })

def requestBool (w : World) (context : Nat) (b : Bool) :
    Except ConstantError (Value × World) := do
  let (v, c) ← (w.context context).bool b
  return (v, w.setContext context c)

def defineName (w : World) (context : Nat) (name : String) (v : Value) :
    Except ContextError (Unit × World) := do
  let c := w.context context
  let defined ← c.defineName name v
  if (c.names.lookup name).isSome then return ((), w)
  else
    let line := s!"define value {name} = {c.types.text v.type} {c.literal v}"
    return ((), (w.setContext context defined).trace c line)

def addBlock (w : World) (f : FuncRef) (label : String) : BlockRef × World :=
  let (id, fn) := (w.func f).addBlock f label
  (⟨f, id⟩, w.modifyFunc f fun _ => fn)

def newTemp (w : World) (f : FuncRef) (type : TypeRef) (name : String) : Nat × World :=
  let (id, fn) := (w.func f).newTemp type name
  (id, w.modifyFunc f fun _ => fn)

end World

end TypedIR
