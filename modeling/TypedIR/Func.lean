import TypedIR.Instr
import TypedIR.Linkage
import TypedIR.Names

namespace TypedIR

structure Temp where
  type : TypeRef
  name : String
  deriving DecidableEq, Inhabited

structure Param where
  type : TypeRef
  id : Nat
  deriving DecidableEq, Inhabited

/-- `serial` is the scope of the temporaries, unique within the context. The address of a function has the
type `refType`, and names its module by serial and its place there. -/
structure Func where
  name : String := ""
  type : TypeRef := {}
  retType : TypeRef := {}
  variadic : Bool := false
  params : List Param := []
  temps : List Temp := []
  blocks : BlockList := .empty
  linkage : Linkage := .exported
  serial : Nat := 0
  moduleSerial : Nat := 0
  index : Nat := 0
  refType : TypeRef := {}
  labelUses : NameUses := {}
  tempUses : NameUses := {}
  deriving Inhabited

namespace Func

def isDeclaration (f : Func) : Bool := f.blocks.isEmpty

def ref (f : Func) : Value := .global f.refType f.index f.moduleSerial true

def param? (f : Func) (i : Nat) : Option Value := f.params[i]?.map fun p => .param p.type p.id f.serial

def tempValue? (f : Func) (id : Nat) : Option Value :=
  f.temps[id]?.map fun t =>
    if id < f.params.length then .param t.type id f.serial else .result t.type id f.serial

def tempName? (f : Func) (id : Nat) : Option String :=
  (f.temps[id]?.map (·.name)).filter (!·.isEmpty)

def tempText (f : Func) (id : Nat) : String := "%" ++ (f.tempName? id).getD (toString id)

def addBlock (f : Func) (self : FuncRef) (label : String) : Nat × Func :=
  let (label, uses) := f.labelUses.claim (if label.isEmpty then "bb" else label)
  (f.blocks.size, { f with blocks := f.blocks.push ⟨label, some self, []⟩, labelUses := uses })

/-- One more temporary. Names that look generated get a suffix, so that no name that is written
out can be mistaken for a generated one. -/
def newTemp (f : Func) (type : TypeRef) (name : String) : Nat × Func :=
  if name.isEmpty then (f.temps.length, { f with temps := f.temps ++ [⟨type, ""⟩] })
  else
    let (name, uses) := f.tempUses.claim (if isReservedName name then name ++ ".0" else name)
    (f.temps.length, { f with temps := f.temps ++ [⟨type, name⟩], tempUses := uses })

def addParam (f : Func) (type : TypeRef) : Func :=
  let (id, f) := f.newTemp type ""
  { f with params := f.params ++ [⟨type, id⟩] }

end Func

structure Global where
  name : String := ""
  type : TypeRef := {}
  init : Option Value := none
  isConstant : Bool := false
  linkage : Linkage := .exported
  moduleSerial : Nat := 0
  index : Nat := 0
  refType : TypeRef := {}
  deriving DecidableEq, Inhabited

def Global.ref (g : Global) : Value := .global g.refType g.index g.moduleSerial false

end TypedIR
