import TypedIR.Opcode
import TypedIR.Predicate
import TypedIR.SourceLoc
import TypedIR.Value

/-! Instructions and blocks. Functions and blocks are named by the place where they were made, which
they keep whatever becomes of their contents. -/

namespace TypedIR

structure FuncRef where
  module : Nat
  index : Nat
  deriving DecidableEq, Inhabited

structure BlockRef where
  func : FuncRef
  id : Nat
  deriving DecidableEq, Inhabited

/-- The meaning of the operands depends on the opcode. `targets` are the successors of a
terminator, `incoming` the blocks of a phi, one for each operand; either may name no block.
`typeOperand` is the allocated type or the called signature. -/
structure Instr where
  op : Opcode := .unreachable
  type : TypeRef := {}
  result : Option Nat := none
  operands : List Value := []
  targets : List (Option BlockRef) := []
  incoming : List (Option BlockRef) := []
  predicate : Predicate := .none
  typeOperand : TypeRef := {}
  loc : SourceLoc := {}
  deriving DecidableEq, Inhabited

def Instr.switch? (i : Instr) : Option (Value × Option BlockRef × List (Value × Option BlockRef)) :=
  match i.op, i.operands, i.targets with
  | .switch, scrutinee :: values, default :: targets =>
    if values.length = targets.length then some (scrutinee, default, values.zip targets) else none
  | _, _, _ => none

/-- `parent` is the function that the block says it belongs to. -/
structure Block where
  label : String
  parent : Option FuncRef
  instrs : List Instr := []
  deriving DecidableEq, Inhabited

namespace Block

def terminator? (b : Block) : Option Instr := b.instrs.getLast?.filter (·.op.isTerminator)

def insert (b : Block) (index : Nat) (i : Instr) : Block :=
  { b with instrs := b.instrs.take index ++ i :: b.instrs.drop index }

def phis (b : Block) : List Instr := b.instrs.takeWhile (·.op = .phi)

end Block

/-- The blocks of a function, each under the number it was made with. The first one is the entry;
the others may stand in any order. An entry is a block that the function owns: there is none without
a block behind it. -/
structure BlockList where
  entries : List (Nat × Block)
  numbered : (entries.map Prod.fst).Perm (List.range entries.length)

namespace BlockList

def empty : BlockList := ⟨[], .nil⟩

instance : Inhabited BlockList := ⟨empty⟩

def size (bs : BlockList) : Nat := bs.entries.length

def isEmpty (bs : BlockList) : Bool := bs.entries.isEmpty

def get? (bs : BlockList) (id : Nat) : Option Block := bs.entries.lookup id

theorem get?_eq_none_iff {bs : BlockList} {id : Nat} : bs.get? id = none ↔ bs.size ≤ id := by
  have h := bs.numbered.mem_iff (a := id)
  simp only [List.mem_map, List.mem_range] at h
  simp only [get?, size, List.lookup_eq_none_iff]
  grind

def push (bs : BlockList) (b : Block) : BlockList where
  entries := bs.entries ++ [(bs.size, b)]
  numbered := by
    simpa [size, List.range_succ] using bs.numbered.append_right [bs.entries.length]

theorem get?_push (bs : BlockList) (b : Block) (id : Nat) :
    (bs.push b).get? id = if id = bs.size then some b else bs.get? id := by
  have h := @get?_eq_none_iff bs id
  simp only [get?, push, List.lookup_append, List.lookup_cons, List.lookup_nil] at h ⊢
  grind

def modify (bs : BlockList) (id : Nat) (f : Block → Block) : BlockList where
  entries := bs.entries.map fun e => (e.1, if e.1 = id then f e.2 else e.2)
  numbered := by simpa [ Function.comp_def] using bs.numbered

theorem get?_modify (bs : BlockList) (id k : Nat) (f : Block → Block) :
    (bs.modify id f).get? k = if k = id then (bs.get? k).map f else bs.get? k := by
  simp only [get?, modify]
  induction bs.entries with
  | nil => simp
  | cons e es ih =>
    simp [List.lookup_cons]
    grind

def find? (bs : BlockList) (label : String) : Option Nat :=
  (bs.entries.find? (·.2.label = label)).map Prod.fst

end BlockList

end TypedIR
