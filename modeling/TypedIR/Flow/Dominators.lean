import TypedIR.Flow.Graph

/-! Dominator trees. The nodes that are reached from the entry are numbered in reverse postorder,
the entry first; a table gives for each number that of the node's parent in the tree. Parents are
found by refining the table node by node until a whole pass changes nothing. -/

namespace TypedIR

/-- Parents by number. A node that was not met yet has none; the entry is its own. -/
structure ParentTable where
  parents : List (Option Nat)

namespace ParentTable

def isSet (t : ParentTable) (i : Nat) : Bool := t.parents[i]?.join.isSome

def parent (t : ParentTable) (i : Nat) : Nat := t.parents[i]?.join.getD i

/-- The nearest common ancestor. Parents have smaller numbers, so the greater of two numbers is
never an ancestor of the other. -/
def meet (t : ParentTable) (a b : Nat) : Nat :=
  if a = b then a
  else if b < a then if _h : t.parent a < a then t.meet (t.parent a) b else b
  else if _h : t.parent b < b then t.meet a (t.parent b) else a
termination_by a + b

def isAncestor (t : ParentTable) (a b : Nat) : Bool :=
  if a = b then true
  else if _h : t.parent b < b then t.isAncestor a (t.parent b) else false
termination_by b

def start (size : Nat) : ParentTable := ⟨some 0 :: List.replicate (size - 1) none⟩

def refine (preds : Nat → List Nat) (t : ParentTable) (i : Nat) : ParentTable :=
  match (preds i).filter t.isSet with
  | [] => t
  | p :: ps => ⟨t.parents.set i (some (ps.foldl (fun a q => t.meet q a) p))⟩

def pass (preds : Nat → List Nat) (t : ParentTable) : ParentTable :=
  (List.range' 1 (t.parents.length - 1)).foldl (refine preds) t

/-- The sum of all numbers in the table; an unknown parent weighs more than any known one. -/
def weight (t : ParentTable) : Nat :=
  t.parents.foldr (fun p n => p.getD t.parents.length + n) 0

def settle (preds : Nat → List Nat) (t : ParentTable) : ParentTable :=
  let next := t.pass preds
  if _h : next.weight < t.weight then next.settle preds else next
termination_by t.weight

end ParentTable

structure DomTree (α : Type) where
  order : List α
  table : ParentTable

namespace FlowGraph

variable {α : Type} [DecidableEq α]

def domTree (g : FlowGraph α) (entry : α) : DomTree α :=
  let order := g.reversePostOrder entry
  let preds := order.map fun a => (g.preds a).map order.idxOf
  ⟨order, (ParentTable.start order.length).settle (preds.getD · [])⟩

end FlowGraph

namespace DomTree

variable {α : Type} [DecidableEq α]

def empty : DomTree α := ⟨[], ⟨[]⟩⟩

def contains (d : DomTree α) (a : α) : Bool := d.table.isSet (d.order.idxOf a)

def idom? (d : DomTree α) (a : α) : Option α :=
  let i := d.order.idxOf a
  if i = 0 then none else d.table.parents[i]?.join.bind (d.order[·]?)

def dominates (d : DomTree α) (a b : α) : Bool :=
  d.contains a && d.contains b && d.table.isAncestor (d.order.idxOf a) (d.order.idxOf b)

end DomTree

end TypedIR
