import TypedIR.Flow.Dominators
import TypedIR.World

namespace TypedIR

namespace World

/-- The targets of the terminator that are blocks of the function, each once. -/
def blockSuccs (w : World) (f : FuncRef) (b : Block) : List BlockRef :=
  match b.terminator? with
  | none => []
  | some i => ((i.targets.filter (w.isBlockOf f)).filterMap id).eraseDups

def flowGraph (w : World) (m : Nat) : FlowGraph BlockRef :=
  ⟨(w.funcRefs m).flatMap fun f => (w.blocksOf f).map fun e => (e.1, w.blockSuccs f e.2)⟩

def entryRef? (w : World) (f : FuncRef) : Option BlockRef := ((w.blocksOf f).head?).map Prod.fst

def reversePostOrder (w : World) (g : FlowGraph BlockRef) (f : FuncRef) : List BlockRef :=
  match w.entryRef? f with
  | none => []
  | some entry => g.reversePostOrder entry

def postOrder (w : World) (g : FlowGraph BlockRef) (f : FuncRef) : List BlockRef :=
  match w.entryRef? f with
  | none => []
  | some entry => g.postOrder entry

/-- The dominator tree of a function in a flow graph, which may be that of another module. -/
def domTree (w : World) (g : FlowGraph BlockRef) (f : FuncRef) : DomTree BlockRef :=
  match w.entryRef? f with
  | none => .empty
  | some entry => g.domTree entry

end World

end TypedIR
