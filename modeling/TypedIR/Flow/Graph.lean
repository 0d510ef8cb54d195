namespace TypedIR

structure FlowGraph (α : Type) where
  edges : List (α × List α) := []

namespace FlowGraph

variable {α : Type} [DecidableEq α]

def succs (g : FlowGraph α) (a : α) : List α := (g.edges.lookup a).getD []

def preds (g : FlowGraph α) (b : α) : List α := (g.edges.filter (b ∈ ·.2)).map Prod.fst

theorem mem_preds {g : FlowGraph α} {a b : α} :
    a ∈ g.preds b ↔ ∃ bs, (a, bs) ∈ g.edges ∧ b ∈ bs := by
  simp [preds]

def nodes (g : FlowGraph α) : List α := g.edges.flatMap fun e => e.1 :: e.2

def without (xs : List α) (a : α) : List α := xs.filter (· ≠ a)

@[simp] theorem mem_without {xs : List α} {a b : α} : b ∈ without xs a ↔ b ∈ xs ∧ b ≠ a := by
  simp [without]

theorem length_without_lt {xs : List α} {a : α} (h : a ∈ xs) :
    (without xs a).length < xs.length :=
  List.length_filter_lt_length_iff_exists.2 ⟨a, h, by simp⟩

/-- A depth-first walk. Each frame on the stack is a node with the successors that are still to be
tried; a node is entered while it is unseen, and written in front of `done` when it is left. -/
def walk (g : FlowGraph α) (unseen : List α) (stack : List (α × List α)) (done : List α) :
    List α :=
  match stack with
  | [] => done
  | (a, []) :: rest => walk g unseen rest (a :: done)
  | (a, b :: bs) :: rest =>
    if _h : b ∈ unseen then
      walk g (without unseen b) ((b, g.succs b) :: (a, bs) :: rest) done
    else walk g unseen ((a, bs) :: rest) done
termination_by (unseen.length, stack.foldr (fun frame n => frame.2.length + 1 + n) 0)
decreasing_by
  · exact Prod.Lex.right _ (by simp)
  · exact Prod.Lex.left _ _ (length_without_lt _h)
  · exact Prod.Lex.right _ (by simp)

def reversePostOrder (g : FlowGraph α) (entry : α) : List α :=
  g.walk (without g.nodes entry) [(entry, g.succs entry)] []

def postOrder (g : FlowGraph α) (entry : α) : List α := (g.reversePostOrder entry).reverse

end FlowGraph

end TypedIR
