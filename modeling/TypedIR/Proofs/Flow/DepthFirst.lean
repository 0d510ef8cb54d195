import Mathlib.Algebra.GroupWithZero.Nat
import TypedIR.Proofs.Flow.Blocks

namespace TypedIR

namespace FlowGraph

variable {α : Type} [DecidableEq α]

/-- The run of a walk that keeps the nodes it has seen, with the number of its turns and the nodes that it
has left in the end. In a turn the node on top of the stack is left, if all its successors were tried;
else the next one is tried, and entered if it was not seen before. -/
inductive Walks (g : FlowGraph α) : List α → List (α × List α) → List α → Nat → List α → Prop
  | stop {seen order : List α} : Walks g seen [] order 0 order
  | leave {seen done order : List α} {a : α} {rest : List (α × List α)} {n : Nat} :
      Walks g seen rest (a :: done) n order → Walks g seen ((a, []) :: rest) done (n + 1) order
  | enter {seen bs done order : List α} {a b : α} {rest : List (α × List α)} {n : Nat} : b ∉ seen →
      Walks g (b :: seen) ((b, g.succs b) :: (a, bs) :: rest) done n order →
      Walks g seen ((a, b :: bs) :: rest) done (n + 1) order
  | skip {seen bs done order : List α} {a b : α} {rest : List (α × List α)} {n : Nat} : b ∈ seen →
      Walks g seen ((a, bs) :: rest) done n order →
      Walks g seen ((a, b :: bs) :: rest) done (n + 1) order

variable {g : FlowGraph α} {entry a b : α} {unseen seen bs done order : List α}
  {stack rest : List (α × List α)} {n : Nat}

theorem WalkInvariant.mem_unseen_iff (h : WalkInvariant g entry unseen ((a, b :: bs) :: rest) done)
    (hseen : ∀ c, c ∈ seen ↔ c ∈ line ((a, b :: bs) :: rest) done) : b ∈ unseen ↔ b ∉ seen := by
  have hb : b ∈ g.succs a := h.edges (a, b :: bs) List.mem_cons_self b List.mem_cons_self
  rw [hseen]
  exact ⟨h.fresh b, (h.known a b hb).resolve_right⟩

theorem walks_walk (h : WalkInvariant g entry unseen stack done)
    (hseen : ∀ c, c ∈ seen ↔ c ∈ line stack done) :
    ∃ n, g.Walks seen stack done n (g.walk unseen stack done) := by
  fun_induction FlowGraph.walk g unseen stack done generalizing seen with
  | case1 unseen done => exact ⟨0, .stop⟩
  | case2 unseen done a rest ih =>
    obtain ⟨n, hn⟩ := ih h.leave (by rwa [line_leave a []])
    exact ⟨n + 1, .leave hn⟩
  | case3 unseen done a b bs rest hb ih =>
    have hentered (c : α) : c ∈ b :: seen ↔ c ∈ line ((b, g.succs b) :: (a, bs) :: rest) done := by
      have hline : c ∈ line ((b, g.succs b) :: (a, bs) :: rest) done ↔
          c = b ∨ c ∈ line ((a, b :: bs) :: rest) done := mem_line_cons
      rw [List.mem_cons, hseen, hline]
    obtain ⟨n, hn⟩ := ih (h.enter hb) hentered
    exact ⟨n + 1, .enter ((h.mem_unseen_iff hseen).1 hb) hn⟩
  | case4 unseen done a b bs rest hb ih =>
    have hb' : b ∈ seen := Classical.not_not.1 (mt (h.mem_unseen_iff hseen).2 hb)
    obtain ⟨n, hn⟩ := ih (h.skip hb) hseen
    exact ⟨n + 1, .skip hb' hn⟩

def turns (g : FlowGraph α) (nodes : List α) : Nat := (nodes.map fun a => (g.succs a).length + 1).sum

theorem turns_line_cons (g : FlowGraph α) (frame : α × List α) (stack : List (α × List α))
    (done : List α) : g.turns (line (frame :: stack) done) =
      g.turns (line stack done) + ((g.succs frame.1).length + 1) := by
  simp [turns, line]
  omega

theorem Walks.turns_eq (h : g.Walks seen stack done n order) :
    n + g.turns (line stack done) = g.turns order + (stack.map fun frame => frame.2.length + 1).sum := by
  -- The turns to come pay for what the nodes on the stack still have to try, and for those that
  -- are not seen yet.
  induction h with
  | stop => simp [line]
  | @leave seen done order a rest n _ ih =>
    rw [line_leave a []] at ih
    simp only [List.map_cons, List.sum_cons, List.length_nil]
    omega
  | @enter seen bs done order a b rest n _ _ ih =>
    simp only [turns_line_cons, List.map_cons, List.sum_cons, List.length_cons] at ih ⊢
    omega
  | @skip seen bs done order a b rest n _ _ ih =>
    simp only [turns_line_cons, List.map_cons, List.sum_cons, List.length_cons] at ih ⊢
    omega

theorem walks_reversePostOrder (g : FlowGraph α) (entry : α) :
    g.Walks [entry] [(entry, g.succs entry)] [] (g.turns (g.reversePostOrder entry))
      (g.reversePostOrder entry) := by
  obtain ⟨n, hn⟩ : ∃ n, g.Walks [entry] [(entry, g.succs entry)] [] n (g.reversePostOrder entry) :=
    walks_walk (.start g entry) (by simp [line])
  have hturns : n + ((g.succs entry).length + 1) =
      g.turns (g.reversePostOrder entry) + ((g.succs entry).length + 1) := by
    simpa [line, turns] using hn.turns_eq
  exact Nat.add_right_cancel hturns ▸ hn

/-- What holds of edges at every moment of a walk: nodes on the stack lead to those above them, and an
edge out of a node that was left goes forward, or else it closes a cycle. -/
structure ForwardInvariant (g : FlowGraph α) (stack : List (α × List α)) (done : List α) : Prop where
  chain : stack.Pairwise fun above below => g.Reaches below.1 above.1
  ahead : ∀ a ∈ done, ∀ b ∈ g.succs a, g.Reaches b a ∨ [a, b].Sublist done

namespace ForwardInvariant

theorem leave (h : ForwardInvariant g ((a, []) :: rest) done)
    (hw : WalkInvariant g entry unseen ((a, []) :: rest) done) :
    ForwardInvariant g rest (a :: done) where
  chain := (List.pairwise_cons.1 h.chain).2
  ahead := by
    intro c hc b hb
    rcases List.mem_cons.1 hc with rfl | hc
    · -- The target was seen: it is the node itself, is below it on the stack, or was left before.
      have hline := (hw.tried (c, []) List.mem_cons_self b hb).resolve_left List.not_mem_nil
      rcases mem_line_cons.1 hline with rfl | hline
      · exact .inl (.refl g b)
      · rcases List.mem_append.1 hline with hstack | hdone
        · obtain ⟨frame, hframe, rfl⟩ := List.mem_map.1 (List.mem_reverse.1 hstack)
          exact .inl ((List.pairwise_cons.1 h.chain).1 frame hframe)
        · exact .inr ((List.singleton_sublist.2 hdone).cons_cons c)
    · exact (h.ahead c hc b hb).imp_right fun hs => hs.cons a

theorem enter (h : ForwardInvariant g ((a, b :: bs) :: rest) done)
    (hw : WalkInvariant g entry unseen ((a, b :: bs) :: rest) done) :
    ForwardInvariant g ((b, g.succs b) :: (a, bs) :: rest) done where
  chain := by
    have hab : b ∈ g.succs a := hw.edges (a, b :: bs) List.mem_cons_self b List.mem_cons_self
    obtain ⟨habove, hrest⟩ := List.pairwise_cons.1 h.chain
    refine List.pairwise_cons.2 ⟨fun frame hframe => ?_, List.pairwise_cons.2 ⟨habove, hrest⟩⟩
    rcases List.mem_cons.1 hframe with rfl | hframe
    · exact (Reaches.refl g a).step hab
    · exact (habove frame hframe).step hab
  ahead := h.ahead

theorem skip (h : ForwardInvariant g ((a, b :: bs) :: rest) done) :
    ForwardInvariant g ((a, bs) :: rest) done where
  chain := List.pairwise_cons.2 (List.pairwise_cons.1 h.chain)
  ahead := h.ahead

theorem walk (h : ForwardInvariant g stack done) (hw : WalkInvariant g entry unseen stack done) :
    ForwardInvariant g [] (g.walk unseen stack done) := by
  fun_induction FlowGraph.walk g unseen stack done with
  | case1 unseen done => exact h
  | case2 unseen done a rest ih => exact ih (h.leave hw) hw.leave
  | case3 unseen done a b bs rest hb ih => exact ih (h.enter hw) (hw.enter hb)
  | case4 unseen done a b bs rest hb ih => exact ih h.skip (hw.skip hb)

end ForwardInvariant

theorem idxOf_lt_of_edge (hmem : a ∈ g.reversePostOrder entry) (hb : b ∈ g.succs a)
    (hback : ¬ g.Reaches b a) :
    (g.reversePostOrder entry).idxOf a < (g.reversePostOrder entry).idxOf b := by
  have hstart : ForwardInvariant g [(entry, g.succs entry)] [] :=
    ⟨List.pairwise_singleton _ _, fun _ h => absurd h List.not_mem_nil⟩
  have hforward := (hstart.walk (.start g entry)).ahead a hmem b hb
  exact idxOf_lt_of_sublist (isOrder_reversePostOrder g entry).nodup (hforward.resolve_left hback)

example : FlowGraph.reversePostOrder ⟨[(0, [1]), (1, [2, 3]), (2, [1]), (3, [])]⟩ 0 = [0, 1, 3, 2] := by
  cbv

end FlowGraph

namespace World

variable {w : World} {m : Nat} {f : FuncRef} {a b entry : BlockRef}

theorem reverse_postOrder (w : World) (g : FlowGraph BlockRef) (f : FuncRef) :
    (w.postOrder g f).reverse = w.reversePostOrder g f := by
  cases he : w.entryRef? f <;> simp [postOrder, reversePostOrder, FlowGraph.postOrder, he]

theorem reversePostOrder_eq (he : w.entryRef? f = some entry) (g : FlowGraph BlockRef) :
    w.reversePostOrder g f = g.reversePostOrder entry := by
  simp [reversePostOrder, he]

theorem isOrder_of_entryRef (he : w.entryRef? f = some entry) (g : FlowGraph BlockRef) :
    g.IsOrder entry (w.reversePostOrder g f) :=
  reversePostOrder_eq he g ▸ FlowGraph.isOrder_reversePostOrder g entry

theorem head?_reversePostOrder (w : World) (g : FlowGraph BlockRef) (f : FuncRef) :
    (w.reversePostOrder g f).head? = w.entryRef? f := by
  cases he : w.entryRef? f with
  | none => simp [reversePostOrder, he]
  | some entry => exact (isOrder_of_entryRef he g).head

theorem nodup_reversePostOrder (w : World) (g : FlowGraph BlockRef) (f : FuncRef) :
    (w.reversePostOrder g f).Nodup := by
  cases he : w.entryRef? f with
  | none => simp [reversePostOrder, he]
  | some entry => exact (isOrder_of_entryRef he g).nodup

theorem mem_reversePostOrder_iff :
    b ∈ w.reversePostOrder (w.flowGraph m) f ↔ ∃ p, w.FlowPath m f b p := by
  cases he : w.entryRef? f with
  | none => simp [reversePostOrder, FlowPath, he]
  | some entry =>
    rw [(isOrder_of_entryRef he _).mem_iff_reaches]
    simp [FlowPath, FlowGraph.Reaches, he]

theorem idxOf_lt_of_edge {p : List BlockRef} (hp : w.FlowPath m f a p)
    (hb : b ∈ (w.flowGraph m).succs a) (hback : ¬ (w.flowGraph m).Reaches b a) :
    (w.reversePostOrder (w.flowGraph m) f).idxOf a <
      (w.reversePostOrder (w.flowGraph m) f).idxOf b := by
  obtain ⟨entry, he, hpath⟩ := hp
  have ha := mem_reversePostOrder_iff.2 ⟨p, entry, he, hpath⟩
  rw [reversePostOrder_eq he] at ha ⊢
  exact FlowGraph.idxOf_lt_of_edge ha hb hback

def IsAcyclic (w : World) (m : Nat) (f : FuncRef) : Prop :=
  ∀ a p, w.FlowPath m f a p → ∀ b ∈ (w.flowGraph m).succs a, ¬ (w.flowGraph m).Reaches b a

/-- What the postorder of a function and its reverse say about paths and edges, and how many turns the
walk takes that they come from. -/
structure IsDepthFirst (w : World) (m : Nat) (f : FuncRef) (post reversed : List BlockRef) :
    Prop where
  ends : ∀ entry, w.entryRef? f = some entry →
    (w.flowGraph m).Walks [entry] [(entry, (w.flowGraph m).succs entry)] []
      ((w.flowGraph m).turns reversed) reversed
  reverse_eq : post.reverse = reversed
  nodup : post.Nodup
  mem_iff : ∀ b, b ∈ post ↔ ∃ p, w.FlowPath m f b p
  last : post.getLast? = w.entryRef? f
  led : ∀ b p, w.FlowPath m f b p → w.entryRef? f ≠ some b →
    ∃ a ∈ (w.flowGraph m).preds b, a ∈ reversed ∧ reversed.idxOf a < reversed.idxOf b
  forward : ∀ a p, w.FlowPath m f a p → ∀ b ∈ (w.flowGraph m).succs a,
    ¬ (w.flowGraph m).Reaches b a → reversed.idxOf a < reversed.idxOf b
  acyclic : w.IsAcyclic m f → ∀ a p, w.FlowPath m f a p → ∀ b ∈ (w.flowGraph m).succs a,
    reversed.idxOf a < reversed.idxOf b

/-- The depth-first orders of every function are arrived at, and have what is asked of them. -/
theorem isDepthFirst_postOrder (w : World) (m : Nat) (f : FuncRef) : w.IsDepthFirst m f
    (w.postOrder (w.flowGraph m) f) (w.reversePostOrder (w.flowGraph m) f) where
  ends entry he := reversePostOrder_eq he _ ▸ FlowGraph.walks_reversePostOrder _ entry
  reverse_eq := reverse_postOrder w _ f
  nodup := by
    rw [← (List.reverse_perm _).nodup_iff, reverse_postOrder]
    exact nodup_reversePostOrder w _ f
  mem_iff b := by
    rw [← List.mem_reverse, reverse_postOrder]
    exact mem_reversePostOrder_iff
  last := by
    rw [← List.head?_reverse, reverse_postOrder]
    exact head?_reversePostOrder w _ f
  led b p hp hne := by
    obtain ⟨entry, he, hpath⟩ := hp
    have hb := mem_reversePostOrder_iff.2 ⟨p, entry, he, hpath⟩
    obtain ⟨a, ha, hab, hlt⟩ := (isOrder_of_entryRef he _).exists_pred_before hb
      fun h => hne (h ▸ he)
    exact ⟨a, (isFunctional_flowGraph w m).mem_preds_iff.2 hab, ha, hlt⟩
  forward a p hp b hb hback := idxOf_lt_of_edge hp hb hback
  acyclic h a p hp b hb := idxOf_lt_of_edge hp hb (h a p hp b hb)

end World

end TypedIR
