import TypedIR.Proofs.Flow.Path

namespace TypedIR.FlowGraph

variable {α : Type} [DecidableEq α]

structure IsOrder (g : FlowGraph α) (entry : α) (order : List α) : Prop where
  head : order.head? = some entry
  nodup : order.Nodup
  closed : ∀ a ∈ order, ∀ b ∈ g.succs a, b ∈ order
  led : ∀ b ∈ order, b = entry ∨ ∃ a, b ∈ g.succs a ∧ [a, b].Sublist order

/-- The order that a walk would give if it entered no further node. Leaving a node keeps it;
entering one puts that node between the stack and the nodes that were left. -/
def line {α : Type} (stack : List (α × List α)) (done : List α) : List α :=
  (stack.map Prod.fst).reverse ++ done

theorem line_leave {α : Type} (a : α) (bs : List α) (rest : List (α × List α)) (done : List α) :
    line rest (a :: done) = line ((a, bs) :: rest) done := by
  simp [line]

theorem mem_line_cons {α : Type} {a : α} {frame : α × List α} {stack : List (α × List α)}
    {done : List α} : a ∈ line (frame :: stack) done ↔ a = frame.1 ∨ a ∈ line stack done := by
  simp [line, or_left_comm]

/-- What holds of a walk at every moment. -/
structure WalkInvariant (g : FlowGraph α) (entry : α) (unseen : List α)
    (stack : List (α × List α)) (done : List α) : Prop where
  head : (line stack done).head? = some entry
  nodup : (line stack done).Nodup
  fresh : ∀ a ∈ unseen, a ∉ line stack done
  known : ∀ a, ∀ b ∈ g.succs a, b ∈ unseen ∨ b ∈ line stack done
  left : ∀ a ∈ done, ∀ b ∈ g.succs a, b ∈ line stack done
  tried : ∀ frame ∈ stack, ∀ b ∈ g.succs frame.1, b ∈ frame.2 ∨ b ∈ line stack done
  edges : ∀ frame ∈ stack, ∀ b ∈ frame.2, b ∈ g.succs frame.1
  led : ∀ b ∈ line stack done, b = entry ∨ ∃ a, b ∈ g.succs a ∧ [a, b].Sublist (line stack done)

variable {g : FlowGraph α} {entry a b : α} {unseen bs done : List α}
  {rest : List (α × List α)}

namespace WalkInvariant

theorem start (g : FlowGraph α) (entry : α) :
    WalkInvariant g entry (without g.nodes entry) [(entry, g.succs entry)] [] where
  head := by simp [line]
  nodup := by simp [line]
  fresh := by simp [line]
  known := by
    intro a b hb
    have hn : b ∈ g.nodes := by
      cases h : g.edges.lookup a with
      | none => simp [succs, h] at hb
      | some bs =>
        obtain ⟨before, after, he, _⟩ := List.lookup_eq_some_iff.1 h
        simp only [succs, h, Option.getD_some] at hb
        simp only [nodes, he, List.flatMap_append, List.flatMap_cons]
        simp [hb]
    by_cases hb' : b = entry
    · simp [line, hb']
    · simp [hn, hb']
  left := by simp
  tried := by
    intro frame hf b hb
    obtain rfl := List.mem_singleton.1 hf
    exact .inl hb
  edges := by
    intro frame hf b hb
    obtain rfl := List.mem_singleton.1 hf
    exact hb
  led := by simp [line]

theorem leave (h : WalkInvariant g entry unseen ((a, []) :: rest) done) :
    WalkInvariant g entry unseen rest (a :: done) where
  head := line_leave a [] rest done ▸ h.head
  nodup := line_leave a [] rest done ▸ h.nodup
  fresh := line_leave a [] rest done ▸ h.fresh
  known := line_leave a [] rest done ▸ h.known
  left := by
    rw [line_leave a []]
    intro c hc b hb
    rcases List.mem_cons.1 hc with rfl | hc
    · simpa using h.tried (c, []) (by simp) b hb
    · exact h.left c hc b hb
  tried := by
    rw [line_leave a []]
    exact fun frame hf => h.tried frame (by simp [hf])
  edges := fun frame hf => h.edges frame (by simp [hf])
  led := line_leave a [] rest done ▸ h.led

theorem skip (h : WalkInvariant g entry unseen ((a, b :: bs) :: rest) done) (hb : b ∉ unseen) :
    WalkInvariant g entry unseen ((a, bs) :: rest) done where
  head := h.head
  nodup := h.nodup
  fresh := h.fresh
  known := h.known
  left := h.left
  tried := by
    intro frame hf c hc
    rcases List.mem_cons.1 hf with rfl | hf
    · have he : b ∈ g.succs a := h.edges (a, b :: bs) (by simp) b (by simp)
      have hs : b ∈ line ((a, b :: bs) :: rest) done := (h.known a b he).resolve_left hb
      rcases h.tried (a, b :: bs) (by simp) c hc with hcb | hcl
      · rcases List.mem_cons.1 hcb with rfl | hcb
        · exact .inr hs
        · exact .inl hcb
      · exact .inr hcl
    · exact h.tried frame (by simp [hf]) c hc
  edges := by
    intro frame hf c hc
    rcases List.mem_cons.1 hf with rfl | hf
    · exact h.edges (a, b :: bs) (by simp) c (by simp [hc])
    · exact h.edges frame (by simp [hf]) c hc
  led := h.led

theorem enter (h : WalkInvariant g entry unseen ((a, b :: bs) :: rest) done) (hb : b ∈ unseen) :
    WalkInvariant g entry (without unseen b) ((b, g.succs b) :: (a, bs) :: rest) done := by
  have he : b ∈ g.succs a := h.edges (a, b :: bs) (by simp) b (by simp)
  have hf : b ∉ line ((a, b :: bs) :: rest) done := h.fresh b hb
  -- The node comes right after the stack, whose top is its predecessor.
  have hold : (line ((a, b :: bs) :: rest) done).Sublist
      (line ((b, g.succs b) :: (a, bs) :: rest) done) := by
    simp [line]
  have hmem (c : α) : c ∈ line ((b, g.succs b) :: (a, bs) :: rest) done ↔
      c = b ∨ c ∈ line ((a, b :: bs) :: rest) done := mem_line_cons
  exact {
    head := by
      have := h.head
      simp only [line, List.map_cons, List.reverse_cons, List.append_assoc] at this ⊢
      cases hr : (rest.map Prod.fst).reverse <;> simp_all
    nodup := by
      have hp : (line ((b, g.succs b) :: (a, bs) :: rest) done).Perm
          (b :: line ((a, b :: bs) :: rest) done) := by
        have hmid : ((rest.map Prod.fst).reverse ++ [a] ++ b :: done).Perm
            (b :: ((rest.map Prod.fst).reverse ++ [a] ++ done)) := List.perm_middle
        simpa [line] using hmid
      exact hp.nodup_iff.2 (List.nodup_cons.2 ⟨hf, h.nodup⟩)
    fresh := by
      intro c hc
      rw [mem_without] at hc
      rw [hmem]
      exact fun hc' => hc'.elim hc.2 (h.fresh c hc.1)
    known := by
      intro c d hd
      rw [hmem, mem_without]
      by_cases hdb : d = b
      · exact .inr (.inl hdb)
      · exact (h.known c d hd).imp (⟨·, hdb⟩) .inr
    left := fun c hc d hd => hold.subset (h.left c hc d hd)
    tried := by
      intro frame hframe c hc
      rw [hmem]
      simp only [List.mem_cons] at hframe
      rcases hframe with rfl | rfl | hframe
      · exact .inl hc
      · have := h.tried (a, b :: bs) (by simp) c hc
        simp only [List.mem_cons] at this
        grind
      · exact (h.tried frame (by simp [hframe]) c hc).imp_right .inr
    edges := by
      intro frame hframe c hc
      simp only [List.mem_cons] at hframe
      rcases hframe with rfl | rfl | hframe
      · exact hc
      · exact h.edges (a, b :: bs) (by simp) c (by simp [hc])
      · exact h.edges frame (by simp [hframe]) c hc
    led := by
      intro c hc
      rcases (hmem c).1 hc with rfl | hc
      · exact .inr ⟨a, he, by simp [line]⟩
      · exact (h.led c hc).imp_right fun ⟨d, hd, hs⟩ => ⟨d, hd, hs.trans hold⟩ }

end WalkInvariant

theorem WalkInvariant.walk {stack : List (α × List α)}
    (h : WalkInvariant g entry unseen stack done) :
    ∃ unseen', WalkInvariant g entry unseen' [] (g.walk unseen stack done) := by
  fun_induction FlowGraph.walk g unseen stack done with
  | case1 unseen done => exact ⟨unseen, h⟩
  | case2 unseen done a rest ih => exact ih h.leave
  | case3 unseen done a rest b bs hb ih => exact ih (h.enter hb)
  | case4 unseen done a rest b bs hb ih => exact ih (h.skip hb)

theorem idxOf_lt_of_sublist {order : List α} (h : order.Nodup) (hs : [a, b].Sublist order) :
    order.idxOf a < order.idxOf b := by
  induction order with
  | nil => cases hs
  | cons c order ih =>
    rw [List.nodup_cons] at h
    cases hs with
    | cons _ hs =>
      have ha : c ≠ a := fun hc => h.1 (hc ▸ hs.subset (by simp))
      have hb : c ≠ b := fun hc => h.1 (hc ▸ hs.subset (by simp))
      simp [List.idxOf_cons, beq_false_of_ne ha, beq_false_of_ne hb, ih h.2 hs]
    | cons_cons _ hs =>
      have hb : a ≠ b := fun hc => h.1 (hc ▸ hs.subset (by simp))
      simp [List.idxOf_cons, beq_false_of_ne hb]

theorem isOrder_reversePostOrder (g : FlowGraph α) (entry : α) :
    g.IsOrder entry (g.reversePostOrder entry) := by
  obtain ⟨unseen, h⟩ := (WalkInvariant.start g entry).walk
  exact ⟨h.head, h.nodup, h.left, h.led⟩

namespace IsOrder

variable {order : List α}

theorem mem_entry (h : g.IsOrder entry order) : entry ∈ order :=
  List.mem_of_mem_head? h.head

theorem idxOf_entry (h : g.IsOrder entry order) : order.idxOf entry = 0 := by
  have := h.head
  cases order with
  | nil => simp at this
  | cons a order => simp_all

theorem exists_pred_before (h : g.IsOrder entry order) (hb : b ∈ order) (hne : b ≠ entry) :
    ∃ a ∈ order, b ∈ g.succs a ∧ order.idxOf a < order.idxOf b := by
  obtain ⟨a, ha, hs⟩ := (h.led b hb).resolve_left hne
  exact ⟨a, hs.subset (by simp), ha, idxOf_lt_of_sublist h.nodup hs⟩

theorem mem_iff_reaches (h : g.IsOrder entry order) : b ∈ order ↔ g.Reaches entry b := by
  constructor
  · intro hb
    -- Every node has a predecessor nearer to the front.
    induction hn : order.idxOf b using Nat.strongRecOn generalizing b with
    | _ n ih =>
      by_cases hne : b = entry
      · exact hne ▸ .refl g b
      · obtain ⟨a, ha, hab, hlt⟩ := h.exists_pred_before hb hne
        exact (ih _ (hn ▸ hlt) ha rfl).step hab
  · rintro ⟨p, hp⟩
    induction hp with
    | refl => exact h.mem_entry
    | step _ hc ih => exact h.closed _ ih _ hc

end IsOrder

end TypedIR.FlowGraph
