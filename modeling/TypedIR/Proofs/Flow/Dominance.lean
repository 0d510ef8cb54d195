import TypedIR.Flow.Dominators
import TypedIR.Proofs.Flow.Order
import TypedIR.Proofs.Flow.Settling

namespace TypedIR.FlowGraph

variable {α : Type} [DecidableEq α]

def numberedPreds (g : FlowGraph α) (order : List α) (i : Nat) : List Nat :=
  (order.map fun a => (g.preds a).map order.idxOf).getD i []

variable {g : FlowGraph α} {entry a b : α} {order : List α}

theorem numberedPreds_idxOf (hb : b ∈ order) :
    g.numberedPreds order (order.idxOf b) = (g.preds b).map order.idxOf := by
  have hlt := List.idxOf_lt_length_of_mem hb
  simp [numberedPreds, hlt]

theorem idxOf_eq_iff (ha : a ∈ order) : order.idxOf a = order.idxOf b ↔ a = b := by
  constructor
  · intro h
    have hb : b ∈ order := List.idxOf_lt_length_iff.1 (h ▸ List.idxOf_lt_length_of_mem ha)
    exact List.idxOf_inj ha |>.1 h
  · exact congrArg order.idxOf

namespace IsOrder

theorem pos (h : g.IsOrder entry order) : 0 < order.length :=
  List.length_pos_of_mem h.mem_entry

theorem idxOf_eq_zero (h : g.IsOrder entry order) : order.idxOf b = 0 ↔ b = entry := by
  rw [← h.idxOf_entry, eq_comm, idxOf_eq_iff h.mem_entry, eq_comm]

theorem numbering (h : g.IsOrder entry order) (hg : g.IsFunctional) :
    Numbering (g.numberedPreds order) order.length where
  pos := h.pos
  led := by
    intro i hi hlt
    have hb : order[i] ∈ order := List.getElem_mem hlt
    have hidx : order.idxOf order[i] = i := h.nodup.idxOf_getElem i hlt
    have hne : order[i] ≠ entry := fun he => hi (hidx ▸ h.idxOf_eq_zero.2 he)
    obtain ⟨a, _, hab, halt⟩ := h.exists_pred_before hb hne
    refine ⟨order.idxOf a, ?_, by omega⟩
    rw [← hidx, numberedPreds_idxOf hb]
    exact List.mem_map_of_mem (hg.mem_preds_iff.2 hab)
  outside := by
    intro i hi
    simp [numberedPreds, hi]

theorem exists_path (h : g.IsOrder entry order) (hg : g.IsFunctional) {i : Nat}
    (ha : Avoids (g.numberedPreds order) (order.idxOf a) i) (hb : b ∈ order)
    (hi : order.idxOf b = i) : ∃ p, g.Path entry b p ∧ a ∉ p := by
  induction ha generalizing b with
  | root hne =>
    obtain rfl := h.idxOf_eq_zero.1 hi
    exact ⟨_, .refl, by simpa using fun he => hne (h.idxOf_eq_zero.2 he)⟩
  | @step k i hk hki hia ih =>
    subst hi
    rw [numberedPreds_idxOf hb] at hki
    obtain ⟨c, hc, rfl⟩ := List.mem_map.1 hki
    have hcm : c ∈ order :=
      List.idxOf_lt_length_iff.1 (hk.lt_size (h.numbering hg))
    obtain ⟨p, hp, hap⟩ := ih hcm rfl
    refine ⟨p ++ [b], hp.step (hg.mem_preds_iff.1 hc), ?_⟩
    have hab : a ≠ b := fun he => hia (he ▸ rfl)
    simp [hap, hab]

theorem avoids_of_path (h : g.IsOrder entry order) (hg : g.IsFunctional) {p : List α}
    (hp : g.Path entry b p) (ha : a ∉ p) :
    Avoids (g.numberedPreds order) (order.idxOf a) (order.idxOf b) := by
  induction hp with
  | refl =>
    rw [h.idxOf_entry]
    exact .root fun h0 => ha (by simp [h.idxOf_eq_zero.1 h0])
  | @step b c p hp hc ih =>
    have hcm : c ∈ order := h.mem_iff_reaches.2 ⟨_, hp.step hc⟩
    apply Avoids.step (ih fun hm => ha (by simp [hm]))
    · rw [numberedPreds_idxOf hcm]
      exact List.mem_map_of_mem (hg.mem_preds_iff.2 hc)
    · exact fun he => ha (by simp [(idxOf_eq_iff hcm).1 he])

theorem not_avoids_iff (h : g.IsOrder entry order) (hg : g.IsFunctional) (hb : b ∈ order) :
    ¬ Avoids (g.numberedPreds order) (order.idxOf a) (order.idxOf b) ↔
      g.Dominates entry a b := by
  constructor
  · exact fun ha p hp => Classical.byContradiction fun hap => ha (h.avoids_of_path hg hp hap)
  · intro hd ha
    obtain ⟨p, hp, hap⟩ := h.exists_path hg ha hb rfl
    exact hap (hd p hp)

end IsOrder

/-- The node that strictly dominates another and is dominated by all that do. -/
structure IsImmediateDominator (g : FlowGraph α) (entry a b : α) : Prop where
  strict : g.StrictlyDominates entry a b
  nearest : ∀ c, g.StrictlyDominates entry c b → g.Dominates entry c a

structure IsTree (g : FlowGraph α) (entry : α) (d : DomTree α) : Prop where
  functional : g.IsFunctional
  order : g.IsOrder entry d.order
  table : d.table.Settled (g.numberedPreds d.order) d.order.length
  ends : d.table.EndsIn (g.numberedPreds d.order) d.order.length

theorem isTree_domTree (hg : g.IsFunctional) (entry : α) : g.IsTree entry (g.domTree entry) where
  functional := hg
  order := isOrder_reversePostOrder g entry
  table := (ParentTable.settled_settle_start
    ((isOrder_reversePostOrder g entry).numbering hg)).1
  ends := ParentTable.endsIn_settle_start ((isOrder_reversePostOrder g entry).numbering hg)

namespace IsTree

variable {d : DomTree α}

theorem contains_iff (h : g.IsTree entry d) : d.contains b ↔ g.Reaches entry b := by
  rw [← h.order.mem_iff_reaches, ← List.idxOf_lt_length_iff]
  constructor
  · intro hb
    exact h.table.length_eq ▸ ParentTable.lt_length_of_isSet hb
  · exact h.table.isSet _

theorem isAncestor_iff (h : g.IsTree entry d) (hb : b ∈ d.order) :
    d.table.isAncestor (d.order.idxOf a) (d.order.idxOf b) ↔ g.Dominates entry a b := by
  rw [h.table.isAncestor_iff (h.order.numbering h.functional) (List.idxOf_lt_length_of_mem hb),
    h.order.not_avoids_iff h.functional hb]

theorem dominates_iff (h : g.IsTree entry d) :
    d.dominates a b ↔ g.Reaches entry b ∧ g.Dominates entry a b := by
  simp only [DomTree.dominates, Bool.and_eq_true, h.contains_iff]
  constructor
  · rintro ⟨⟨_, hb⟩, hab⟩
    exact ⟨hb, (h.isAncestor_iff (h.order.mem_iff_reaches.2 hb)).1 hab⟩
  · rintro ⟨hb, hab⟩
    exact ⟨⟨hab.reaches hb, hb⟩, (h.isAncestor_iff (h.order.mem_iff_reaches.2 hb)).2 hab⟩

theorem exists_idom? (h : g.IsTree entry d) (hb : g.Reaches entry b) (hne : b ≠ entry) :
    ∃ a, d.idom? b = some a ∧ g.IsImmediateDominator entry a b := by
  have hmem := h.order.mem_iff_reaches.2 hb
  have hlt := List.idxOf_lt_length_of_mem hmem
  have hi : d.order.idxOf b ≠ 0 := fun h0 => hne (h.order.idxOf_eq_zero.1 h0)
  have hset := h.table.isSet _ hlt
  have hparent := h.table.parent_lt _ hset hi
  have hplt : d.table.parent (d.order.idxOf b) < d.order.length := Nat.lt_trans hparent hlt
  obtain ⟨a, ha⟩ : ∃ a, d.order[d.table.parent (d.order.idxOf b)]? = some a :=
    ⟨_, List.getElem?_eq_getElem hplt⟩
  have hidx : d.order.idxOf a = d.table.parent (d.order.idxOf b) := by
    rw [List.getElem?_eq_getElem hplt] at ha
    exact Option.some.inj ha ▸ h.order.nodup.idxOf_getElem _ hplt
  refine ⟨a, ?_, ⟨⟨?_, ?_⟩, ?_⟩⟩
  · simp [DomTree.idom?, hi, ParentTable.getElem?_parents hset, ha]
  · rw [← h.isAncestor_iff hmem, hidx]
    exact ParentTable.isAncestor_parent hparent
  · rintro rfl
    omega
  · intro c ⟨hc, hcb⟩
    have hcne : d.order.idxOf c ≠ d.order.idxOf b :=
      fun he => hcb ((idxOf_eq_iff hmem).1 he.symm).symm
    rw [← h.isAncestor_iff (List.mem_of_getElem? ha), hidx]
    exact ((ParentTable.isAncestor_of_ne hcne).1 ((h.isAncestor_iff hmem).2 hc)).2

theorem idom?_eq_none_iff (h : g.IsTree entry d) :
    d.idom? b = none ↔ b = entry ∨ ¬ g.Reaches entry b := by
  constructor
  · intro hnone
    by_cases hne : b = entry
    · exact .inl hne
    · right
      intro hb
      obtain ⟨a, ha, _⟩ := h.exists_idom? hb hne
      simp [hnone] at ha
  · rintro (rfl | hb)
    · simp [DomTree.idom?, h.order.idxOf_entry]
    · rw [← h.contains_iff] at hb
      simp only [DomTree.contains, ParentTable.isSet, Bool.not_eq_true, Option.isSome_eq_false_iff,
        Option.isNone_iff_eq_none] at hb
      simp [DomTree.idom?, hb]

theorem isImmediateDominator (h : g.IsTree entry d) (ha : d.idom? b = some a) :
    g.Reaches entry b ∧ g.IsImmediateDominator entry a b := by
  have hsome : ¬ d.idom? b = none := by simp [ha]
  rw [h.idom?_eq_none_iff, not_or, Classical.not_not] at hsome
  obtain ⟨c, hc, hi⟩ := h.exists_idom? hsome.2 hsome.1
  obtain rfl : c = a := by simpa [hc] using ha
  exact ⟨hsome.2, hi⟩

end IsTree

end TypedIR.FlowGraph
