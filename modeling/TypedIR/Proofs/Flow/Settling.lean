import Mathlib.Logic.Function.Iterate
import TypedIR.Proofs.Flow.Refinement

/-! The table that refinement ends with. No pass loses a dominator, and a table that a pass leaves as
it is has no other ancestors, so in the end ancestors and dominators are the same. -/

namespace TypedIR.ParentTable

variable {preds : Nat → List Nat} {size : Nat} {t m : ParentTable} {a b c j : Nat}

/-- Every strict dominator of a number dominates its parent. -/
def Retains (preds : Nat → List Nat) (t : ParentTable) : Prop :=
  ∀ b, b ≠ 0 → t.isSet b → ∀ a, a ≠ b → ¬ Avoids preds a b → ¬ Avoids preds a (t.parent b)

theorem Retains.not_avoids_ancestor (h : Retains preds t) (hr : t.Rooted) (hb : t.isSet b)
    (ha : ¬ Avoids preds a b) (hc : t.isAncestor c b) (hac : a ≤ c) : ¬ Avoids preds a c := by
  induction b using Nat.strongRecOn with
  | _ b ih =>
    by_cases hcb : c = b
    · exact hcb ▸ ha
    · obtain ⟨hlt, hcp⟩ := (isAncestor_of_ne hcb).1 hc
      have := le_of_isAncestor hcp
      have h0 : b ≠ 0 := by omega
      exact ih _ hlt (hr.isSet_parent b hb h0) (h b h0 hb a (by omega) ha) hcp

theorem Retains.isAncestor (h : Retains preds t) (hr : t.Rooted) (hb : t.isSet b)
    (ha : ¬ Avoids preds a b) : t.isAncestor a b := by
  induction b using Nat.strongRecOn with
  | _ b ih =>
    by_cases hab : a = b
    · exact hab ▸ isAncestor_self t a
    · by_cases h0 : b = 0
      · exact absurd (h0 ▸ .root (by omega)) ha
      · have hlt := hr.parent_lt b hb h0
        exact isAncestor_of_parent hlt
          (ih _ hlt (hr.isSet_parent b hb h0) (h b h0 hb a hab ha))

theorem Retains.pass (hn : Numbering preds size) (hv : Valid size t) (h : Retains preds t) :
    Retains preds (t.pass preds) := by
  obtain ⟨hv', hs'⟩ := valid_pass hn hv
  intro b
  induction b using Nat.strongRecOn with
  | _ b ih =>
    intro h0 hb a hab ha
    have hsize : b < size := hv'.length_eq ▸ lt_length_of_isSet hb
    obtain ⟨m, hm⟩ := exists_stage hn hv h0 hsize
    have hmr : Retains preds m := by
      intro c hc0 hc d hdc hd
      by_cases hcb : c < b
      · rw [(hm.new c hcb).2]
        exact ih c hcb hc0 (hs' c (by omega)) d hdc hd
      · rw [(hm.old c (by omega)).1] at hc
        rw [(hm.old c (by omega)).2]
        exact h c hc0 hc d hdc hd
    -- The dominator is one of all predecessors, hence an ancestor of them and of the parent.
    have hpreds : ∀ p ∈ preds b, ¬ Avoids preds a p := fun p hp hap =>
      ha (.step hap hp (Ne.symm hab))
    have hanc : m.isAncestor a ((t.pass preds).parent b) := by
      apply hm.nearest.nearest
      intro p hp
      obtain ⟨hp, hps⟩ := List.mem_filter.1 hp
      exact hmr.isAncestor hm.rooted hps (hpreds p hp)
    obtain ⟨p, hp, hpb⟩ := hn.led b h0 hsize
    exact hmr.not_avoids_ancestor hm.rooted (hm.new p hpb).1 (hpreds p hp)
      (hm.nearest.common p (hm.mem_filter hp hpb)) (le_of_isAncestor hanc)

/-- What a series of passes arrives at. -/
structure Settled (preds : Nat → List Nat) (size : Nat) (t : ParentTable) : Prop
    extends Valid size t where
  isSet : ∀ i < size, t.isSet i
  retains : Retains preds t
  pass_eq : t.pass preds = t

theorem Settled.not_isAncestor (hn : Numbering preds size) (h : Settled preds size t)
    (hb : Avoids preds a b) : ¬ t.isAncestor a b := by
  induction hb with
  | root h0 => exact fun ha => h0 (Nat.le_zero.1 (le_of_isAncestor ha))
  | @step p b hap hp hba ih =>
    intro ha
    obtain ⟨hlt, hapar⟩ := (isAncestor_of_ne hba.symm).1 ha
    have hsize : b < size := (Avoids.step hap hp hba).lt_size hn
    obtain ⟨m, hm⟩ := exists_stage hn h.toValid (by omega) hsize
    rw [h.pass_eq] at hm
    have hparent : ∀ i, m.parent i = t.parent i := fun i => by
      by_cases hib : i < b
      · exact (hm.new i hib).2
      · exact (hm.old i (by omega)).2
    have hps : m.isSet p := by
      by_cases hpb : p < b
      · exact (hm.new p hpb).1
      · exact (hm.old p (by omega)).1 ▸ h.isSet p (hap.lt_size hn)
    -- Nothing moves in a settled table, so the parent is an ancestor of every predecessor.
    have hcommon := hm.nearest.common p (List.mem_filter.2 ⟨hp, hps⟩)
    rw [isAncestor_congr fun i _ => hparent i] at hcommon
    exact ih (isAncestor_trans hapar hcommon)

theorem Settled.isAncestor_iff (hn : Numbering preds size) (h : Settled preds size t)
    (hb : b < size) : t.isAncestor a b ↔ ¬ Avoids preds a b :=
  ⟨fun ha hab => h.not_isAncestor hn hab ha, h.retains.isAncestor h.toRooted (h.isSet b hb)⟩

theorem settled_settle (hn : Numbering preds size) (hv : Valid size t) (hf : Forward preds t)
    (hr : Retains preds t) (h : Shrinks t (t.pass preds)) :
    Settled preds size (t.settle preds) ∧ ∃ n, t.settle preds = (pass preds)^[n] t := by
  fun_induction settle preds t with
  | case1 t next hlt ih =>
    obtain ⟨hs, n, he⟩ := ih (valid_pass hn hv).1 (forward_pass hn hv) (hr.pass hn hv)
      (h.pass hn hv hf)
    exact ⟨hs, n + 1, by rw [he, Function.iterate_succ_apply]⟩
  | case2 t next hlt =>
    have heq : t.pass preds = t := (h.weight_lt_or_eq hn hv).resolve_left hlt
    obtain ⟨hv', hs'⟩ := valid_pass hn hv
    refine ⟨⟨hv', hs', hr.pass hn hv, ?_⟩, 1, rfl⟩
    rw [show next = t from heq, heq]

theorem isSet_start (size i : Nat) : (start size).isSet i ↔ i = 0 := by
  cases i with
  | zero => simp [start, ParentTable.isSet]
  | succ i =>
    have hi : (List.replicate (size - 1) (none : Option Nat))[i]?.join = none := by
      rw [List.getElem?_replicate]
      split <;> rfl
    simp [start, ParentTable.isSet, hi]

theorem valid_start (h : 0 < size) : Valid size (start size) where
  root := (isSet_start size 0).2 rfl
  parent_root := rfl
  parent_lt := fun i hi h0 => absurd ((isSet_start size i).1 hi) h0
  isSet_parent := fun i hi h0 => absurd ((isSet_start size i).1 hi) h0
  length_eq := by simp [start]; omega

theorem settled_settle_start (hn : Numbering preds size) :
    Settled preds size ((start size).settle preds) ∧
      ∃ n, (start size).settle preds = (pass preds)^[n] (start size) := by
  apply settled_settle hn (valid_start hn.pos)
  · exact fun b h0 hb => absurd ((isSet_start size b).1 hb) h0
  · exact fun b h0 hb => absurd ((isSet_start size b).1 hb) h0
  · intro a b hb ha
    obtain rfl := (isSet_start size b).1 hb
    obtain rfl := Nat.le_zero.1 (le_of_isAncestor ha)
    exact isAncestor_self _ 0

structure EndsIn (preds : Nat → List Nat) (size : Nat) (t : ParentTable) : Prop where
  climbs : ∀ n, ∀ k < size, (upTo preds ((pass preds)^[n] (start size)) k).Rooted
  passes : ∃ n, t = (pass preds)^[n] (start size)
  pass_eq : t.pass preds = t

theorem valid_iterate (hn : Numbering preds size) (n : Nat) :
    Valid size ((pass preds)^[n] (start size)) := by
  induction n with
  | zero => exact valid_start hn.pos
  | succ n ih =>
    rw [Function.iterate_succ_apply']
    exact (valid_pass hn ih).1

theorem endsIn_settle_start (hn : Numbering preds size) :
    EndsIn preds size ((start size).settle preds) := by
  obtain ⟨hs, n, he⟩ := settled_settle_start hn
  exact ⟨fun n k hk => (valid_upTo hn (valid_iterate hn n) hk).1.toRooted, ⟨n, he⟩, hs.pass_eq⟩

end TypedIR.ParentTable
