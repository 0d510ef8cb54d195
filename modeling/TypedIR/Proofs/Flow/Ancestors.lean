import TypedIR.Flow.Dominators

namespace TypedIR.ParentTable

variable {s t : ParentTable} {a b c i : Nat}

@[simp] theorem isAncestor_self (t : ParentTable) (a : Nat) : t.isAncestor a a := by
  rw [isAncestor]
  simp

theorem isAncestor_of_ne (h : a ≠ b) :
    t.isAncestor a b ↔ t.parent b < b ∧ t.isAncestor a (t.parent b) := by
  rw [isAncestor]
  by_cases hb : t.parent b < b <;> simp [h, hb]

theorem isAncestor_of_parent (h : t.parent b < b) (ha : t.isAncestor a (t.parent b)) :
    t.isAncestor a b := by
  by_cases hab : a = b
  · exact hab ▸ isAncestor_self t a
  · exact (isAncestor_of_ne hab).2 ⟨h, ha⟩

theorem isAncestor_parent (h : t.parent b < b) : t.isAncestor (t.parent b) b :=
  isAncestor_of_parent h (isAncestor_self _ _)

theorem le_of_isAncestor (h : t.isAncestor a b) : a ≤ b := by
  fun_induction isAncestor t a b with
  | case1 => exact Nat.le_refl _
  | case2 b _ hb ih => exact Nat.le_trans (ih h) (Nat.le_of_lt hb)
  | case3 => simp at h

theorem isAncestor_trans (hab : t.isAncestor a b) (hbc : t.isAncestor b c) :
    t.isAncestor a c := by
  induction c using Nat.strongRecOn with
  | _ c ih =>
    by_cases hne : b = c
    · exact hne ▸ hab
    · obtain ⟨hlt, hbp⟩ := (isAncestor_of_ne hne).1 hbc
      exact isAncestor_of_parent hlt (ih _ hlt hbp)

theorem isAncestor_congr (h : ∀ i ≤ b, s.parent i = t.parent i) :
    s.isAncestor a b = t.isAncestor a b := by
  induction b using Nat.strongRecOn with
  | _ b ih =>
    rw [Bool.eq_iff_iff]
    by_cases hab : a = b
    · simp [hab]
    · rw [isAncestor_of_ne hab, isAncestor_of_ne hab, h b (Nat.le_refl b)]
      apply and_congr_right
      intro hlt
      rw [ih _ hlt fun i hi => h i (by omega)]

theorem isAncestor_meet (ha : t.isAncestor c a) (hb : t.isAncestor c b) :
    t.isAncestor c (t.meet a b) := by
  fun_induction meet t a b with
  | case1 => exact ha
  | case2 a b hne hlt hp ih =>
    have hca : c ≠ a := by
      have := le_of_isAncestor hb
      omega
    exact ih ((isAncestor_of_ne hca).1 ha).2 hb
  | case3 => exact hb
  | case4 a b hne hlt hp ih =>
    have hcb : c ≠ b := by
      have := le_of_isAncestor ha
      omega
    exact ih ha ((isAncestor_of_ne hcb).1 hb).2
  | case5 => exact ha

/-- The root is its own parent, and every other known number has a known parent before it. -/
structure Rooted (t : ParentTable) : Prop where
  root : t.isSet 0
  parent_root : t.parent 0 = 0
  parent_lt : ∀ i, t.isSet i → i ≠ 0 → t.parent i < i
  isSet_parent : ∀ i, t.isSet i → i ≠ 0 → t.isSet (t.parent i)

namespace Rooted

theorem meet_isAncestor (h : Rooted t) (ha : t.isSet a) (hb : t.isSet b) :
    t.isAncestor (t.meet a b) a ∧ t.isAncestor (t.meet a b) b := by
  fun_induction meet t a b with
  | case1 => simp
  | case2 a b hne hlt hp ih =>
    obtain ⟨hpa, hpb⟩ := ih (h.isSet_parent a ha (by omega)) hb
    exact ⟨isAncestor_of_parent hp hpa, hpb⟩
  | case3 a b hne hlt hp => exact absurd (h.parent_lt a ha (by omega)) hp
  | case4 a b hne hlt hp ih =>
    obtain ⟨hpa, hpb⟩ := ih ha (h.isSet_parent b hb (by omega))
    exact ⟨hpa, isAncestor_of_parent hp hpb⟩
  | case5 a b hne hlt hp => exact absurd (h.parent_lt b hb (by omega)) hp

theorem isSet_of_isAncestor (h : Rooted t) (hb : t.isSet b) (hab : t.isAncestor a b) :
    t.isSet a := by
  induction b using Nat.strongRecOn with
  | _ b ih =>
    by_cases hne : a = b
    · exact hne ▸ hb
    · obtain ⟨hlt, hap⟩ := (isAncestor_of_ne hne).1 hab
      exact ih _ hlt (h.isSet_parent b hb (by omega)) hap

theorem isSet_meet (h : Rooted t) (ha : t.isSet a) (hb : t.isSet b) : t.isSet (t.meet a b) :=
  h.isSet_of_isAncestor ha (h.meet_isAncestor ha hb).1

end Rooted

structure IsNearest (t : ParentTable) (c : Nat) (xs : List Nat) : Prop where
  common : ∀ x ∈ xs, t.isAncestor c x
  nearest : ∀ a, (∀ x ∈ xs, t.isAncestor a x) → t.isAncestor a c

theorem Rooted.isNearest_foldl (h : Rooted t) {p : Nat} {ps : List Nat}
    (hs : ∀ x ∈ p :: ps, t.isSet x) :
    t.IsNearest (ps.foldl (fun a q => t.meet q a) p) (p :: ps) := by
  induction ps generalizing p with
  | nil => exact ⟨by simp, fun a ha => ha p (by simp)⟩
  | cons q ps ih =>
    have hp : t.isSet p := hs p (by simp)
    have hq : t.isSet q := hs q (by simp)
    have hrec := ih (p := t.meet q p) (by
      intro x hx
      rcases List.mem_cons.1 hx with rfl | hx
      · exact h.isSet_meet hq hp
      · exact hs x (by simp [hx]))
    have hm := hrec.common (t.meet q p) (by simp)
    obtain ⟨hmq, hmp⟩ := h.meet_isAncestor hq hp
    constructor
    · intro x hx
      simp only [List.mem_cons] at hx
      rcases hx with rfl | rfl | hx
      · exact isAncestor_trans hm hmp
      · exact isAncestor_trans hm hmq
      · exact hrec.common x (by simp [hx])
    · intro a ha
      apply hrec.nearest
      intro x hx
      rcases List.mem_cons.1 hx with rfl | hx
      · exact isAncestor_meet (ha q (by simp)) (ha p (by simp))
      · exact ha x (by simp [hx])

end TypedIR.ParentTable
