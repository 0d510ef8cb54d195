import Mathlib.Data.List.Forall2
import TypedIR.Proofs.Flow.Ancestors

/-! Refinement of a table of parents, pass by pass. The numbers stand for the nodes of a graph whose
root is zero; `preds` gives the predecessors of each. While a pass is at a number, the numbers before
it have their new parents and the others their old ones: everything about a pass is read off these
stages. The passes take ancestors away and never bring one back, which is why they come to an end;
at the end the ancestors of a number are just the numbers that no way to it keeps off. -/

namespace TypedIR

/-- A way from the root to `b` that keeps off `a`. -/
inductive Avoids (preds : Nat → List Nat) (a : Nat) : Nat → Prop
  | root : a ≠ 0 → Avoids preds a 0
  | step {p b} : Avoids preds a p → p ∈ preds b → b ≠ a → Avoids preds a b

/-- Every number but the root's has a predecessor before it. Nothing leads to numbers beyond. -/
structure Numbering (preds : Nat → List Nat) (size : Nat) : Prop where
  pos : 0 < size
  led : ∀ b, b ≠ 0 → b < size → ∃ p ∈ preds b, p < b
  outside : ∀ b, size ≤ b → preds b = []

variable {preds : Nat → List Nat} {size : Nat}

theorem Avoids.lt_size {a b : Nat} (h : Avoids preds a b) (hn : Numbering preds size) :
    b < size := by
  cases h with
  | root => exact hn.pos
  | step _ hp _ =>
    apply Nat.lt_of_not_le
    intro hb
    simp [hn.outside b hb] at hp

namespace ParentTable

def put (t : ParentTable) (i c : Nat) : ParentTable := ⟨t.parents.set i (some c)⟩

variable {t m : ParentTable} {a b c i j k l : Nat}

@[simp] theorem length_put (t : ParentTable) (i c : Nat) :
    (t.put i c).parents.length = t.parents.length := by
  simp [put]

theorem isSet_put (hi : i < t.parents.length) :
    (t.put i c).isSet j = (decide (j = i) || t.isSet j) := by
  simp only [put, isSet, List.getElem?_set]
  by_cases h : i = j
  · subst h
    simp [hi]
  · simp [h, Ne.symm h]

theorem parent_put (hi : i < t.parents.length) :
    (t.put i c).parent j = if j = i then c else t.parent j := by
  simp only [put, parent, List.getElem?_set]
  by_cases h : i = j
  · subst h
    simp [hi]
  · simp [h, Ne.symm h]

theorem lt_length_of_isSet (h : t.isSet i) : i < t.parents.length := by
  apply Nat.lt_of_not_le
  intro hi
  simp [isSet, List.getElem?_eq_none hi] at h

theorem Rooted.put (h : Rooted t) (hi : i < t.parents.length) (hc : c < i) (hs : t.isSet c) :
    Rooted (t.put i c) where
  root := by simp [isSet_put hi, h.root]
  parent_root := by
    rw [parent_put hi, if_neg (by omega)]
    exact h.parent_root
  parent_lt := by
    intro j hj h0
    rw [parent_put hi]
    split
    next hji => omega
    next hji =>
      rw [isSet_put hi] at hj
      exact h.parent_lt j (by simpa [hji] using hj) h0
  isSet_parent := by
    intro j hj h0
    rw [parent_put hi, isSet_put hi]
    split
    next => simp [hs]
    next hji =>
      rw [isSet_put hi] at hj
      simp [h.isSet_parent j (by simpa [hji] using hj) h0]

theorem Rooted.exists_refine_eq_put (h : Rooted t) {p : Nat} (hp : p ∈ preds i) (hpi : p < i)
    (hs : t.isSet p) :
    ∃ c, t.refine preds i = t.put i c ∧ c < i ∧ t.isSet c ∧
      t.IsNearest c ((preds i).filter t.isSet) := by
  have hmem : p ∈ (preds i).filter t.isSet := List.mem_filter.2 ⟨hp, hs⟩
  unfold refine
  split
  next hnil => simp [hnil] at hmem
  next q qs heq =>
    have hset : ∀ x ∈ q :: qs, t.isSet x := fun x hx => (List.mem_filter.1 (heq ▸ hx)).2
    have hn := h.isNearest_foldl hset
    have hcp := hn.common p (heq ▸ hmem)
    exact ⟨_, rfl, Nat.lt_of_le_of_lt (le_of_isAncestor hcp) hpi, h.isSet_of_isAncestor hs hcp,
      heq ▸ hn⟩

def upTo (preds : Nat → List Nat) (t : ParentTable) (k : Nat) : ParentTable :=
  (List.range' 1 k).foldl (refine preds) t

theorem upTo_succ (preds : Nat → List Nat) (t : ParentTable) (k : Nat) :
    upTo preds t (k + 1) = refine preds (upTo preds t k) (k + 1) := by
  simp [upTo, List.range'_concat, Nat.add_comm]

structure Valid (size : Nat) (t : ParentTable) : Prop extends Rooted t where
  length_eq : t.parents.length = size

theorem valid_upTo (hn : Numbering preds size) (h : Valid size t) (hk : k < size) :
    Valid size (upTo preds t k) ∧ (∀ i ≤ k, (upTo preds t k).isSet i) ∧
      ∀ i, k < i → (upTo preds t k).isSet i = t.isSet i ∧ (upTo preds t k).parent i = t.parent i := by
  induction k with
  | zero =>
    refine ⟨h, ?_, fun i _ => ⟨rfl, rfl⟩⟩
    intro i hi
    obtain rfl := Nat.le_zero.1 hi
    exact h.root
  | succ k ih =>
    obtain ⟨hv, hs, ho⟩ := ih (by omega)
    obtain ⟨p, hp, hpk⟩ := hn.led (k + 1) (by omega) hk
    obtain ⟨c, he, hc, hcs, _⟩ := hv.exists_refine_eq_put hp hpk (hs p (by omega))
    have hl : k + 1 < (upTo preds t k).parents.length := hv.length_eq ▸ hk
    rw [upTo_succ, he]
    refine ⟨⟨hv.put hl hc hcs, by simp [hv.length_eq]⟩, ?_, ?_⟩
    · intro i hi
      rw [isSet_put hl]
      by_cases hik : i = k + 1
      · simp [hik]
      · simp [hs i (by omega)]
    · intro i hi
      have hik : i ≠ k + 1 := by omega
      simpa [isSet_put hl, parent_put hl, hik] using ho i (by omega)

theorem upTo_eq_of_le (hn : Numbering preds size) (h : Valid size t) (hl : l < size) (hkl : k ≤ l)
    (hi : i ≤ k) :
    (upTo preds t l).isSet i = (upTo preds t k).isSet i ∧
      (upTo preds t l).parent i = (upTo preds t k).parent i := by
  induction l with
  | zero =>
    obtain rfl := Nat.le_zero.1 hkl
    exact ⟨rfl, rfl⟩
  | succ l ih =>
    by_cases hk : k = l + 1
    · exact hk ▸ ⟨rfl, rfl⟩
    · obtain ⟨hv, hs, _⟩ := valid_upTo hn h (k := l) (by omega)
      obtain ⟨p, hp, hpl⟩ := hn.led (l + 1) (by omega) hl
      obtain ⟨c, he, _⟩ := hv.exists_refine_eq_put hp hpl (hs p (by omega))
      have hlt : l + 1 < (upTo preds t l).parents.length := hv.length_eq ▸ hl
      have hne : i ≠ l + 1 := by omega
      rw [upTo_succ, he, isSet_put hlt, parent_put hlt]
      simpa [hne] using ih (by omega) (by omega)

/-- The table `m` in which a pass from `t` to `t'` looks for the parent of `j`: new parents before
the number, old ones from it on. -/
structure Stage (preds : Nat → List Nat) (t t' : ParentTable) (j : Nat) (m : ParentTable) :
    Prop where
  rooted : m.Rooted
  new : ∀ i < j, m.isSet i ∧ m.parent i = t'.parent i
  old : ∀ i, j ≤ i → m.isSet i = t.isSet i ∧ m.parent i = t.parent i
  nearest : m.IsNearest (t'.parent j) ((preds j).filter m.isSet)

theorem pass_eq_upTo (h : Valid size t) : t.pass preds = upTo preds t (size - 1) := by
  rw [pass, upTo, h.length_eq]

theorem valid_pass (hn : Numbering preds size) (h : Valid size t) :
    Valid size (t.pass preds) ∧ ∀ i < size, (t.pass preds).isSet i := by
  have := hn.pos
  obtain ⟨hv, hs, _⟩ := valid_upTo hn h (k := size - 1) (by omega)
  rw [pass_eq_upTo h]
  exact ⟨hv, fun i hi => hs i (by omega)⟩

theorem exists_stage (hn : Numbering preds size) (h : Valid size t) (h0 : j ≠ 0) (hj : j < size) :
    ∃ m, Stage preds t (t.pass preds) j m := by
  obtain ⟨k, rfl⟩ := Nat.exists_eq_succ_of_ne_zero h0
  obtain ⟨hv, hs, ho⟩ := valid_upTo hn h (k := k) (by omega)
  obtain ⟨p, hp, hpk⟩ := hn.led (k + 1) h0 hj
  obtain ⟨c, he, _, _, hc⟩ := hv.exists_refine_eq_put hp hpk (hs p (by omega))
  have hl : k + 1 < (upTo preds t k).parents.length := hv.length_eq ▸ hj
  rw [pass_eq_upTo h]
  refine ⟨upTo preds t k, hv.toRooted, ?_, ho, ?_⟩
  · intro i hi
    exact ⟨hs i (by omega),
      (upTo_eq_of_le hn h (l := size - 1) (by omega) (by omega) (by omega)).2.symm⟩
  · rw [(upTo_eq_of_le hn h (l := size - 1) (k := k + 1) (by omega) (by omega) (Nat.le_refl _)).2,
      upTo_succ, he, parent_put hl, if_pos rfl]
    exact hc

namespace Stage

variable {t' : ParentTable}

theorem isAncestor_new (h : Stage preds t t' j m) (hb : b < j) :
    m.isAncestor a b = t'.isAncestor a b :=
  isAncestor_congr fun i hi => (h.new i (by omega)).2

theorem mem_filter (h : Stage preds t t' j m) (hb : b ∈ preds j) (hlt : b < j) :
    b ∈ (preds j).filter m.isSet :=
  List.mem_filter.2 ⟨hb, (h.new b hlt).1⟩

end Stage

/-- Ancestors in the later table are ancestors in the earlier one, for what that one knows. -/
def Shrinks (t t' : ParentTable) : Prop :=
  ∀ a b, t.isSet b → t'.isAncestor a b → t.isAncestor a b

def Forward (preds : Nat → List Nat) (t : ParentTable) : Prop :=
  ∀ b, b ≠ 0 → t.isSet b → ∀ p ∈ preds b, p < b → t.isSet p ∧ t.isAncestor (t.parent b) p

theorem forward_pass (hn : Numbering preds size) (h : Valid size t) :
    Forward preds (t.pass preds) := by
  obtain ⟨hv, hs⟩ := valid_pass hn h
  intro b h0 hb p hp hlt
  have hb : b < size := hv.length_eq ▸ lt_length_of_isSet hb
  obtain ⟨m, hm⟩ := exists_stage hn h h0 hb
  refine ⟨hs p (by omega), ?_⟩
  rw [← hm.isAncestor_new hlt]
  exact hm.nearest.common p (hm.mem_filter hp hlt)

theorem Forward.isAncestor_between {t' : ParentTable} (hn : Numbering preds size)
    (hf : Forward preds t) (hf' : Forward preds t') (hs' : ∀ i < size, t'.isSet i)
    (hl : t.parents.length = size) (hb : t.isSet b) (hc : t.isAncestor c b)
    (ha : t'.isAncestor a b) (hac : a ≤ c) : t'.isAncestor a c := by
  -- Both ancestors are found on every way back to the root that only goes to smaller numbers.
  induction b using Nat.strongRecOn with
  | _ b ih =>
    by_cases hcb : c = b
    · exact hcb ▸ ha
    · have hlt := Nat.lt_of_le_of_ne (le_of_isAncestor hc) hcb
      have h0 : b ≠ 0 := by omega
      have hsize : b < size := hl ▸ lt_length_of_isSet hb
      obtain ⟨p, hp, hpb⟩ := hn.led b h0 hsize
      obtain ⟨hps, hpt⟩ := hf b h0 hb p hp hpb
      have hpt' := (hf' b h0 (hs' b hsize) p hp hpb).2
      have hab : a ≠ b := by omega
      exact ih p hpb hps (isAncestor_trans ((isAncestor_of_ne hcb).1 hc).2 hpt)
        (isAncestor_trans ((isAncestor_of_ne hab).1 ha).2 hpt')

theorem Stage.isAncestor_old {t' : ParentTable} (hm : Stage preds t t' j m)
    (h : ∀ p < j, t'.isAncestor a p → t.isAncestor a p) (hb : m.isAncestor a b) :
    t.isAncestor a b := by
  induction b using Nat.strongRecOn with
  | _ b ih =>
    by_cases hab : a = b
    · exact hab ▸ isAncestor_self t a
    by_cases hlt : b < j
    · exact h b hlt (hm.isAncestor_new hlt ▸ hb)
    · obtain ⟨hp, ha⟩ := (isAncestor_of_ne hab).1 hb
      rw [(hm.old b (by omega)).2] at hp ha
      exact isAncestor_of_parent hp (ih _ hp ha)

theorem Stage.isAncestor_of_new {t' : ParentTable} (hn : Numbering preds size)
    (hv : Valid size t) (hf : Forward preds t) (hf' : Forward preds t')
    (hs' : ∀ i < size, t'.isSet i) (h : Shrinks t t') (hm : Stage preds t t' j m) (haj : a < j)
    (hb : b < j ∨ t.isSet b) (ha : t'.isAncestor a b) : m.isAncestor a b := by
  induction b using Nat.strongRecOn with
  | _ b ih =>
    by_cases hlt : b < j
    · exact hm.isAncestor_new hlt ▸ ha
    · have hbs := hb.resolve_left hlt
      have h0 : b ≠ 0 := by omega
      have hp := hv.parent_lt b hbs h0
      have hne : a ≠ b := by omega
      have hle := le_of_isAncestor ((isAncestor_of_ne hne).1 (h _ _ hbs ha)).2
      have hap : t'.isAncestor a (t.parent b) :=
        hf.isAncestor_between hn hf' hs' hv.length_eq hbs (isAncestor_parent hp) ha hle
      apply isAncestor_of_parent <;> rw [(hm.old b (by omega)).2]
      · exact hp
      · exact ih _ hp (.inr (hv.isSet_parent b hbs h0)) hap

theorem Shrinks.pass (hn : Numbering preds size) (hv : Valid size t) (hf : Forward preds t)
    (h : Shrinks t (t.pass preds)) : Shrinks (t.pass preds) ((t.pass preds).pass preds) := by
  -- By induction on the number, for all ancestors at once: its new parent is before it.
  obtain ⟨hv₁, hs₁⟩ := valid_pass hn hv
  obtain ⟨hv₂, hs₂⟩ := valid_pass hn hv₁
  have hf₁ := forward_pass hn hv
  intro a b hb ha
  have hsize : b < size := hv₁.length_eq ▸ lt_length_of_isSet hb
  clear hb
  induction b using Nat.strongRecOn generalizing a with
  | _ b ih =>
    by_cases hab : a = b
    · exact hab ▸ isAncestor_self _ a
    have h0 : b ≠ 0 := by
      have := le_of_isAncestor ha
      omega
    obtain ⟨m₁, hm₁⟩ := exists_stage hn hv h0 hsize
    obtain ⟨m₂, hm₂⟩ := exists_stage hn hv₁ h0 hsize
    obtain ⟨hlt, hap⟩ := (isAncestor_of_ne hab).1 ha
    have hlt₁ := hv₁.parent_lt b (hs₁ b hsize) h0
    generalize hc : ((t.pass preds).pass preds).parent b = c at hlt hap
    -- The newest parent is a common ancestor in the stage in which the one before was nearest.
    have hstage : m₁.isAncestor c ((t.pass preds).parent b) := by
      apply hm₁.nearest.nearest
      intro p hp
      obtain ⟨hp, hps⟩ := List.mem_filter.1 hp
      have hps₁ : p < b ∨ t.isSet p := by
        by_cases hpb : p < b
        · exact .inl hpb
        · exact .inr ((hm₁.old p (by omega)).1 ▸ hps)
      have hps₂ : m₂.isSet p := by
        by_cases hpb : p < b
        · exact (hm₂.new p hpb).1
        · rw [(hm₂.old p (by omega)).1]
          exact hs₁ p (hv.length_eq ▸ lt_length_of_isSet (hps₁.resolve_left hpb))
      have hcp := hc ▸ hm₂.nearest.common p (List.mem_filter.2 ⟨hp, hps₂⟩)
      exact hm₁.isAncestor_of_new hn hv hf hf₁ hs₁ h hlt hps₁
        (hm₂.isAncestor_old (fun q hq hcq => ih q hq c hcq (by omega)) hcp)
    have hcb : (t.pass preds).isAncestor c b :=
      isAncestor_of_parent hlt₁ (hm₁.isAncestor_new hlt₁ ▸ hstage)
    exact isAncestor_trans (ih c hlt a hap (by omega)) hcb

theorem sum_le_of_forall₂ {n : Nat} {xs ys : List (Option Nat)}
    (h : List.Forall₂ (fun x y => ∃ c < n, x = some c ∧ c ≤ y.getD n) xs ys) :
    xs.foldr (fun p s => p.getD n + s) 0 ≤ ys.foldr (fun p s => p.getD n + s) 0 ∧
      (ys.foldr (fun p s => p.getD n + s) 0 ≤ xs.foldr (fun p s => p.getD n + s) 0 → xs = ys) := by
  induction h with
  | nil => simp
  | @cons x y xs ys hxy _ ih =>
    obtain ⟨c, hc, rfl, hle⟩ := hxy
    simp only [List.foldr_cons, Option.getD_some]
    refine ⟨by omega, fun hs => ?_⟩
    have hy : c = y.getD n := by omega
    have hyc : y = some c := by
      cases y with
      | none => simp at hy; omega
      | some d => simpa using hy.symm
    rw [hyc, ih.2 (by omega)]

theorem getElem?_parents (hs : t.isSet i) : t.parents[i]? = some (some (t.parent i)) := by
  simp only [isSet] at hs
  simp only [parent]
  match h : t.parents[i]? with
  | none => simp [h] at hs
  | some none => simp [h] at hs
  | some (some c) => rfl

theorem Valid.parent_lt_size (hn : Numbering preds size) (h : Valid size t) (hs : t.isSet i) :
    t.parent i < size := by
  have hi : i < size := h.length_eq ▸ lt_length_of_isSet hs
  by_cases h0 : i = 0
  · exact h0 ▸ h.parent_root.symm ▸ hn.pos
  · exact Nat.lt_trans (h.parent_lt i hs h0) hi

theorem Shrinks.weight_lt_or_eq (hn : Numbering preds size) (hv : Valid size t)
    (h : Shrinks t (t.pass preds)) : (t.pass preds).weight < t.weight ∨ t.pass preds = t := by
  obtain ⟨hv', hs'⟩ := valid_pass hn hv
  have hle : List.Forall₂ (fun x y => ∃ c < size, x = some c ∧ c ≤ y.getD size)
      (t.pass preds).parents t.parents := by
    rw [List.forall₂_iff_get]
    refine ⟨by rw [hv'.length_eq, hv.length_eq], fun i hi hi' => ?_⟩
    have hsi := hs' i (hv'.length_eq ▸ hi)
    have hlt := hv'.parent_lt_size hn hsi
    refine ⟨(t.pass preds).parent i, hlt, ?_, ?_⟩
    · have := getElem?_parents hsi
      rw [List.getElem?_eq_getElem hi] at this
      simpa using this
    · by_cases hti : t.isSet i
      · have := getElem?_parents hti
        rw [List.getElem?_eq_getElem hi'] at this
        simp only [Option.some.injEq] at this
        simp only [List.get_eq_getElem, this, Option.getD_some]
        by_cases hi0 : i = 0
        · simp [hi0, hv.parent_root, hv'.parent_root]
        · have hp := hv'.parent_lt i hsi hi0
          have ha := h _ _ hti (isAncestor_parent hp)
          exact le_of_isAncestor ((isAncestor_of_ne (Nat.ne_of_lt hp)).1 ha).2
      · have hnone : t.parents[i]?.join = none := by simpa [isSet] using hti
        rw [List.getElem?_eq_getElem hi'] at hnone
        simp only [Option.join_some] at hnone
        simp only [List.get_eq_getElem, hnone, Option.getD_none]
        omega
  obtain ⟨_, heq⟩ := sum_le_of_forall₂ hle
  by_cases hw : (t.pass preds).weight < t.weight
  · exact .inl hw
  · right
    simp only [weight, hv.length_eq, hv'.length_eq, Nat.not_lt] at hw
    exact congrArg ParentTable.mk (heq hw)

end ParentTable

end TypedIR
