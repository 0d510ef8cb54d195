import TypedIR.Builder.Insert
import TypedIR.Proofs.Soundness.Basic

namespace TypedIR

theorem map_modify {α β : Type} {p : α → β} {g : α → α} (hg : ∀ a, p (g a) = p a) {n : Nat}
    {xs : List α} : (xs.modify n g).map p = xs.map p := by
  apply List.ext_getElem?
  intro k
  rw [List.getElem?_map, List.getElem?_map, List.getElem?_modify]
  cases xs[k]? with
  | none => rfl
  | some a => by_cases hk : n = k <;> simp [hk, hg]

namespace Block

variable {b : Block} {i : Instr} {op : Opcode} {pos : Nat}

theorem checkPlacement_iff : b.checkPlacement op pos = .ok () ↔
    (pos = b.instrs.length → b.terminator? = none) ∧
      (pos ≠ b.instrs.length → ¬ op.isTerminator) ∧
        (op = .phi → pos ≤ b.phis.length) ∧ (op ≠ .phi → b.phis.length ≤ pos) := by
  rw [checkPlacement]
  by_cases hp : pos = b.instrs.length
  · cases ht : b.terminator? with
    | none => simp [hp, ite_eq_ok_iff]
    | some last => simp [hp]
  · simp [hp, ite_eq_ok_iff]

theorem op_of_mem_phis (h : i ∈ b.phis) : i.op = .phi := by
  simpa using List.all_eq_true.1 List.all_takeWhile i h

theorem op_of_mem_take (hp : pos ≤ b.phis.length) (h : i ∈ b.instrs.take pos) : i.op = .phi := by
  have he : b.phis ++ b.instrs.dropWhile (·.op = .phi) = b.instrs := List.takeWhile_append_dropWhile
  rw [← he, List.take_append_of_le_length hp] at h
  exact op_of_mem_phis (List.mem_of_mem_take h)

namespace Ordered

variable (ho : b.Ordered)
include ho

theorem isTerminator_of_mem (ht : b.terminator? = none) (h : i ∈ b.instrs) :
    ¬ i.op.isTerminator := by
  cases hl : b.instrs.getLast? with
  | none =>
    rw [List.getLast?_eq_none_iff] at hl
    simp [hl] at h
  | some last =>
    obtain ⟨front, he⟩ := List.getLast?_eq_some_iff.1 hl
    rw [Ordered, he, List.pairwise_append] at ho
    rw [he, List.mem_append, List.mem_singleton] at h
    rcases h with h | rfl
    · exact (ho.2.2 i h last (by simp)).1
    · simpa [terminator?, hl, Option.filter] using ht

theorem op_ne_phi_of_mem_drop (h : i ∈ b.instrs.drop b.phis.length) : i.op ≠ .phi := by
  have he : b.phis ++ b.instrs.dropWhile (·.op = .phi) = b.instrs := List.takeWhile_append_dropWhile
  rw [← he, List.drop_left] at h
  cases hd : b.instrs.dropWhile (·.op = .phi) with
  | nil => simp [hd] at h
  | cons first rest =>
    have hfirst : first.op ≠ .phi := by
      have := List.head?_dropWhile_not (fun i : Instr => decide (i.op = .phi)) b.instrs
      simpa [hd] using this
    rw [Ordered, ← he, List.pairwise_append, hd, List.pairwise_cons] at ho
    rw [hd, List.mem_cons] at h
    rcases h with rfl | h
    · exact hfirst
    · exact fun hp => hfirst ((ho.2.1.1 i h).2 hp)

theorem insert (hpos : pos ≤ b.instrs.length) (hp : b.checkPlacement i.op pos = .ok ()) :
    (b.insert pos i).Ordered := by
  obtain ⟨hend, hinside, hphi, hother⟩ := checkPlacement_iff.1 hp
  have hall := ho
  rw [Ordered, ← List.take_append_drop pos b.instrs, List.pairwise_append] at ho
  obtain ⟨hfront, hback, hcross⟩ := ho
  rw [Ordered, Block.insert, List.pairwise_append, List.pairwise_cons]
  refine ⟨hfront, ⟨fun j hj => ⟨hinside ?_, fun hjphi => ?_⟩, hback⟩, fun j hj k hk => ?_⟩
  · rintro rfl
    simp at hj
  · by_contra hi
    refine hall.op_ne_phi_of_mem_drop ?_ hjphi
    exact List.mem_of_mem_drop (i := pos - b.phis.length)
      (by rwa [List.drop_drop, Nat.add_sub_cancel' (hother hi)])
  · rcases List.mem_cons.1 hk with rfl | hk
    · refine ⟨?_, fun hk => op_of_mem_take (hphi hk) hj⟩
      cases hd : b.instrs.drop pos with
      | nil =>
        have he : pos = b.instrs.length := Nat.le_antisymm hpos (List.drop_eq_nil_iff.1 hd)
        exact hall.isTerminator_of_mem (hend he) (List.mem_of_mem_take hj)
      | cons next rest => exact (hcross j hj next (by simp [hd])).1
    · exact hcross j hj k hk

end Ordered

theorem results_insert (b : Block) (pos : Nat) (i : Instr) :
    (b.insert pos i).results.Perm (i.result.toList ++ b.results) := by
  have he : b.results = (b.instrs.take pos).filterMap (·.result) ++
      (b.instrs.drop pos).filterMap (·.result) := by
    rw [← List.filterMap_append, List.take_append_drop, results]
  rw [he, results, Block.insert, List.filterMap_append]
  cases hi : i.result with
  | none => simp [hi]
  | some id => simp [hi]

theorem Ordered.modify {g : Instr → Instr} (hg : ∀ i, (g i).op = i.op) (ho : b.Ordered) :
    Ordered { b with instrs := b.instrs.modify pos g } := by
  -- The order is one of opcodes.
  let R (o p : Opcode) : Prop := ¬ o.isTerminator ∧ (p = .phi → o = .phi)
  have hR (xs : List Instr) : xs.Pairwise (fun i j => R i.op j.op) ↔ (xs.map (·.op)).Pairwise R :=
    List.pairwise_map.symm
  have hm : (b.instrs.modify pos g).map (·.op) = b.instrs.map (·.op) := map_modify hg
  exact (hR _).2 (hm ▸ (hR _).1 ho)

theorem results_modify {g : Instr → Instr} (hg : ∀ i, (g i).result = i.result) :
    results { b with instrs := b.instrs.modify pos g } = b.results := by
  have hr (xs : List Instr) : xs.filterMap (·.result) = (xs.map (·.result)).filterMap id := by
    simp [List.filterMap_map]
  rw [results, results, hr, hr, map_modify hg]

end Block

theorem perm_flatMap_update {α β : Type} {es : List (Nat × α)} {id : Nat} {a : α} {g : α → α}
    {list : α → List β} {extra : List β} (hn : (es.map Prod.fst).Nodup) (ha : (id, a) ∈ es)
    (hg : (list (g a)).Perm (extra ++ list a)) :
    ((es.map fun e => (e.1, if e.1 = id then g e.2 else e.2)).flatMap fun e => list e.2).Perm
      (extra ++ es.flatMap fun e => list e.2) := by
  induction es with
  | nil => simp at ha
  | cons e es ih =>
    obtain ⟨k, x⟩ := e
    rw [List.map_cons, List.nodup_cons] at hn
    simp only [List.map_cons, List.flatMap_cons]
    by_cases hk : k = id
    · subst hk
      have hother : es.map (fun e => (e.1, if e.1 = k then g e.2 else e.2)) = es := by
        conv_rhs => rw [← List.map_id es]
        refine List.map_congr_left fun e he => ?_
        have hne : e.1 ≠ k := by
          rintro rfl
          exact hn.1 (List.mem_map.2 ⟨e, he, rfl⟩)
        simp [hne]
      have hx : x = a := by
        rcases List.mem_cons.1 ha with h | h
        · exact (Prod.mk.inj h).2.symm
        · exact absurd (List.mem_map_of_mem h) hn.1
      rw [hother, if_pos rfl, hx, ← List.append_assoc]
      exact hg.append_right _
    · have ha : (id, a) ∈ es := by
        rcases List.mem_cons.1 ha with h | h
        · exact absurd (Prod.mk.inj h).1.symm hk
        · exact h
      rw [if_neg hk]
      refine ((ih hn.2 ha).append_left (list x)).trans ?_
      rw [← List.append_assoc, ← List.append_assoc]
      exact List.perm_append_comm.append_right _

theorem BlockList.perm_flatMap_modify {β : Type} {bs : BlockList} {id : Nat} {b : Block}
    {g : Block → Block} {r : Block → List β} {extra : List β} (hb : bs.get? id = some b)
    (hg : (r (g b)).Perm (extra ++ r b)) :
    ((bs.modify id g).entries.flatMap fun e => r e.2).Perm
      (extra ++ bs.entries.flatMap fun e => r e.2) :=
  perm_flatMap_update bs.nodup (BlockList.get?_eq_some_iff.1 hb) hg

end TypedIR
