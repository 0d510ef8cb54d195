import Mathlib.Data.List.Nodup
import Mathlib.Data.List.Perm.Subperm
import TypedIR.Names
import TypedIR.Proofs.Registry.Key

namespace TypedIR.NameUses

variable {u : NameUses} {base name x : String} {k l n : Nat}

theorem toList_suffixed (base : String) (n : Nat) :
    (suffixed base n).toList = base.toList ++ '.' :: Nat.toDigits 10 n := by
  have h : suffixed base n = base ++ "." ++ toString n := rfl
  simp [h]

theorem suffixed_inj (h : suffixed base k = suffixed base l) : k = l := by
  have hl := congrArg String.toList h
  rw [toList_suffixed, toList_suffixed] at hl
  exact digits_inj (List.tail_eq_of_cons_eq (List.append_cancel_left hl))

theorem taken_iff : u.taken name ↔ name ∈ u.counts.map Prod.fst := by
  rw [taken, ← not_iff_not, Bool.not_eq_true, Option.isSome_eq_false_iff, Option.isNone_iff_eq_none,
    List.lookup_eq_none_iff]
  simp only [bne_iff_ne, List.mem_map, not_exists, not_and, ne_comm]

theorem taken_set : (u.set name n).taken x ↔ x = name ∨ u.taken x := by
  rw [taken_iff, set]
  split
  next h =>
    have hkeys : (u.counts.map fun e => if e.1 = name then (name, n) else e).map Prod.fst =
        u.counts.map Prod.fst := by
      rw [List.map_map]
      apply List.map_congr_left
      intro e _
      by_cases he : e.1 = name <;> simp [he]
    rw [hkeys, ← taken_iff]
    constructor
    · exact .inr
    · rintro (rfl | hx)
      · exact h
      · exact hx
  next =>
    rw [List.map_append, List.mem_append, ← taken_iff, or_comm]
    simp

def Positive (u : NameUses) : Prop := ∀ e ∈ u.counts, 0 < e.2

theorem Positive.set (h : u.Positive) (hn : 0 < n) : (u.set name n).Positive := by
  intro e he
  rw [NameUses.set] at he
  split at he
  · obtain ⟨e', he', rfl⟩ := List.mem_map.1 he
    split
    · exact hn
    · exact h e' he'
  · rcases List.mem_append.1 he with he | he
    · exact h e he
    · obtain rfl := List.mem_singleton.1 he
      exact hn

theorem Positive.taken_iff_count (h : u.Positive) : u.taken name ↔ u.count name ≠ 0 := by
  rw [taken, count]
  cases hl : u.counts.lookup name with
  | none => simp
  | some n =>
    obtain ⟨_, _, he, -⟩ := List.lookup_eq_some_iff.1 hl
    have hn : 0 < n := h (name, n) (by simp [he])
    simp [Nat.ne_of_gt hn]

theorem exists_free (u : NameUses) (base : String) (n : Nat) :
    ∃ k ∈ List.range' n (u.counts.length + 1), ¬ u.taken (suffixed base k) := by
  -- There are more candidates than names in use.
  by_contra hall
  simp only [not_exists, not_and, Classical.not_not] at hall
  have hnodup : ((List.range' n (u.counts.length + 1)).map (suffixed base)).Nodup :=
    (List.nodup_range' 1).map fun _ _ => suffixed_inj
  have hsub : (List.range' n (u.counts.length + 1)).map (suffixed base) ⊆ u.counts.map Prod.fst := by
    intro x hx
    obtain ⟨k, hk, rfl⟩ := List.mem_map.1 hx
    exact taken_iff.1 (hall k hk)
  have hlen := (hnodup.subperm hsub).length_le
  rw [List.length_map, List.length_map, List.length_range'] at hlen
  omega

theorem not_taken_freeSuffix (u : NameUses) (base : String) (n : Nat) :
    ¬ u.taken (suffixed base (u.freeSuffix base n)) := by
  obtain ⟨k, hk, hfree⟩ := exists_free u base n
  rw [freeSuffix]
  cases hf : (List.range' n (u.counts.length + 1)).find? fun k => !u.taken (suffixed base k) with
  | none => exact absurd (List.find?_eq_none.1 hf k hk) (by simpa using hfree)
  | some l => simpa using List.find?_some hf

theorem claim_cases (u : NameUses) (base : String) :
    u.count base = 0 ∧ u.claim base = (base, u.set base 1) ∨
      u.count base ≠ 0 ∧ ∃ k, ¬ u.taken (suffixed base k) ∧
        u.claim base = (suffixed base k, (u.set base (k + 1)).set (suffixed base k) 1) := by
  rw [claim]
  split
  next h => exact .inl ⟨h, rfl⟩
  next h => exact .inr ⟨h, _, not_taken_freeSuffix u base _, rfl⟩

theorem not_taken_claim (h : u.Positive) (base : String) : ¬ u.taken (u.claim base).1 := by
  rcases claim_cases u base with ⟨hc, he⟩ | ⟨-, k, hk, he⟩
  · rw [he, h.taken_iff_count]
    simpa using hc
  · rw [he]
    exact hk

theorem taken_claim (h : u.Positive) : (u.claim base).2.taken x ↔ x = (u.claim base).1 ∨ u.taken x := by
  rcases claim_cases u base with ⟨-, he⟩ | ⟨hc, k, -, he⟩
  · rw [he, taken_set]
  · have hbase := h.taken_iff_count.2 hc
    rw [he, taken_set, taken_set]
    constructor
    · rintro (hx | rfl | hx)
      · exact .inl hx
      · exact .inr hbase
      · exact .inr hx
    · rintro (hx | hx)
      · exact .inl hx
      · exact .inr (.inr hx)

theorem positive_claim (h : u.Positive) (base : String) : (u.claim base).2.Positive := by
  rcases claim_cases u base with ⟨-, he⟩ | ⟨-, k, -, he⟩
  · rw [he]
    exact h.set Nat.one_pos
  · rw [he]
    exact (h.set (Nat.succ_pos k)).set Nat.one_pos

end TypedIR.NameUses
