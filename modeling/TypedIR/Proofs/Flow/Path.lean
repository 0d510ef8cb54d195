import TypedIR.Flow.Graph
import TypedIR.Proofs.Keyed

namespace TypedIR.FlowGraph

variable {α : Type} [DecidableEq α]

/-- A path from `a`, with all its nodes in order. -/
inductive Path (g : FlowGraph α) (a : α) : α → List α → Prop
  | refl : Path g a a [a]
  | step {b c p} : Path g a b p → c ∈ g.succs b → Path g a c (p ++ [c])

def Reaches (g : FlowGraph α) (a b : α) : Prop := ∃ p, g.Path a b p

def Dominates (g : FlowGraph α) (entry a b : α) : Prop := ∀ p, g.Path entry b p → a ∈ p

def StrictlyDominates (g : FlowGraph α) (entry a b : α) : Prop := g.Dominates entry a b ∧ a ≠ b

def IsFunctional (g : FlowGraph α) : Prop := (g.edges.map Prod.fst).Nodup

variable {g : FlowGraph α} {a b c entry : α} {p : List α}

namespace Path

theorem getLast? (h : g.Path a b p) : p.getLast? = some b := by
  cases h <;> simp

theorem takeUntil (h : g.Path a b p) (hc : c ∈ p) : ∃ q, g.Path a c q ∧ q <+: p := by
  induction h with
  | refl =>
    obtain rfl := List.mem_singleton.1 hc
    exact ⟨_, .refl, List.prefix_rfl⟩
  | @step b d p h hd ih =>
    rcases List.mem_append.1 hc with hc | hc
    · obtain ⟨q, hq, hp⟩ := ih hc
      exact ⟨q, hq, hp.trans (List.prefix_append p [d])⟩
    · obtain rfl := List.mem_singleton.1 hc
      exact ⟨_, h.step hd, List.prefix_rfl⟩

theorem exists_first (h : g.Path a b p) : ∃ q, g.Path a b (q ++ [b]) ∧ b ∉ q := by
  induction hn : p.length using Nat.strongRecOn generalizing p with
  | _ n ih =>
    cases h with
    | refl => exact ⟨[], .refl, List.not_mem_nil⟩
    | @step c _ q hq hb =>
      by_cases hm : b ∈ q
      · obtain ⟨r, hr, hrq⟩ := hq.takeUntil hm
        have hlt : r.length < n := by
          have := hrq.length_le
          rw [List.length_append, List.length_singleton] at hn
          omega
        exact ih r.length hlt hr rfl
      · exact ⟨q, hq.step hb, hm⟩

end Path

theorem Reaches.refl (g : FlowGraph α) (a : α) : g.Reaches a a := ⟨[a], .refl⟩

theorem Reaches.step (h : g.Reaches a b) (hc : c ∈ g.succs b) : g.Reaches a c := by
  obtain ⟨p, hp⟩ := h
  exact ⟨_, hp.step hc⟩

theorem Dominates.reaches (h : g.Dominates entry a b) (hb : g.Reaches entry b) :
    g.Reaches entry a := by
  obtain ⟨p, hp⟩ := hb
  obtain ⟨q, hq, _⟩ := hp.takeUntil (h p hp)
  exact ⟨q, hq⟩

theorem IsFunctional.nodup_preds (hg : g.IsFunctional) (b : α) : (g.preds b).Nodup :=
  (List.filter_sublist.map Prod.fst).nodup hg

theorem IsFunctional.mem_preds_iff (hg : g.IsFunctional) : a ∈ g.preds b ↔ b ∈ g.succs a := by
  rw [mem_preds]
  constructor
  · rintro ⟨bs, he, hb⟩
    simpa [succs, (lookup_eq_some_iff_mem hg).2 he] using hb
  · intro hb
    cases h : g.edges.lookup a with
    | none => simp [succs, h] at hb
    | some bs => exact ⟨bs, (lookup_eq_some_iff_mem hg).1 h, by simpa [succs, h] using hb⟩

end TypedIR.FlowGraph
