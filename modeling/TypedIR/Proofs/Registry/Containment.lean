import Mathlib.Data.List.Perm.Subperm
import Mathlib.Order.WellFounded
import TypedIR.Proofs.Registry.Invariant

namespace TypedIR.TypeRegistry

open Relation (ReflTransGen TransGen)

variable {r : TypeRegistry} {s t p needle : TypeRef}

def Contains (r : TypeRegistry) (t p : TypeRef) : Prop := ReflTransGen r.PartOf p t

/-- The search without a bound of its own: it answers if no more calls are nested than may be. -/
def search? (r : TypeRegistry) (needle : TypeRef) : Nat → TypeRef → Option Bool
  | 0, _ => none
  | calls + 1, t =>
    if t = needle then some true else (r.byValueParts t).anyM (r.search? needle calls)

theorem contains_iff :
    r.Contains t needle ↔ t = needle ∨ ∃ p ∈ r.byValueParts t, r.Contains p needle := by
  rw [Contains, ReflTransGen.cases_tail_iff]
  simp only [Contains, PartOf, and_comm]

theorem owns_of_partOf (h : r.PartOf p t) : r.owns t := by
  obtain ⟨d, hd, -⟩ := partOf_iff.1 h
  exact owns_iff.2 ⟨d, hd⟩

theorem owns_of_inside (h : TransGen r.PartOf p t) : r.owns t := by
  cases h with
  | single h => exact owns_of_partOf h
  | tail _ h => exact owns_of_partOf h

theorem Founded.isSized_of_contains (h : r.Founded) (ht : r.isSized t) (hp : r.Contains t p) :
    r.isSized p := by
  rcases hp.cases_head with rfl | ⟨s, hs, -⟩
  · exact ht
  · exact h.sized p s hs

theorem Founded.irrefl (h : r.Founded) (t : TypeRef) : ¬ TransGen r.PartOf t t :=
  h.wellFounded.transGen.irrefl.irrefl t

def handles (r : TypeRegistry) : List TypeRef := (List.range r.size).map r.handle

theorem mem_handles_of_owns (h : r.owns t) : t ∈ r.handles := by
  obtain ⟨d, hd⟩ := owns_iff.1 h
  obtain ⟨position, rfl, hp⟩ := lookup_eq_some_iff.1 hd
  have hlt := (List.getElem?_eq_some_iff.1 hp).1
  exact List.mem_map.2 ⟨position, List.mem_range.2 hlt, rfl⟩

/-- Types on the way to `t`: no two are the same, and `t` is inside each of them. -/
structure Ancestry (r : TypeRegistry) (path : List TypeRef) (t : TypeRef) : Prop where
  nodup : path.Nodup
  inside : ∀ s ∈ path, TransGen r.PartOf t s

theorem Ancestry.nil : r.Ancestry [] t := ⟨.nil, by simp⟩

variable {path : List TypeRef}

theorem Ancestry.cons (h : r.Ancestry path t) (hr : r.Founded) (hp : r.PartOf p t) :
    r.Ancestry (t :: path) p where
  nodup := List.nodup_cons.2 ⟨fun ht => hr.irrefl t (h.inside t ht), h.nodup⟩
  inside := by
    intro s hs
    rcases List.mem_cons.1 hs with rfl | hs
    · exact .single hp
    · exact .head hp (h.inside s hs)

theorem Ancestry.length_lt (h : r.Ancestry path t) (hr : r.Founded) (ht : r.owns t) :
    path.length < r.size := by
  -- A path that met a type again would have it inside itself.
  have hnodup : (t :: path).Nodup :=
    List.nodup_cons.2 ⟨fun hmem => hr.irrefl t (h.inside t hmem), h.nodup⟩
  have hsub : t :: path ⊆ r.handles := by
    intro s hs
    rcases List.mem_cons.1 hs with rfl | hs
    · exact mem_handles_of_owns ht
    · exact mem_handles_of_owns (owns_of_inside (h.inside s hs))
  have hle := (hnodup.subperm hsub).length_le
  simpa [handles, Nat.succ_le_iff] using hle

theorem anyM_eq_some {parts : List TypeRef} {f : TypeRef → Option Bool} {g : TypeRef → Bool}
    (h : ∀ p ∈ parts, f p = some (g p)) : parts.anyM f = some (parts.any g) := by
  induction parts with
  | nil => rfl
  | cons p parts ih =>
    have hrest := ih fun q hq => h q (List.mem_cons_of_mem p hq)
    cases hp : g p <;> simp [h p List.mem_cons_self, hp, hrest]

theorem Founded.search?_eq (hr : r.Founded) {calls : Nat} (ht : r.owns t)
    (hpath : r.Ancestry path t) (hcalls : r.size ≤ path.length + calls) :
    r.search? needle calls t = some (r.containsWithin needle calls t) ∧
      (r.containsWithin needle calls t ↔ r.Contains t needle) := by
  -- The calls are as many as there are types outside the path, so they never run out.
  induction calls generalizing path t with
  | zero =>
    have hlt := hpath.length_lt hr ht
    omega
  | succ calls ih =>
    have hparts : ∀ p ∈ r.byValueParts t, r.search? needle calls p =
        some (r.containsWithin needle calls p) ∧
          (r.containsWithin needle calls p ↔ r.Contains p needle) := by
      intro p hp
      refine ih (owns_of_isSized (hr.sized p t hp)) (hpath.cons hr hp) ?_
      rw [List.length_cons]
      omega
    constructor
    · rw [search?, containsWithin, anyM_eq_some fun p hp => (hparts p hp).1]
      by_cases h : t = needle <;> simp [h]
    · rw [contains_iff]
      simp only [containsWithin, Bool.or_eq_true, beq_iff_eq, List.any_eq_true]
      exact or_congr_right (exists_congr fun p => and_congr_right fun hp => (hparts p hp).2)

theorem Founded.containsByValue_iff (hr : r.Founded) (ht : r.owns t) :
    r.containsByValue t needle ↔ r.Contains t needle := (hr.search?_eq ht .nil (by simp)).2

/-- In a live registry no type has infinite size. Whatever is contained in a sized type is sized,
and the search for what a type contains comes to an end and finds just that. -/
theorem byValue_wellFounded_of_reachable (h : r.Reachable) (hl : r.disposed = false) :
    WellFounded r.PartOf ∧
    (∀ t p, r.isSized t → r.Contains t p → r.isSized p) ∧
    ∀ t needle, r.owns t →
      r.search? needle r.size t = some (r.containsByValue t needle) ∧
      (r.containsByValue t needle ↔ r.Contains t needle) := by
  have hr := (h.canonical_and_founded hl).2
  exact ⟨hr.wellFounded, fun t p => hr.isSized_of_contains, fun t needle ht =>
    hr.search?_eq ht .nil (by simp)⟩

def branching : TypeRegistry :=
  (empty 1 64).afterAll
    [.type (.named "node"), .type (.named "branch"), .type (.int 32), .type (.pointer 0),
      .type (.setBody ⟨1, 2⟩ [⟨1, 3⟩, ⟨1, 4⟩] false), .type (.array ⟨1, 2⟩ 4),
      .type (.setBody ⟨1, 1⟩ [⟨1, 5⟩, ⟨1, 4⟩] false), .type (.setBody ⟨1, 2⟩ [⟨1, 1⟩] false)]

theorem byValue_wellFounded_branching :
    branching.Reachable ∧ branching.disposed = false ∧ WellFounded branching.PartOf ∧
    branching.isSized ⟨1, 1⟩ ∧ branching.Contains ⟨1, 1⟩ ⟨1, 2⟩ ∧ branching.isSized ⟨1, 2⟩ ∧
    ¬ branching.Contains ⟨1, 2⟩ ⟨1, 1⟩ := by
  have hr : branching.Reachable := reachable_afterAll 1 64 _
  have hl : branching.disposed = false := by decide
  obtain ⟨hwf, hsized, hsearch⟩ := byValue_wellFounded_of_reachable hr hl
  have hnode : branching.isSized ⟨1, 1⟩ := by decide
  have hin : branching.Contains ⟨1, 1⟩ ⟨1, 2⟩ := (hsearch ⟨1, 1⟩ ⟨1, 2⟩ (by decide)).2.1 (by decide)
  have hout : ¬ branching.Contains ⟨1, 2⟩ ⟨1, 1⟩ := fun h =>
    absurd ((hsearch ⟨1, 2⟩ ⟨1, 1⟩ (by decide)).2.2 h) (by decide)
  exact ⟨hr, hl, hwf, hnode, hin, hsized _ _ hnode hin, hout⟩

end TypedIR.TypeRegistry
