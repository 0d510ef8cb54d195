import TypedIR.Proofs.Registry.Steps

namespace TypedIR

open Relation (ReflTransGen)

namespace TypeDesc

/-- A descriptor but for the body that a named struct may have. -/
def identity : TypeDesc → TypeDesc
  | named name _ => named name none
  | d => d

def components : TypeDesc → List TypeRef
  | named .. => []
  | d => d.parts

variable {d e : TypeDesc}

theorem identity_of_not_isNamed (h : d.isNamed = false) : d.identity = d := by
  cases d <;> simp_all [identity, isNamed]

theorem identity_eq_iff_of_not_isNamed (h : d.isNamed = false) : e.identity = d ↔ e = d := by
  cases e with
  | named name body =>
    constructor
    · rintro rfl
      simp [identity, isNamed] at h
    · rintro rfl
      simp [isNamed] at h
  | _ => rfl

theorem components_sublist_parts : ∀ p ∈ d.components, p ∈ d.parts := by
  cases d <;> simp [components]

theorem Refines.identity (h : d.Refines e) : e.identity = d.identity := by
  cases h <;> rfl

theorem Refines.components (h : d.Refines e) : e.components = d.components := by
  cases h <;> rfl

end TypeDesc

namespace TypeRegistry

variable {r r' : TypeRegistry} {t p : TypeRef} {d : TypeDesc}

structure Canonical (r : TypeRegistry) : Prop where
  closed : r.Closed
  descends : ∀ t d, r.lookup t = some d → ∀ p ∈ d.components, p.id < t.id
  distinct : ∀ s t d e, r.lookup s = some d → r.lookup t = some e → d.identity = e.identity → s = t

theorem id_le_size_of_owns (h : r.owns t) : t.id ≤ r.size := by
  obtain ⟨d, hd⟩ := owns_iff.1 h
  obtain ⟨position, rfl, hp⟩ := lookup_eq_some_iff.1 hd
  exact (List.getElem?_eq_some_iff.1 hp).1

theorem mem_arena_of_lookup (h : r.lookup t = some d) : d ∈ r.arena := by
  obtain ⟨position, rfl, hp⟩ := lookup_eq_some_iff.1 h
  exact List.mem_of_getElem? hp

theorem lookup_empty (context maxBits : Nat) (t : TypeRef) :
    (empty context maxBits).lookup t = none := by
  simp [lookup, empty]

theorem canonical_empty (context maxBits : Nat) : (empty context maxBits).Canonical where
  closed t d h := by simp [lookup_empty] at h
  descends t d h := by simp [lookup_empty] at h
  distinct s t d e h := by simp [lookup_empty] at h

theorem Canonical.push (h : r.Canonical) (hd : ∀ p ∈ d.parts, r.owns p)
    (hnew : ∀ e ∈ r.arena, e.identity ≠ d.identity) : (r.push d).Canonical where
  closed := h.closed.push hd
  descends := by
    intro t e he p hp
    rw [lookup_push] at he
    split at he
    next ht =>
      obtain rfl := Option.some.inj he
      have hle := id_le_size_of_owns (hd p (TypeDesc.components_sublist_parts p hp))
      rw [ht]
      exact Nat.lt_succ_of_le hle
    next => exact h.descends t e he p hp
  distinct := by
    intro s t e e' hs ht hee
    rw [lookup_push] at hs ht
    split at hs <;> split at ht
    next hs' ht' => exact hs'.trans ht'.symm
    next =>
      obtain rfl := Option.some.inj hs
      exact absurd hee.symm (hnew e' (mem_arena_of_lookup ht))
    next =>
      obtain rfl := Option.some.inj ht
      exact absurd hee (hnew e (mem_arena_of_lookup hs))
    next => exact h.distinct s t e e' hs ht hee

theorem Canonical.replace {e : TypeDesc} (h : r.Canonical) (ht : r.lookup t = some e)
    (hed : e.Refines d) (hd : ∀ p ∈ d.parts, r.owns p) : (r.replace t d).Canonical where
  closed := h.closed.replace ht hed hd
  descends := by
    intro s c hc p hp
    rw [lookup_replace ht] at hc
    split at hc
    next hs =>
      obtain rfl := Option.some.inj hc
      rw [hs]
      exact h.descends t e ht p (hed.components ▸ hp)
    next => exact h.descends s c hc p hp
  distinct := by
    -- What a type is replaced by is told apart from the others as it was itself.
    have hold {s : TypeRef} {c : TypeDesc} (hc : (r.replace t d).lookup s = some c) :
        ∃ c', r.lookup s = some c' ∧ c'.identity = c.identity := by
      rw [lookup_replace ht] at hc
      split at hc
      next hs =>
        obtain rfl := Option.some.inj hc
        exact ⟨e, hs ▸ ht, hed.identity.symm⟩
      next => exact ⟨c, hc, rfl⟩
    intro s s' c c' hc hc' hcc
    obtain ⟨b, hb, hbc⟩ := hold hc
    obtain ⟨b', hb', hbc'⟩ := hold hc'
    exact h.distinct s s' b b' hb hb' (by rw [hbc, hbc', hcc])

theorem Step.canonical (h : r.Step r') (hr : r.Canonical) : r'.Canonical := by
  cases h with
  | adds h =>
    cases h with
    | structural d hn hd hnew =>
      refine hr.push (owns_of_admits hd hn) fun e he hed => hnew ?_
      rw [TypeDesc.identity_of_not_isNamed hn, TypeDesc.identity_eq_iff_of_not_isNamed hn] at hed
      exact hed ▸ he
    | named name hnew =>
      refine hr.push (by simp [TypeDesc.parts]) fun e he hed => ?_
      cases e with
      | named n body =>
        obtain rfl : n = name := by simpa [TypeDesc.identity] using hed
        exact hnew body he
      | _ => simp [TypeDesc.identity] at hed
  | body fields packed ht hf =>
    exact hr.replace ht (.body _ _) fun p hp => owns_of_isSized (hf p hp)

/-- Does a value of `t` have an element or a field of type `p`? -/
def PartOf (r : TypeRegistry) (p t : TypeRef) : Prop := p ∈ r.byValueParts t

structure Founded (r : TypeRegistry) : Prop where
  sized : ∀ p t, r.PartOf p t → r.isSized p
  wellFounded : WellFounded r.PartOf

theorem partOf_iff : r.PartOf p t ↔ ∃ d, r.lookup t = some d ∧ p ∈ d.byValueParts := by
  cases h : r.lookup t <;> simp [PartOf, byValueParts, h]

theorem not_partOf_of_lookup_none (h : r.lookup t = none) : ¬ r.PartOf p t := by
  simp [partOf_iff, h]

theorem founded_empty (context maxBits : Nat) : (empty context maxBits).Founded where
  sized _ t h := absurd h (not_partOf_of_lookup_none (lookup_empty context maxBits t))
  wellFounded := ⟨fun t => ⟨t, fun _ h =>
    absurd h (not_partOf_of_lookup_none (lookup_empty context maxBits t))⟩⟩

theorem isSized_of_admits (h : r.Admits d) (hn : d.isNamed = false) :
    ∀ p ∈ d.byValueParts, r.isSized p := by
  cases d with
  | array elem count => simpa [TypeDesc.byValueParts, Admits] using h
  | vector elem count =>
    obtain ⟨-, e, he, hs⟩ := h
    have hsized : e.isSized := by cases e <;> simp_all [TypeDesc.isScalar, TypeDesc.isSized]
    simpa [TypeDesc.byValueParts] using isSized_iff.2 ⟨e, he, hsized⟩
  | struct fields packed => exact h
  | named name body => simp [TypeDesc.isNamed] at hn
  | _ => simp [TypeDesc.byValueParts]

theorem Founded.give {parts : List TypeRef} (h : r.Founded) (hgrows : r.Grows r')
    (ht : ¬ r.isSized t) (hf : ∀ p ∈ parts, r.isSized p)
    (hparts : ∀ p s, r'.PartOf p s ↔ if s = t then p ∈ parts else r.PartOf p s) : r'.Founded := by
  have hne {p : TypeRef} (hp : r.isSized p) : p ≠ t := fun h => ht (h ▸ hp)
  -- The type was not sized, so it is a part of nothing yet: all others are taken apart as before.
  have hother : ∀ s, s ≠ t → Acc r'.PartOf s := by
    intro s
    induction s using h.wellFounded.induction with
    | _ s ih =>
      refine fun hs => ⟨s, fun p hp => ?_⟩
      rw [hparts, if_neg hs] at hp
      exact ih p hp (hne (h.sized p s hp))
  constructor
  · intro p s hp
    rw [hparts] at hp
    split at hp
    next => exact hgrows.isSized (hf p hp)
    next => exact hgrows.isSized (h.sized p s hp)
  · refine ⟨fun s => ?_⟩
    by_cases hs : s = t
    · refine ⟨s, fun p hp => ?_⟩
      rw [hparts, if_pos hs] at hp
      exact hother p (hne (hf p hp))
    · exact hother s hs

theorem Founded.push (h : r.Founded) (hd : ∀ p ∈ d.byValueParts, r.isSized p) :
    (r.push d).Founded := by
  refine h.give (t := r.handle r.size) (grows_push r d) (by simp [isSized, size]) hd fun p s => ?_
  rw [partOf_iff, lookup_push]
  split
  next => simp
  next => rw [partOf_iff]

theorem Founded.body {name : String} {fields : List TypeRef} {packed : Bool} (h : r.Founded)
    (ht : r.lookup t = some (.named name none)) (hf : ∀ f ∈ fields, r.isSized f) :
    (r.replace t (.named name (some (fields, packed)))).Founded := by
  have hopaque : ¬ r.isSized t := by simp [isSized, ht, TypeDesc.isSized]
  refine h.give (grows_replace ht (.body _ _)) hopaque hf fun p s => ?_
  rw [partOf_iff, lookup_replace ht]
  split
  next => simp [TypeDesc.byValueParts]
  next => rw [partOf_iff]

theorem Step.founded (h : r.Step r') (hr : r.Founded) : r'.Founded := by
  cases h with
  | adds h =>
    cases h with
    | structural d hn hd => exact hr.push (isSized_of_admits hd hn)
    | named name => exact hr.push (by simp [TypeDesc.byValueParts])
  | body fields packed ht hf => exact hr.body ht hf

theorem canonical_and_founded_of_runs {s : TypeRegistry} (h : ReflTransGen Step r s)
    (hr : r.Canonical ∧ r.Founded) : s.Canonical ∧ s.Founded := by
  induction h with
  | refl => exact hr
  | tail _ h ih => exact ⟨h.canonical ih.1, h.founded ih.2⟩

theorem Reachable.canonical_and_founded (h : r.Reachable) (hl : r.disposed = false) :
    r.Canonical ∧ r.Founded := by
  obtain ⟨context, maxBits, h⟩ := h
  exact canonical_and_founded_of_runs (h.runs hl)
    ⟨canonical_empty context maxBits, founded_empty context maxBits⟩

theorem Step.admits_of_lookup (h : r.Step r')
    (hr : ∀ t d, r.lookup t = some d → d.isNamed = false → r.Admits d)
    (hd : r'.lookup t = some d) (hn : d.isNamed = false) : r'.Admits d := by
  refine h.admits ?_
  cases h with
  | adds h =>
    cases h with
    | structural e _ he =>
      rw [lookup_push] at hd
      split at hd
      next => exact Option.some.inj hd ▸ he
      next => exact hr t d hd hn
    | named name =>
      rw [lookup_push] at hd
      split at hd
      next => exact Option.some.inj hd ▸ trivial
      next => exact hr t d hd hn
  | body fields packed ht =>
    rw [lookup_replace ht] at hd
    split at hd
    next => exact Option.some.inj hd ▸ trivial
    next => exact hr t d hd hn

theorem Reachable.admits (h : r.Reachable) (hl : r.disposed = false) (hd : r.lookup t = some d)
    (hn : d.isNamed = false) : r.Admits d := by
  obtain ⟨context, maxBits, h⟩ := h
  have hruns := h.runs hl
  clear h hl
  induction hruns generalizing t d with
  | refl => simp [lookup_empty] at hd
  | tail _ h ih => exact h.admits_of_lookup (fun t d hd hn => ih hd hn) hd hn

end TypeRegistry

end TypedIR
