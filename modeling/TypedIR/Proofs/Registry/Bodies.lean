import TypedIR.Proofs.Registry.Refusal
import TypedIR.Proofs.Registry.Texts

namespace TypedIR

open Relation (ReflTransGen)

abbrev Bodies := String → Option (List TypeTree × Bool)

namespace TypeTree

def isScalar : TypeTree → Bool
  | int _ | float _ | pointer _ => true
  | _ => false

def isSized (B : Bodies) : TypeTree → Bool
  | void | fn .. => false
  | named name => (B name).isSome
  | _ => true

def Allowed (maxBits : Nat) (B : Bodies) : TypeTree → Prop
  | int bits => bits ≠ 0 ∧ bits ≤ maxBits
  | array elem _ => elem.isSized B
  | vector elem count => count ≠ 0 ∧ elem.isScalar
  | struct fields _ => ∀ T ∈ fields, T.isSized B
  | fn result params _ => (result = .void ∨ result.isSized B) ∧ ∀ T ∈ params, T.isSized B
  | _ => True

end TypeTree

namespace TypeRegistry

variable {r r' : TypeRegistry} {B : Bodies} {t : TypeRef} {d : TypeDesc} {T : TypeTree} {name : String}

def Knows (r : TypeRegistry) (name : String) : Prop := ∃ t body, r.lookup t = some (.named name body)

def bodyTree? (r : TypeRegistry) (body : Option (List TypeRef × Bool)) : Option (List TypeTree × Bool) := do
  let (fields, packed) ← body
  return (← fields.mapM r.tree?, packed)

/-- A registry that lasts, where the named structs have these bodies. -/
structure HasBodies (r : TypeRegistry) (B : Bodies) : Prop where
  settled : r.Settled
  founded : r.Founded
  bodies : ∀ t name body, r.lookup t = some (.named name body) → r.bodyTree? body = B name
  unknown : ∀ name, ¬ r.Knows name → B name = none

theorem isSome_bodyTree? (hc : r.Canonical) {body : Option (List TypeRef × Bool)}
    (ht : r.lookup t = some (.named name body)) : (r.bodyTree? body).isSome = body.isSome := by
  cases body with
  | none => rfl
  | some b =>
    obtain ⟨fields, packed⟩ := b
    obtain ⟨Ts, hTs⟩ : ∃ Ts, fields.mapM r.tree? = some Ts :=
      hc.exists_trees (hc.closed t _ ht)
    simp [bodyTree?, hTs]

namespace HasBodies

variable (h : r.HasBodies B)
include h

theorem eq_of_tree? (hd : r.lookup t = some d) (hT : d.tree? r.tree? = some T) :
    d.isScalar = T.isScalar ∧ d.isSized = T.isSized B := by
  cases T with
  | void => exact TypeDesc.tree?_eq_void_iff.1 hT ▸ ⟨rfl, rfl⟩
  | int bits => exact TypeDesc.tree?_eq_int_iff.1 hT ▸ ⟨rfl, rfl⟩
  | float kind => exact TypeDesc.tree?_eq_float_iff.1 hT ▸ ⟨rfl, rfl⟩
  | pointer space => exact TypeDesc.tree?_eq_pointer_iff.1 hT ▸ ⟨rfl, rfl⟩
  | array S n =>
    obtain ⟨p, -, rfl⟩ := TypeDesc.tree?_eq_array_iff.1 hT
    exact ⟨rfl, rfl⟩
  | vector S n =>
    obtain ⟨p, -, rfl⟩ := TypeDesc.tree?_eq_vector_iff.1 hT
    exact ⟨rfl, rfl⟩
  | struct Ss packed =>
    obtain ⟨fields, -, rfl⟩ := TypeDesc.tree?_eq_struct_iff.1 hT
    exact ⟨rfl, rfl⟩
  | fn S Ss variadic =>
    obtain ⟨result, params, -, -, rfl⟩ := TypeDesc.tree?_eq_fn_iff.1 hT
    exact ⟨rfl, rfl⟩
  | named name =>
    obtain ⟨body, rfl⟩ := TypeDesc.tree?_eq_named_iff.1 hT
    refine ⟨rfl, ?_⟩
    rw [TypeTree.isSized, ← h.bodies t name body hd, isSome_bodyTree? h.settled.canonical hd]
    cases body <;> rfl

theorem isSized_iff (hT : r.tree? t = some T) : r.isSized t ↔ T.isSized B := by
  obtain ⟨d, hd⟩ := owns_iff.1 (owns_of_tree? hT)
  rw [h.settled.canonical.tree?_eq hd] at hT
  rw [TypeRegistry.isSized, hd, Option.any_some, (h.eq_of_tree? hd hT).2]

theorem all_isSized_iff {ts : List TypeRef} {Ts : List TypeTree} (hTs : ts.mapM r.tree? = some Ts) :
    (∀ t ∈ ts, r.isSized t) ↔ ∀ T ∈ Ts, T.isSized B := by
  rw [mapM_eq_some_iff] at hTs
  induction hTs with
  | nil => simp
  | cons hT _ ih => simp only [List.forall_mem_cons, h.isSized_iff hT, ih]

theorem admits_iff (hn : d.isNamed = false) (hT : d.tree? r.tree? = some T) :
    r.Admits d ↔ T.Allowed r.maxBits B := by
  have hc := h.settled.canonical
  cases T with
  | void => rw [TypeDesc.tree?_eq_void_iff.1 hT]; rfl
  | int bits => rw [TypeDesc.tree?_eq_int_iff.1 hT]; rfl
  | float kind => rw [TypeDesc.tree?_eq_float_iff.1 hT]; rfl
  | pointer space => rw [TypeDesc.tree?_eq_pointer_iff.1 hT]; rfl
  | array S n =>
    obtain ⟨elem, hS, rfl⟩ := TypeDesc.tree?_eq_array_iff.1 hT
    exact h.isSized_iff hS
  | vector S n =>
    obtain ⟨elem, hS, rfl⟩ := TypeDesc.tree?_eq_vector_iff.1 hT
    obtain ⟨e, he⟩ := owns_iff.1 (owns_of_tree? hS)
    have hscalar := (h.eq_of_tree? he (hc.tree?_eq he ▸ hS)).1
    simp only [Admits, TypeTree.Allowed, he, Option.some.injEq, exists_eq_left', hscalar]
  | struct Ss packed =>
    obtain ⟨fields, hSs, rfl⟩ := TypeDesc.tree?_eq_struct_iff.1 hT
    exact h.all_isSized_iff hSs
  | fn S Ss variadic =>
    obtain ⟨result, params, hS, hSs, rfl⟩ := TypeDesc.tree?_eq_fn_iff.1 hT
    obtain ⟨e, he⟩ := owns_iff.1 (owns_of_tree? hS)
    have hvoid : e = .void ↔ S = .void := by
      have htree := hc.tree?_eq he
      rw [← TypeDesc.tree?_eq_void_iff, ← htree, hS, Option.some.injEq]
    simp only [Admits, TypeTree.Allowed, he, Option.some.injEq, hvoid, h.isSized_iff hS,
      h.all_isSized_iff hSs]
  | named name =>
    obtain ⟨body, rfl⟩ := TypeDesc.tree?_eq_named_iff.1 hT
    simp [TypeDesc.isNamed] at hn

end HasBodies

theorem Step.settled (h : r.Step r') (hr : r.Settled) : r'.Settled where
  live := h.grows.disposed.trans hr.live
  canonical := h.canonical hr.canonical
  admits _ _ hd hn := h.admits_of_lookup hr.admits hd hn

theorem Knows.of_grows (h : r.Knows name) (hg : r.Grows r') : r'.Knows name := by
  obtain ⟨t, body, hd⟩ := h
  obtain ⟨e, he, hde⟩ := hg.lookup t _ hd
  cases hde with
  | refl => exact ⟨t, body, he⟩
  | body _ body => exact ⟨t, some body, he⟩

theorem bodyTree?_of_grows {body : Option (List TypeRef × Bool)} (hc : r.Canonical)
    (hc' : r'.Canonical) (hg : r.Grows r') (ht : r.lookup t = some (.named name body)) :
    r'.bodyTree? body = r.bodyTree? body := by
  cases body with
  | none => rfl
  | some b =>
    obtain ⟨fields, packed⟩ := b
    obtain ⟨Ts, hTs⟩ : ∃ Ts, fields.mapM r.tree? = some Ts :=
      hc.exists_trees (hc.closed t _ ht)
    simp [bodyTree?, hTs, hc.mapM_tree?_of_grows hc' hg hTs]

theorem HasBodies.step (h : r.HasBodies B) (ha : r.Adds r') : r'.HasBodies B where
  settled := (Step.adds ha).settled h.settled
  founded := (Step.adds ha).founded h.founded
  unknown name hn := h.unknown name fun hk => hn (hk.of_grows (Step.adds ha).grows)
  bodies := by
    intro t name body hd
    have hc := h.settled.canonical
    have hc' := (Step.adds ha).canonical hc
    have hold (hd : r.lookup t = some (.named name body)) : r'.bodyTree? body = B name := by
      rw [bodyTree?_of_grows hc hc' (Step.adds ha).grows hd, h.bodies t name body hd]
    cases ha with
    | structural d hn =>
      rw [lookup_push] at hd
      split at hd
      · obtain rfl := Option.some.inj hd
        simp [TypeDesc.isNamed] at hn
      · exact hold hd
    | named n hnew =>
      rw [lookup_push] at hd
      split at hd
      · obtain ⟨rfl, rfl⟩ := TypeDesc.named.inj (Option.some.inj hd)
        refine (h.unknown n ?_).symm
        rintro ⟨t, body, ht⟩
        exact hnew body (mem_arena_of_lookup ht)
      · exact hold hd

theorem HasBodies.adds (h : r.HasBodies B) (ha : ReflTransGen Adds r r') : r'.HasBodies B := by
  induction ha with
  | refl => exact h
  | tail _ ha ih => exact ih.step ha

theorem maxBits_of_adds (h : ReflTransGen Adds r r') : r'.maxBits = r.maxBits :=
  maxBits_of_runs (ReflTransGen.mono (fun _ _ => .adds) _ _ h)

section SetBody

variable {fields : List TypeRef} {Ts : List TypeTree} {packed : Bool}

theorem setBody_eq_ok_iff (hl : r.disposed = false) :
    TypeRequest.setBody t fields packed r = .ok () r' ↔
      ∃ d, r.admitBody t fields packed = .ok d ∧ r.replace t d = r' := by
  cases ha : r.admitBody t fields packed with
  | error e => simp [TypeRequest.setBody, hl, ha]
  | ok d => simp [TypeRequest.setBody_eq_ok hl ha]

theorem HasBodies.setBody_iff (h : r.HasBodies B) (ht : r.lookup t = some (.named name none))
    (hTs : fields.mapM r.tree? = some Ts) : TypeRequest.setBody t fields packed r = .ok () r' ↔
      (∀ T ∈ Ts, T.isSized B) ∧ r.replace t (.named name (some (fields, packed))) = r' := by
  have hopaque : ¬ r.isSized t := by simp [TypeRegistry.isSized, ht, TypeDesc.isSized]
  -- An opaque struct is in no type that is sized, so any sized fields may be its own.
  have hfields : (∀ f ∈ fields, r.containsByValue f t = false ∧ r.isSized f) ↔
      ∀ f ∈ fields, r.isSized f := by
    refine ⟨fun hf f hmem => (hf f hmem).2, fun hf f hmem => ⟨?_, hf f hmem⟩⟩
    rw [Bool.eq_false_iff, Ne, h.founded.containsByValue_iff (owns_of_isSized (hf f hmem))]
    exact fun hin => hopaque (h.founded.isSized_of_contains (hf f hmem) hin)
  rw [setBody_eq_ok_iff h.settled.live, ← h.all_isSized_iff hTs, ← hfields]
  constructor
  · rintro ⟨d, ha, rfl⟩
    obtain ⟨n, body, hd, hf, -, rfl⟩ := admitBody_eq_ok_iff.1 ha
    obtain ⟨rfl, rfl⟩ := TypeDesc.named.inj (Option.some.inj (ht.symm.trans hd))
    exact ⟨hf, rfl⟩
  · rintro ⟨hf, rfl⟩
    exact ⟨_, admitBody_eq_ok_iff.2 ⟨name, none, ht, hf, rfl, rfl⟩, rfl⟩

theorem HasBodies.replace (h : r.HasBodies B) (ht : r.lookup t = some (.named name none))
    (hTs : fields.mapM r.tree? = some Ts) (hsized : ∀ T ∈ Ts, T.isSized B) :
    (r.replace t (.named name (some (fields, packed)))).HasBodies
      (Function.update B name (some (Ts, packed))) := by
  have hc := h.settled.canonical
  have hstep : r.Step (r.replace t (.named name (some (fields, packed)))) :=
    .body fields packed ht ((h.all_isSized_iff hTs).2 hsized)
  refine ⟨hstep.settled h.settled, hstep.founded h.founded, fun s n body hd => ?_, fun n hn => ?_⟩
  · rw [lookup_replace ht] at hd
    split at hd
    · obtain ⟨rfl, rfl⟩ := TypeDesc.named.inj (Option.some.inj hd)
      simp [bodyTree?, hc.mapM_tree?_of_grows (hstep.canonical hc) hstep.grows hTs]
    next hs =>
      have hne : n ≠ name := by
        rintro rfl
        exact hs (hc.distinct s t _ _ hd ht rfl)
      rw [Function.update_of_ne hne, bodyTree?_of_grows hc (hstep.canonical hc) hstep.grows hd,
        h.bodies s n body hd]
  · have hne : n ≠ name := by
      rintro rfl
      exact hn (Knows.of_grows ⟨t, none, ht⟩ hstep.grows)
    rw [Function.update_of_ne hne]
    exact h.unknown n fun hk => hn (hk.of_grows hstep.grows)

theorem knows_replace_iff {n : String} (ht : r.lookup t = some (.named name none)) :
    (r.replace t (.named name (some (fields, packed)))).Knows n ↔ r.Knows n := by
  refine ⟨fun ⟨s, body, hd⟩ => ?_, fun hk => hk.of_grows (grows_replace ht (.body _ _))⟩
  rw [lookup_replace ht] at hd
  split at hd
  · obtain ⟨rfl, -⟩ := TypeDesc.named.inj (Option.some.inj hd)
    exact ⟨t, none, ht⟩
  · exact ⟨s, body, hd⟩

end SetBody

end TypeRegistry

end TypedIR
