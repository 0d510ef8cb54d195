import TypedIR.Proofs.Registry.Admission

namespace TypedIR

namespace TypeDesc

def parts : TypeDesc → List TypeRef
  | array elem _ | vector elem _ => [elem]
  | struct fields _ | named _ (some (fields, _)) => fields
  | fn result params _ => result :: params
  | _ => []

/-- What may become of a descriptor. -/
inductive Refines : TypeDesc → TypeDesc → Prop
  | refl (d : TypeDesc) : Refines d d
  | body (name : String) (body : List TypeRef × Bool) :
    Refines (named name none) (named name (some body))

theorem Refines.trans {c d e : TypeDesc} (h : c.Refines d) (h' : d.Refines e) : c.Refines e := by
  cases h with
  | refl => exact h'
  | body name b => cases h' with | refl => exact .body name b

theorem Refines.eq_of_not_isNamed {d e : TypeDesc} (h : d.Refines e) (hd : d.isNamed = false) :
    e = d := by
  cases h with
  | refl => rfl
  | body => simp [isNamed] at hd

theorem Refines.isSized {d e : TypeDesc} (h : d.Refines e) (hd : d.isSized) : e.isSized := by
  cases h with
  | refl => exact hd
  | body => rfl

end TypeDesc

namespace TypeRegistry

structure Grows (r r' : TypeRegistry) : Prop where
  context : r'.context = r.context
  disposed : r'.disposed = r.disposed
  lookup : ∀ t d, r.lookup t = some d → ∃ d', r'.lookup t = some d' ∧ d.Refines d'

/-- Types are made of known types. -/
def Closed (r : TypeRegistry) : Prop := ∀ t d, r.lookup t = some d → ∀ p ∈ d.parts, r.owns p

variable {r r' s : TypeRegistry} {t : TypeRef} {d : TypeDesc}

namespace Grows

theorem refl (r : TypeRegistry) : r.Grows r := ⟨rfl, rfl, fun _ d h => ⟨d, h, .refl d⟩⟩

theorem trans (h : r.Grows r') (h' : r'.Grows s) : r.Grows s where
  context := h'.context.trans h.context
  disposed := h'.disposed.trans h.disposed
  lookup := by
    intro t d hd
    obtain ⟨e, he, hde⟩ := h.lookup t d hd
    obtain ⟨e', he', hee⟩ := h'.lookup t e he
    exact ⟨e', he', hde.trans hee⟩

theorem owns (h : r.Grows r') (ht : r.owns t) : r'.owns t := by
  obtain ⟨d, hd⟩ := owns_iff.1 ht
  obtain ⟨e, he, _⟩ := h.lookup t d hd
  exact owns_iff.2 ⟨e, he⟩

theorem lookup_of_not_isNamed (h : r.Grows r') (hd : r.lookup t = some d)
    (hn : d.isNamed = false) : r'.lookup t = some d := by
  obtain ⟨e, he, hde⟩ := h.lookup t d hd
  exact hde.eq_of_not_isNamed hn ▸ he

theorem isSized (h : r.Grows r') (ht : r.isSized t) : r'.isSized t := by
  obtain ⟨d, hd, hs⟩ := (Option.any_eq_true _ _).1 ht
  obtain ⟨e, he, hde⟩ := h.lookup t d hd
  exact (Option.any_eq_true _ _).2 ⟨e, he, hde.isSized hs⟩

end Grows

def push (r : TypeRegistry) (d : TypeDesc) : TypeRegistry := { r with arena := r.arena ++ [d] }

theorem lookup_push : (r.push d).lookup t =
    if t = r.handle r.size then some d else r.lookup t := by
  obtain ⟨context, id⟩ := t
  simp only [lookup, push, handle, size, TypeRef.mk.injEq, List.getElem?_append]
  grind

theorem lookup_size : r.lookup (r.handle r.size) = none := by
  simp [size]

theorem lookup_push_of_lookup {e : TypeDesc} (h : r.lookup t = some d) :
    (r.push e).lookup t = some d := by
  have hne : t ≠ r.handle r.size := by
    rintro rfl
    rw [lookup_size] at h
    exact nomatch h
  simp [lookup_push, hne, h]

theorem grows_push (r : TypeRegistry) (d : TypeDesc) : r.Grows (r.push d) where
  context := rfl
  disposed := rfl
  lookup _ e he := ⟨e, lookup_push_of_lookup he, .refl e⟩

theorem closed_empty (context widthLimit : Nat) : (empty context widthLimit).Closed := by
  intro t d h
  simp [empty, lookup] at h

theorem Closed.push (h : r.Closed) (hd : ∀ p ∈ d.parts, r.owns p) : (r.push d).Closed := by
  intro t e he p hp
  rw [lookup_push] at he
  split at he
  · obtain rfl := Option.some.inj he
    exact (grows_push r d).owns (hd p hp)
  · exact (grows_push r d).owns (h t e he p hp)

theorem intern_eq (r : TypeRegistry) (d : TypeDesc) :
    (r.intern d).2 = r ∨ (r.intern d).2 = r.push d := by
  unfold intern
  split
  · exact .inl rfl
  · exact .inr rfl

theorem grows_intern (r : TypeRegistry) (d : TypeDesc) : r.Grows (r.intern d).2 := by
  rcases r.intern_eq d with h | h
  · rw [h]
    exact .refl r
  · rw [h]
    exact grows_push r d

theorem Closed.intern (h : r.Closed) (hd : ∀ p ∈ d.parts, r.owns p) : (r.intern d).2.Closed := by
  rcases r.intern_eq d with he | he
  · rwa [he]
  · rw [he]
    exact h.push hd

def replace (r : TypeRegistry) (t : TypeRef) (d : TypeDesc) : TypeRegistry :=
  { r with arena := r.arena.set (t.id - 1) d }

theorem lookup_replace {s : TypeRef} {e : TypeDesc} (h : r.lookup t = some e) :
    (r.replace t d).lookup s = if s = t then some d else r.lookup s := by
  obtain ⟨position, rfl, hp⟩ := lookup_eq_some_iff.1 h
  have hlt := (List.getElem?_eq_some_iff.1 hp).1
  obtain ⟨context, id⟩ := s
  simp only [lookup, replace, handle, TypeRef.mk.injEq, Nat.add_sub_cancel, List.getElem?_set]
  grind

theorem grows_replace {e : TypeDesc} (h : r.lookup t = some e) (hed : e.Refines d) :
    r.Grows (r.replace t d) where
  context := rfl
  disposed := rfl
  lookup := by
    intro s c hc
    rw [lookup_replace h]
    by_cases hs : s = t
    · subst hs
      rw [h] at hc
      exact ⟨d, by simp, Option.some.inj hc ▸ hed⟩
    · exact ⟨c, by simp [hs, hc], .refl c⟩

theorem Closed.replace {e : TypeDesc} (hr : r.Closed) (h : r.lookup t = some e)
    (hed : e.Refines d) (hd : ∀ p ∈ d.parts, r.owns p) : (r.replace t d).Closed := by
  intro s c hc p hp
  rw [lookup_replace h] at hc
  split at hc
  · obtain rfl := Option.some.inj hc
    exact (grows_replace h hed).owns (hd p hp)
  · exact (grows_replace h hed).owns (hr s c hc p hp)

theorem owns_of_admits (h : r.Admits d) (hn : d.isNamed = false) : ∀ p ∈ d.parts, r.owns p := by
  cases d with
  | void | int | float | pointer => simp [TypeDesc.parts]
  | array elem count => simpa [TypeDesc.parts] using owns_of_isSized h
  | vector elem count =>
    obtain ⟨-, e, he, -⟩ := h
    simpa [TypeDesc.parts] using owns_iff.2 ⟨e, he⟩
  | struct fields packed => exact fun p hp => owns_of_isSized (h p hp)
  | named name body => simp [TypeDesc.isNamed] at hn
  | fn result params variadic =>
    intro p hp
    rcases List.mem_cons.1 hp with rfl | hp
    · exact h.1.elim (fun hv => owns_iff.2 ⟨.void, hv⟩) owns_of_isSized
    · exact owns_of_isSized (h.2 p hp)

theorem of_admitBody {fields : List TypeRef} {packed : Bool}
    (h : r.admitBody t fields packed = .ok d) :
    ∃ e, r.lookup t = some e ∧ e.Refines d ∧ ∀ p ∈ d.parts, r.owns p := by
  obtain ⟨name, body, hl, hf, hb, rfl⟩ := admitBody_eq_ok_iff.1 h
  refine ⟨_, hl, ?_, fun p hp => owns_of_isSized (hf p hp).2⟩
  cases body with
  | none => exact .body name _
  | some body =>
    obtain rfl : body = (fields, packed) := by simpa using hb
    exact .refl _

end TypeRegistry

namespace TypeRequest

variable {α β : Type}

def after (q : TypeRequest α) (r : TypeRegistry) : TypeRegistry :=
  match q r with
  | .ok _ r' | .error _ r' => r'

/-- Whether it answers or fails, a request leaves a registry that has grown and is closed. -/
structure Keeps (q : TypeRequest α) : Prop where
  grows : ∀ r : TypeRegistry, r.Grows (after q r)
  closed : ∀ r : TypeRegistry, r.Closed → (after q r).Closed

theorem keeps_of_after_eq {q : TypeRequest α} (h : ∀ r, after q r = r) : Keeps q where
  grows r := by
    rw [h]
    exact .refl r
  closed r hr := by rwa [h]

theorem keeps_pure (a : α) : Keeps (pure a) := keeps_of_after_eq fun _ => rfl

theorem keeps_throw (e : TypeError) : Keeps (throw e : TypeRequest α) :=
  keeps_of_after_eq fun _ => rfl

theorem after_bind (x : TypeRequest α) (f : α → TypeRequest β) (r : TypeRegistry) :
    after (x >>= f) r = match x r with
      | .ok a r' => after (f a) r'
      | .error _ r' => r' := by
  simp only [after, Bind.bind, EStateM.bind]
  cases x r <;> rfl

theorem related_bind {R : TypeRegistry → TypeRegistry → Prop} {x : TypeRequest α}
    {f : α → TypeRequest β} (htrans : ∀ {r s t}, R r s → R s t → R r t) (hx : ∀ r, R r (after x r))
    (hf : ∀ a r, R r (after (f a) r)) (r : TypeRegistry) : R r (after (x >>= f) r) := by
  have h := hx r
  rw [after_bind]
  rw [after] at h
  cases hr : x r with
  | ok a r' =>
    rw [hr] at h
    exact htrans h (hf a r')
  | error e r' =>
    rw [hr] at h
    exact h

theorem Keeps.bind {x : TypeRequest α} {f : α → TypeRequest β} (hx : Keeps x)
    (hf : ∀ a, Keeps (f a)) : Keeps (x >>= f) where
  grows := related_bind TypeRegistry.Grows.trans hx.grows fun a => (hf a).grows
  closed := related_bind (R := fun r s => r.Closed → s.Closed) (fun h h' => h' ∘ h) hx.closed
    fun a => (hf a).closed

theorem keeps_live : Keeps live := by
  apply keeps_of_after_eq
  intro r
  cases h : r.disposed <;> simp [after, live, h]

theorem disposed_of_make {d : TypeDesc} {r r' : TypeRegistry} {t : TypeRef}
    (h : make d r = .ok t r') : r.disposed = false := by
  cases hd : r.disposed with
  | true => simp [make, hd] at h
  | false => rfl

theorem lookup_of_make {d : TypeDesc} {r r' : TypeRegistry} {t : TypeRef}
    (h : make d r = .ok t r') : r'.lookup t = some d := by
  cases hd : r.disposed with
  | true => simp [make, hd] at h
  | false =>
    cases hc : r.check d with
    | error e => simp [make, hd, hc] at h
    | ok u =>
      simp only [make, hd, hc, Bool.false_eq_true, if_false, EStateM.Result.ok.injEq] at h
      exact h.1 ▸ h.2 ▸ r.lookup_intern d

theorem after_make_eq (d : TypeDesc) (r : TypeRegistry) :
    after (make d) r = r ∨ r.check d = .ok () ∧ after (make d) r = (r.intern d).2 := by
  cases hd : r.disposed with
  | true => exact .inl (by simp [after, make, hd])
  | false =>
    cases hc : r.check d with
    | error e => exact .inl (by simp [after, make, hd, hc])
    | ok u => exact .inr ⟨rfl, by simp [after, make, hd, hc]⟩

theorem keeps_make {d : TypeDesc} (hn : d.isNamed = false) : Keeps (make d) := by
  constructor
  · intro r
    rcases after_make_eq d r with h | ⟨_, h⟩
    · rw [h]
      exact .refl r
    · rw [h]
      exact r.grows_intern d
  · intro r hr
    rcases after_make_eq d r with h | ⟨hc, h⟩
    · rwa [h]
    · rw [h]
      exact hr.intern (TypeRegistry.owns_of_admits (TypeRegistry.check_eq_ok_iff.1 hc) hn)

theorem after_named_eq (name : String) (r : TypeRegistry) :
    after (named name) r = r ∨ after (named name) r = r.push (.named name none) := by
  cases hd : r.disposed with
  | true => exact .inl (by simp [after, named, hd])
  | false =>
    cases he : name.isEmpty with
    | true => exact .inl (by simp [after, named, hd, he])
    | false =>
      cases hl : r.lookupNamed name with
      | none => exact .inr (by simp [after, named, hd, he, hl, TypeRegistry.push])
      | some t => exact .inl (by simp [after, named, hd, he, hl])

theorem keeps_named (name : String) : Keeps (named name) := by
  constructor
  · intro r
    rcases after_named_eq name r with h | h
    · rw [h]
      exact .refl r
    · rw [h]
      exact r.grows_push _
  · intro r hr
    rcases after_named_eq name r with h | h
    · rwa [h]
    · rw [h]
      exact hr.push (by simp [TypeDesc.parts])

theorem after_setBody_eq (t : TypeRef) (fields : List TypeRef) (packed : Bool) (r : TypeRegistry) :
    after (setBody t fields packed) r = r ∨ ∃ d, r.admitBody t fields packed = .ok d ∧
      after (setBody t fields packed) r = r.replace t d := by
  cases hd : r.disposed with
  | true => exact .inl (by simp [after, setBody, hd])
  | false =>
    cases ha : r.admitBody t fields packed with
    | error e => exact .inl (by simp [after, setBody, hd, ha])
    | ok d => exact .inr ⟨d, rfl, by simp [after, setBody, hd, ha, TypeRegistry.replace]⟩

theorem keeps_setBody (t : TypeRef) (fields : List TypeRef) (packed : Bool) :
    Keeps (setBody t fields packed) := by
  constructor
  · intro r
    rcases after_setBody_eq t fields packed r with h | ⟨d, ha, h⟩
    · rw [h]
      exact .refl r
    · obtain ⟨e, he, hed, _⟩ := TypeRegistry.of_admitBody ha
      rw [h]
      exact TypeRegistry.grows_replace he hed
  · intro r hr
    rcases after_setBody_eq t fields packed r with h | ⟨d, ha, h⟩
    · rwa [h]
    · obtain ⟨e, he, hed, hparts⟩ := TypeRegistry.of_admitBody ha
      rw [h]
      exact hr.replace he hed hparts

theorem keeps_handle (t : TypeRef) : Keeps (handle t) := by
  apply keeps_of_after_eq
  intro r
  cases h : r.component .referenced t <;> simp [after, handle, h]

/-- A property that requests have from the requests they are made of. -/
structure Inherited (P : {α : Type} → TypeRequest α → Prop) : Prop where
  pure : ∀ {α : Type} (a : α), P (pure a : TypeRequest α)
  throw : ∀ {α : Type} (e : TypeError), P (throw e : TypeRequest α)
  bind : ∀ {α β : Type} {x : TypeRequest α} {f : α → TypeRequest β},
    P x → (∀ a, P (f a)) → P (x >>= f)
  live : P live
  make : ∀ {d : TypeDesc}, d.isNamed = false → P (make d)
  named : ∀ name, P (named name)
  handle : ∀ t, P (handle t)

section

variable {P : {α : Type} → TypeRequest α → Prop}

mutual

theorem Inherited.resolve (h : Inherited P) (s : TypeSpec) : P (resolve s) := by
  unfold TypeRequest.resolve
  apply h.bind h.live
  intro u
  cases s with
  | void => exact h.make rfl
  | int bits => exact h.make rfl
  | float kind => exact h.make rfl
  | pointer space => exact h.make rfl
  | array parts count =>
    dsimp only
    split
    · exact h.throw _
    · refine h.bind (h.resolveAll parts) fun ts => ?_
      cases ts with
      | nil => exact h.throw _
      | cons elem _ => exact h.make rfl
  | vector parts count =>
    dsimp only
    split
    · exact h.throw _
    · refine h.bind (h.resolveAll parts) fun ts => ?_
      cases ts with
      | nil => exact h.throw _
      | cons elem _ => exact h.make rfl
  | struct fields packed =>
    exact h.bind (h.resolveAll fields) fun _ => h.make rfl
  | fn parts variadic =>
    refine h.bind (h.resolveAll parts) fun ts => ?_
    cases ts with
    | nil => exact h.throw _
    | cons result params => exact h.make rfl
  | named name => exact h.named name
  | handle t => exact h.handle t
  | malformed => exact h.throw _

theorem Inherited.resolveAll (h : Inherited P) (ss : List TypeSpec) : P (resolveAll ss) := by
  cases ss with
  | nil => exact h.pure _
  | cons s rest =>
    exact h.bind (h.resolve s) fun _ => h.bind (h.resolveAll rest) fun _ => h.pure _

end

end

theorem inherited_keeps : Inherited Keeps where
  pure := keeps_pure
  throw := keeps_throw
  bind := Keeps.bind
  live := keeps_live
  make := keeps_make
  named := keeps_named
  handle := keeps_handle

end TypeRequest

end TypedIR
