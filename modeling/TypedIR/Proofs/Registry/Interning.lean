import TypedIR.Proofs.Registry.Containment
import TypedIR.Proofs.Registry.Key
import TypedIR.Proofs.Registry.Trees

namespace TypedIR

open Relation (ReflTransGen TransGen)

namespace TypeRegistry

variable {r r' s : TypeRegistry} {t : TypeRef} {d : TypeDesc} {name : String}

theorem findIdx?_eq_some_of_unique {α : Type} {p : α → Bool} {xs : List α} {i : Nat} {x : α}
    (hx : xs[i]? = some x) (hp : p x) (h : ∀ j y, xs[j]? = some y → p y → j = i) :
    xs.findIdx? p = some i := by
  have hsome : (xs.findIdx? p).isSome := by
    simpa [List.findIdx?_isSome] using ⟨x, List.mem_of_getElem? hx, hp⟩
  obtain ⟨j, hj⟩ := Option.isSome_iff_exists.1 hsome
  obtain ⟨hlt, hpj, -⟩ := List.findIdx?_eq_some_iff_getElem.1 hj
  rw [hj, h j xs[j] (List.getElem?_eq_getElem hlt) hpj]

theorem Canonical.findIdx?_eq {position : Nat} (h : r.Canonical) (hd : r.arena[position]? = some d)
    {p : TypeDesc → Bool} (hp : p d) (hpe : ∀ e, p e → e.identity = d.identity) :
    r.arena.findIdx? p = some position := by
  refine findIdx?_eq_some_of_unique hd hp fun j e he hpj => ?_
  have heq := h.distinct (r.handle j) (r.handle position) e d (by rw [lookup_handle, he])
    (by rw [lookup_handle, hd]) (hpe e hpj)
  simpa [handle] using heq

theorem Canonical.intern_of_lookup (h : r.Canonical) (hd : r.lookup t = some d) :
    r.intern d = (t, r) := by
  obtain ⟨position, rfl, hp⟩ := lookup_eq_some_iff.1 hd
  have hfind := h.findIdx?_eq hp (p := (· = d)) (by simp) (by simp)
  simp [intern, hfind]

theorem Canonical.lookupNamed_of_lookup {body : Option (List TypeRef × Bool)} (h : r.Canonical)
    (hd : r.lookup t = some (.named name body)) : r.lookupNamed name = some t := by
  obtain ⟨position, rfl, hp⟩ := lookup_eq_some_iff.1 hd
  have hfind := h.findIdx?_eq hp (p := hasName name) (by simp [hasName]) fun e he => by
    cases e <;> simp_all [hasName, TypeDesc.identity]
  simp [lookupNamed, hfind]

theorem exists_lookup_of_lookupNamed (h : r.lookupNamed name = some t) :
    ∃ body, r.lookup t = some (.named name body) := by
  obtain ⟨position, hp, rfl⟩ := Option.map_eq_some_iff.1 h
  obtain ⟨hlt, hn, -⟩ := List.findIdx?_eq_some_iff_getElem.1 hp
  rw [lookup_handle, List.getElem?_eq_getElem hlt]
  cases he : r.arena[position] with
  | named n body => simp_all [hasName]
  | _ => simp_all [hasName]

theorem admits_of_runs (h : ReflTransGen Step r s) (hd : r.Admits d) : s.Admits d := by
  induction h with
  | refl => exact hd
  | tail _ h ih => exact h.admits ih

theorem lookup_body_of_runs {body : List TypeRef × Bool} (h : ReflTransGen Step r s)
    (hd : r.lookup t = some (.named name (some body))) :
    s.lookup t = some (.named name (some body)) := by
  obtain ⟨e, he, hde⟩ := (grows_of_runs h).lookup t _ hd
  cases hde with
  | refl => exact he

end TypeRegistry

namespace TypeRequest

open TypeRegistry

variable {α β : Type}

/-- A request that adds types and, when it has answered, has no more to add: asked again, whatever
happened since, it gives the same answer. -/
structure Repeatable (q : TypeRequest α) : Prop where
  onlyAdds : OnlyAdds q
  again : ∀ {r r' s : TypeRegistry} {a : α}, q r = .ok a r' → ReflTransGen Step r' s → s.Canonical →
    q s = .ok a s

theorem OnlyAdds.runs {q : TypeRequest α} (hq : OnlyAdds q) {r r' : TypeRegistry} {a : α}
    (h : q r = .ok a r') : ReflTransGen Step r r' := by
  have hruns := ReflTransGen.mono (fun _ _ => Step.adds) _ _ (hq r)
  rwa [after, h] at hruns

theorem Repeatable.bind {x : TypeRequest α} {f : α → TypeRequest β} (hx : Repeatable x)
    (hf : ∀ a, Repeatable (f a)) : Repeatable (x >>= f) where
  onlyAdds := hx.onlyAdds.bind fun a => (hf a).onlyAdds
  again := by
    intro r r' s b h hs hc
    simp only [Bind.bind, EStateM.bind] at h ⊢
    cases hr : x r with
    | error e r₁ => simp [hr] at h
    | ok a r₁ =>
      simp only [hr] at h
      have hr₁ : ReflTransGen Step r₁ s := ((hf a).onlyAdds.runs h).trans hs
      rw [hx.again hr hr₁ hc]
      exact (hf a).again h hs hc

theorem check_of_make {d : TypeDesc} {r r' : TypeRegistry} {t : TypeRef} (h : make d r = .ok t r') :
    r.check d = .ok () := by
  have hl := disposed_of_make h
  cases hc : r.check d with
  | error e => simp [make, hl, hc] at h
  | ok u => rfl

theorem repeatable_make {d : TypeDesc} (hn : d.isNamed = false) : Repeatable (make d) where
  onlyAdds := onlyAdds_make hn
  again := by
    intro r r' s t h hs hc
    have hruns : ReflTransGen Step r s := ((onlyAdds_make hn).runs h).trans hs
    have hl : s.disposed = false := (grows_of_runs hruns).disposed.trans (disposed_of_make h)
    have hcheck : s.check d = .ok () :=
      check_eq_ok_iff.2 (admits_of_runs hruns (check_eq_ok_iff.1 (check_of_make h)))
    have hd : s.lookup t = some d :=
      (grows_of_runs hs).lookup_of_not_isNamed (lookup_of_make h) hn
    simp [make, hl, hcheck, hc.intern_of_lookup hd]

theorem of_named_eq_ok {name : String} {r r' : TypeRegistry} {t : TypeRef}
    (h : named name r = .ok t r') : r.disposed = false ∧ name.isEmpty = false ∧
      ∃ body, r'.lookup t = some (.named name body) := by
  cases hl : r.disposed with
  | true => simp [named, hl] at h
  | false =>
    cases he : name.isEmpty with
    | true => simp [named, hl, he] at h
    | false =>
      refine ⟨rfl, rfl, ?_⟩
      cases ht : r.lookupNamed name with
      | some t' =>
        obtain ⟨rfl, rfl⟩ : t' = t ∧ r = r' := by simpa [named, hl, he, ht] using h
        exact exists_lookup_of_lookupNamed ht
      | none =>
        obtain ⟨rfl, rfl⟩ : r.handle r.size = t ∧ r.push (.named name none) = r' := by
          simpa [named, push, hl, he, ht] using h
        exact ⟨none, by simp [lookup_push]⟩

theorem repeatable_named (name : String) : Repeatable (named name) where
  onlyAdds := onlyAdds_named name
  again := by
    intro r r' s t h hs hc
    obtain ⟨hl, he, body, hd⟩ := of_named_eq_ok h
    have hruns : ReflTransGen Step r s := ((onlyAdds_named name).runs h).trans hs
    have hl : s.disposed = false := (grows_of_runs hruns).disposed.trans hl
    obtain ⟨e, hd, hde⟩ := (grows_of_runs hs).lookup t _ hd
    obtain ⟨body', rfl⟩ : ∃ body', e = .named name body' := by
      cases hde with
      | refl => exact ⟨body, rfl⟩
      | body name body => exact ⟨some body, rfl⟩
    simp [named, hl, he, hc.lookupNamed_of_lookup hd]

theorem repeatable_live : Repeatable live where
  onlyAdds := inherited_onlyAdds.live
  again := by
    intro r r' s u h hs _
    cases hl : r.disposed with
    | true => simp [live, hl] at h
    | false =>
      obtain rfl : r = r' := by simpa [live, hl] using h
      simp [live, (grows_of_runs hs).disposed, hl]

theorem repeatable_handle (t : TypeRef) : Repeatable (handle t) where
  onlyAdds := inherited_onlyAdds.handle t
  again := by
    intro r r' s u h hs _
    cases hd : r.component .referenced t with
    | error e => simp [handle, hd] at h
    | ok d =>
      obtain ⟨rfl, rfl⟩ : t = u ∧ r = r' := by simpa [handle, hd] using h
      obtain ⟨e, he, -⟩ := (grows_of_runs hs).lookup t d (component_eq_ok_iff.1 hd)
      simp [handle, component, he]

theorem inherited_repeatable : Inherited Repeatable where
  pure a := ⟨inherited_onlyAdds.pure a, fun h _ _ => by cases h; rfl⟩
  throw e := ⟨inherited_onlyAdds.throw e, fun h _ _ => nomatch h⟩
  bind := Repeatable.bind
  live := repeatable_live
  make := repeatable_make
  named := repeatable_named
  handle := repeatable_handle

theorem setBody_eq_ok {t : TypeRef} {fields : List TypeRef} {packed : Bool} {r : TypeRegistry}
    {d : TypeDesc} (hl : r.disposed = false) (ha : r.admitBody t fields packed = .ok d) :
    setBody t fields packed r = .ok () (r.replace t d) := by
  simp [setBody, replace, hl, ha]

theorem of_setBody_eq_ok {t : TypeRef} {fields : List TypeRef} {packed : Bool} {r r' : TypeRegistry}
    (h : setBody t fields packed r = .ok () r') :
    r.disposed = false ∧ (∀ f ∈ fields, r'.isSized f) ∧
      ∃ name, r'.lookup t = some (.named name (some (fields, packed))) := by
  cases hl : r.disposed with
  | true => simp [setBody, hl] at h
  | false =>
    cases ha : r.admitBody t fields packed with
    | error e => simp [setBody, hl, ha] at h
    | ok d =>
      obtain rfl : r.replace t d = r' := by simpa [setBody_eq_ok hl ha] using h
      obtain ⟨e, he, hed, -⟩ := of_admitBody ha
      obtain ⟨name, body, -, hf, -, rfl⟩ := admitBody_eq_ok_iff.1 ha
      exact ⟨rfl, fun f h => (grows_replace he hed).isSized (hf f h).2, name,
        by simp [lookup_replace he]⟩

theorem setBody_again {t : TypeRef} {fields : List TypeRef} {packed : Bool} {r r' s : TypeRegistry}
    (h : setBody t fields packed r = .ok () r') (hs : ReflTransGen Step r' s) (hs' : s.Founded) :
    setBody t fields packed s = .ok () s := by
  -- The same body may be set again: its fields are sized still, and as they are parts of the
  -- struct by now, the struct is not inside them.
  obtain ⟨hl, hsized, name, hd⟩ := of_setBody_eq_ok h
  have hl' : s.disposed = false := by
    have hruns := runs_setBody t fields packed r
    rw [after, h] at hruns
    exact (grows_of_runs (hruns.trans hs)).disposed.trans hl
  have hd' := lookup_body_of_runs hs hd
  have hfields : ∀ f ∈ fields, s.containsByValue f t = false ∧ s.isSized f := by
    intro f hf
    have hsf := (grows_of_runs hs).isSized (hsized f hf)
    have hpart : s.PartOf f t := partOf_iff.2 ⟨_, hd', hf⟩
    have hnot : ¬ s.containsByValue f t := fun h =>
      hs'.irrefl t (.tail' ((hs'.containsByValue_iff (owns_of_isSized hsf)).1 h) hpart)
    exact ⟨Bool.eq_false_iff.2 hnot, hsf⟩
  have ha : s.admitBody t fields packed = .ok (.named name (some (fields, packed))) :=
    admitBody_eq_ok_iff.2 ⟨name, _, hd', hfields, by simp, rfl⟩
  rw [setBody_eq_ok hl' ha, replace_eq_self hd']

end TypeRequest

namespace TypeCall

open TypeRegistry TypeRequest

theorem again (c : TypeCall) {r r' s : TypeRegistry} {t : TypeRef} (h : c.request r = .ok t r')
    (hs : ReflTransGen Step r' s) (hs' : s.Canonical ∧ s.Founded) : c.request s = .ok t s := by
  cases hc : c.isSetBody with
  | false => exact (inherited_repeatable.call hc).again h hs hs'.1
  | true =>
    cases c with
    | setBody u fields packed =>
      simp only [request, Bind.bind, EStateM.bind] at h ⊢
      cases hr : TypeRequest.setBody u fields packed r with
      | error e r₁ => simp [hr] at h
      | ok a r₁ =>
        obtain ⟨rfl, rfl⟩ : u = t ∧ r₁ = r' := by simpa [hr, pure, EStateM.pure] using h
        rw [setBody_again hr hs hs'.2]
        rfl
    | _ => simp [isSetBody] at hc

theorem lookup_after (c : TypeCall) {r : TypeRegistry} {t : TypeRef} {d : TypeDesc}
    (hd : r.lookup t = some d) : (after c.request r).lookup t = some d ∨
      ∃ name fields packed, c = .setBody t fields packed ∧ d = .named name none ∧
        (after c.request r).lookup t = some (.named name (some (fields, packed))) := by
  cases hc : c.isSetBody with
  | false => exact .inl (lookup_of_adds (inherited_onlyAdds.call hc r) hd)
  | true =>
    cases c with
    | setBody u fields packed =>
      rw [TypeCall.after_setBody]
      rcases after_setBody_eq u fields packed r with h | ⟨d', ha, h⟩
      · exact .inl (by rw [h, hd])
      · obtain ⟨name, body, hu, -, hb, rfl⟩ := admitBody_eq_ok_iff.1 ha
        rw [h, lookup_replace hu]
        by_cases ht : t = u
        · subst ht
          obtain rfl := Option.some.inj (hd.symm.trans hu)
          cases body with
          | none => exact .inr ⟨name, fields, packed, rfl, rfl, by simp⟩
          | some body =>
            obtain rfl : body = (fields, packed) := by simpa using hb
            exact .inl (by simp)
        · exact .inl (by simp [ht, hd])
    | _ => simp [isSetBody] at hc

end TypeCall

namespace TypeRegistry

variable {r : TypeRegistry}

theorem Reachable.leadsTo {s : TypeRegistry} (h : r.Reachable) (hs : r.LeadsTo s) :
    s.Reachable := by
  obtain ⟨context, maxBits, h⟩ := h
  exact ⟨context, maxBits, h.trans hs⟩

/-- In a live registry handles are equal just when they stand for the same type. What was answered
once is answered again and changes nothing; types stay what they are, but that an opaque struct is
given its body; and what is interned is just what its key finds. -/
theorem interning_canonical_of_reachable (h : r.Reachable) (hl : r.disposed = false) :
    (∀ t d, r.lookup t = some d → r.tree? t = d.tree? r.tree? ∧ (r.tree? t).isSome) ∧
    (∀ s t, r.owns s → r.owns t → (s = t ↔ r.tree? s = r.tree? t)) ∧
    (∀ (c : TypeCall) t r' s, c.request r = .ok t r' → r'.LeadsTo s → s.disposed = false →
      c.request s = .ok t s) ∧
    (∀ (c : TypeCall) t d, r.lookup t = some d →
      (TypeRequest.after c.request r).lookup t = some d ∨
      ∃ name fields packed, c = .setBody t fields packed ∧ d = .named name none ∧
        (TypeRequest.after c.request r).lookup t = some (.named name (some (fields, packed)))) ∧
    ∀ d, d.isNamed = false → r.check d = .ok () → r.internByKey d = r.intern d := by
  have hr := (h.canonical_and_founded hl).1
  refine ⟨fun t d hd => ⟨hr.tree?_eq hd, hr.isSome_tree? (owns_iff.2 ⟨d, hd⟩)⟩,
    fun s t => hr.eq_iff_tree?_eq, ?_, fun c t d => c.lookup_after, ?_⟩
  · intro c t r' s hc hs hs'
    have hr' : r.LeadsTo r' := by
      have hcall := LeadsTo.refl.call (r := r) (.type c)
      rwa [RegistryCall.after, TypeRequest.after, hc] at hcall
    exact c.again hc (hs.runs hs') ((h.leadsTo (hr'.trans hs)).canonical_and_founded hs')
  · exact fun d hn hd => hr.closed.internByKey_eq hn (check_eq_ok_iff.1 hd)

def bundle : TypeCall := .resolve (.struct [.array [.named "branch"] 4, .int 8] true)

theorem interning_canonical_branching :
    branching.Reachable ∧ branching.disposed = false ∧ branching.owns ⟨1, 5⟩ ∧
    branching.tree? ⟨1, 5⟩ = some (.array (.named "branch") 4) ∧
    (∀ t, branching.owns t → branching.tree? t = some (.array (.named "branch") 4) → t = ⟨1, 5⟩) ∧
    ∃ r s, bundle.request branching = .ok ⟨1, 7⟩ r ∧
      (RegistryCall.type (.named "leaf")).after r = s ∧ bundle.request s = .ok ⟨1, 7⟩ s := by
  have hr : branching.Reachable := reachable_afterAll 1 64 _
  have hl : branching.disposed = false := rfl
  have ho : branching.owns ⟨1, 5⟩ := rfl
  have htree : branching.tree? ⟨1, 5⟩ = some (.array (.named "branch") 4) := rfl
  obtain ⟨-, heq, hagain, -⟩ := interning_canonical_of_reachable hr hl
  refine ⟨hr, hl, ho, htree, fun t ht hT => (heq t ⟨1, 5⟩ ht ho).2 (hT.trans htree.symm), ?_⟩
  exact ⟨_, _, rfl, rfl, hagain bundle _ _ _ rfl (LeadsTo.refl.call _) rfl⟩

end TypeRegistry

end TypedIR
