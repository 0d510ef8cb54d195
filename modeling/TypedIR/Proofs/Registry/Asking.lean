import TypedIR.Proofs.Registry.Interning

/-! Types that are asked for by their structure. The specs in a spec are asked for one after the other,
parts before what they are parts of. Each adds its own type at most, so what is left when one of them is
refused are the types of those before it. -/

namespace TypedIR

open Relation (ReflTransGen)

inductive TypeAsk
  | make (d : TypeDesc)
  | named (name : String)
  | handle (t : TypeRef)
  | refuse (e : TypeError)

def TypeAsk.request : TypeAsk → TypeRequest TypeRef
  | make d => .make d
  | named name => .named name
  | handle t => .handle t
  | refuse e => throw e

namespace TypeSpec

def asked : TypeSpec → List TypeSpec
  | array parts _ | vector parts _ => if parts.length = 1 then parts else []
  | struct parts _ | fn parts _ => parts
  | _ => []

mutual

/-- A spec after all that is asked for before it. -/
def inOrder : TypeSpec → List TypeSpec
  | array parts count => (if parts.length = 1 then inOrderAll parts else []) ++ [.array parts count]
  | vector parts count => (if parts.length = 1 then inOrderAll parts else []) ++ [.vector parts count]
  | struct parts packed => inOrderAll parts ++ [.struct parts packed]
  | fn parts variadic => inOrderAll parts ++ [.fn parts variadic]
  | s => [s]

def inOrderAll : List TypeSpec → List TypeSpec
  | [] => []
  | s :: rest => inOrder s ++ inOrderAll rest

end

theorem inOrder_eq (s : TypeSpec) : s.inOrder = inOrderAll s.asked ++ [s] := by
  cases s with
  | array parts count | vector parts count =>
    rw [inOrder, asked]
    split <;> simp [inOrderAll]
  | struct | fn => rw [inOrder, asked]
  | _ => simp [inOrder, asked, inOrderAll]

def ask : TypeSpec → List TypeRef → TypeAsk
  | void, _ => .make .void
  | int bits, _ => .make (.int bits)
  | float kind, _ => .make (.float kind)
  | pointer space, _ => .make (.pointer space)
  | array _ count, elem :: _ => .make (.array elem count)
  | vector _ count, elem :: _ => .make (.vector elem count)
  | array _ _, [] | vector _ _, [] => .refuse .elementCount
  | struct _ packed, fields => .make (.struct fields packed)
  | fn _ variadic, result :: params => .make (.fn result params variadic)
  | fn _ _, [] => .refuse .noResult
  | named name, _ => .named name
  | handle t, _ => .handle t
  | malformed, _ => .refuse .malformed

def own (s : TypeSpec) (ts : List TypeRef) : TypeRequest TypeRef := (s.ask ts).request

theorem resolve_eq (s : TypeSpec) : TypeRequest.resolve s = (do
    TypeRequest.live
    s.own (← TypeRequest.resolveAll s.asked)) := by
  unfold TypeRequest.resolve
  congr 1
  funext u
  cases s with
  | array parts count | vector parts count =>
    by_cases h : parts.length = 1
    · simp only [asked, h, ne_eq, not_true_eq_false, if_false, if_true]
      congr 1
      funext ts
      cases ts <;> rfl
    · simp only [asked, h, ne_eq, not_false_eq_true, if_false, if_true, TypeRequest.resolveAll]
      rfl
  | struct fields packed => rfl
  | fn parts variadic =>
    dsimp only [asked]
    congr 1
    funext ts
    cases ts <;> rfl
  | _ =>
    simp only [asked, TypeRequest.resolveAll]
    rfl

theorem isNamed_of_ask {s : TypeSpec} {ts : List TypeRef} {d : TypeDesc} (h : s.ask ts = .make d) :
    d.isNamed = false := by
  cases s with
  | array | vector | fn =>
    cases ts with
    | nil => cases h
    | cons =>
      cases h
      rfl
  | _ => cases h <;> rfl

theorem sizeOf_lt_of_mem_asked {s p : TypeSpec} (h : p ∈ s.asked) : sizeOf p < sizeOf s := by
  cases s with
  | array parts count | vector parts count =>
    simp only [asked] at h
    split at h
    next =>
      have hlt := List.sizeOf_lt_of_mem h
      simp
      omega
    next => simp at h
  | struct parts _ | fn parts _ =>
    have hlt : sizeOf p < sizeOf parts := List.sizeOf_lt_of_mem h
    simp
    omega
  | _ => simp [asked] at h

theorem asked_induction {P : TypeSpec → Prop} (h : ∀ s, (∀ p ∈ s.asked, P p) → P s) (s : TypeSpec) :
    P s :=
  h s fun p _ => asked_induction h p
termination_by sizeOf s
decreasing_by exact sizeOf_lt_of_mem_asked ‹_›

end TypeSpec

namespace TypeRegistry

variable {r r' : TypeRegistry} {t u : TypeRef} {d : TypeDesc}

theorem owns_push (h : (r.push d).owns u) : r.owns u ∨ u = r.handle r.size := by
  by_cases hu : u = r.handle r.size
  · exact .inr hu
  · obtain ⟨e, he⟩ := owns_iff.1 h
    rw [lookup_push, if_neg hu] at he
    exact .inl (owns_iff.2 ⟨e, he⟩)

theorem owns_intern (h : (r.intern d).2.owns u) : r.owns u ∨ u = (r.intern d).1 := by
  by_cases hd : d ∈ r.arena
  · rw [intern_of_mem hd] at h
    exact .inl h
  · rw [intern_of_not_mem hd] at h ⊢
    exact owns_push h

theorem eq_of_adds (h : ReflTransGen Adds r r') (hu : ∀ u, r'.owns u → r.owns u) : r' = r := by
  cases h with
  | refl => rfl
  | @tail s _ hs h =>
    -- The last type that was added was not there before it.
    obtain ⟨d, rfl⟩ := h.exists_push
    have hlast : (s.push d).owns (s.handle s.size) := owns_iff.2 ⟨d, by simp [lookup_push]⟩
    obtain ⟨e, he⟩ := owns_iff.1 (hu _ hlast)
    exact nomatch lookup_size.symm.trans (lookup_of_adds hs he)

theorem eq_of_adds_of_adds (h : ReflTransGen Adds r r') (h' : ReflTransGen Adds r' r) : r' = r :=
  eq_of_adds h fun u hu => by
    obtain ⟨d, hd⟩ := owns_iff.1 hu
    exact owns_iff.2 ⟨d, lookup_of_adds h' hd⟩

theorem grows_of_adds (h : ReflTransGen Adds r r') : r.Grows r' :=
  grows_of_runs (ReflTransGen.mono (fun _ _ => .adds) _ _ h)

theorem canonical_of_adds (h : ReflTransGen Adds r r') (hr : r.Canonical) : r'.Canonical := by
  induction h with
  | refl => exact hr
  | tail _ h ih => exact (Step.adds h).canonical ih

end TypeRegistry

section Bind

variable {ε σ α β : Type} {x : EStateM ε σ α} {f : α → EStateM ε σ β} {r r' : σ} {b : β} {e : ε}

theorem of_bind_eq_ok (h : (x >>= f) r = .ok b r') :
    ∃ a r₁, x r = .ok a r₁ ∧ f a r₁ = .ok b r' := by
  simp only [Bind.bind, EStateM.bind] at h
  cases hx : x r with
  | ok a r₁ => exact ⟨a, r₁, rfl, by simpa only [hx] using h⟩
  | error e r₁ => simp [hx] at h

theorem of_bind_eq_error (h : (x >>= f) r = .error e r') :
    x r = .error e r' ∨ ∃ a r₁, x r = .ok a r₁ ∧ f a r₁ = .error e r' := by
  simp only [Bind.bind, EStateM.bind] at h
  cases hx : x r with
  | ok a r₁ => exact .inr ⟨a, r₁, rfl, by simpa only [hx] using h⟩
  | error e₁ r₁ =>
    obtain ⟨rfl, rfl⟩ := EStateM.Result.error.inj (by simpa only [hx] using h)
    exact .inl rfl

end Bind

namespace TypeRequest

open TypeRegistry

structure MakesOne (q : TypeRequest TypeRef) : Prop where
  refused : ∀ {r e r'}, q r = .error e r' → r' = r
  answered : ∀ {r t r'}, q r = .ok t r' → r'.owns t ∧ ∀ u, r'.owns u → r.owns u ∨ u = t

theorem makesOne_make (d : TypeDesc) : MakesOne (make d) where
  refused {r e r'} h := by
    cases hl : r.disposed with
    | true => simp_all [make]
    | false => cases hc : r.check d <;> simp_all [make]
  answered {r t r'} h := by
    have hr : (r.intern d).1 = t ∧ (r.intern d).2 = r' := by
      simpa [make, disposed_of_make h, check_of_make h] using h
    refine ⟨owns_iff.2 ⟨d, lookup_of_make h⟩, fun u hu => ?_⟩
    rw [← hr.1]
    exact owns_intern (hr.2 ▸ hu)

theorem makesOne_named (name : String) : MakesOne (named name) where
  refused {r e r'} h := by
    cases hl : r.disposed with
    | true => simp_all [named]
    | false =>
      cases he : name.isEmpty with
      | true => simp_all [named]
      | false => cases ht : r.lookupNamed name <;> simp_all [named]
  answered {r t r'} h := by
    obtain ⟨hl, he, body, hd⟩ := of_named_eq_ok h
    refine ⟨owns_iff.2 ⟨_, hd⟩, fun u hu => ?_⟩
    cases ht : r.lookupNamed name with
    | some t' =>
      obtain ⟨-, rfl⟩ : t' = t ∧ r = r' := by simpa [named, hl, he, ht] using h
      exact .inl hu
    | none =>
      obtain ⟨rfl, rfl⟩ : r.handle r.size = t ∧ r.push (.named name none) = r' := by
        simpa [named, push, hl, he, ht] using h
      exact owns_push hu

theorem makesOne_handle (t : TypeRef) : MakesOne (handle t) where
  refused {r e r'} h := by cases hd : r.component .referenced t <;> simp_all [handle]
  answered {r u r'} h := by
    cases hd : r.component .referenced t with
    | error e => simp [handle, hd] at h
    | ok d =>
      obtain ⟨rfl, rfl⟩ : t = u ∧ r = r' := by simpa [handle, hd] using h
      exact ⟨owns_iff.2 ⟨d, component_eq_ok_iff.1 hd⟩, fun _ => .inl⟩

theorem throw_eq_error (e : TypeError) (r : TypeRegistry) :
    (throw e : TypeRequest TypeRef) r = .error e r := rfl

theorem makesOne_throw (e : TypeError) : MakesOne (throw e) where
  refused h := by
    cases h
    rfl
  answered h := nomatch h

theorem makesOne_own (s : TypeSpec) (ts : List TypeRef) : MakesOne (s.own ts) := by
  rw [TypeSpec.own]
  cases s.ask ts with
  | make d => exact makesOne_make d
  | named name => exact makesOne_named name
  | handle t => exact makesOne_handle t
  | refuse e => exact makesOne_throw e

theorem onlyAdds_own (s : TypeSpec) (ts : List TypeRef) : OnlyAdds (s.own ts) := by
  rw [TypeSpec.own]
  cases h : s.ask ts with
  | make d => exact onlyAdds_make (TypeSpec.isNamed_of_ask h)
  | named name => exact onlyAdds_named name
  | handle t => exact inherited_onlyAdds.handle t
  | refuse e => exact inherited_onlyAdds.throw e

theorem adds_of_eq_ok {α : Type} {q : TypeRequest α} {r r' : TypeRegistry} {a : α} (hq : OnlyAdds q)
    (h : q r = .ok a r') : ReflTransGen Adds r r' := by
  simpa [after, h] using hq r

def Answers (r : TypeRegistry) (s : TypeSpec) (t : TypeRef) : Prop := resolve s r = .ok t r

variable {r r' r'' : TypeRegistry} {s : TypeSpec} {t u : TypeRef} {e : TypeError}

theorem Answers.adds (h : Answers r s t) (hr : ReflTransGen Adds r r') (hc : r'.Canonical) :
    Answers r' s t :=
  (inherited_repeatable.resolve s).again h (ReflTransGen.mono (fun _ _ => .adds) _ _ hr) hc

theorem resolve_eq_own {ts : List TypeRef} {r₁ : TypeRegistry} (hl : r.disposed = false)
    (h : resolveAll s.asked r = .ok ts r₁) : resolve s r = s.own ts r₁ := by
  simp [s.resolve_eq, Bind.bind, EStateM.bind, live, hl, h]

theorem resolve_eq_error {r₁ : TypeRegistry} (hl : r.disposed = false)
    (h : resolveAll s.asked r = .error e r₁) : resolve s r = .error e r₁ := by
  simp [s.resolve_eq, Bind.bind, EStateM.bind, live, hl, h]

theorem disposed_of_resolve (h : resolve s r = .ok t r') : r.disposed = false := by
  cases hl : r.disposed with
  | true => simp [s.resolve_eq, Bind.bind, EStateM.bind, live, hl] at h
  | false => rfl

/-- What is there after these specs were asked for, one after the other: their types, and nothing else
that was not there before. -/
structure Leaves (r r' : TypeRegistry) (asked : List TypeSpec) : Prop where
  runs : ReflTransGen Adds r r'
  answers : ∀ p ∈ asked, ∃ t, Answers r' p t
  made : ∀ u, r'.owns u → r.owns u ∨ ∃ p ∈ asked, Answers r' p u

theorem Leaves.nil (r : TypeRegistry) : Leaves r r [] where
  runs := .refl
  answers := by simp
  made _ := .inl

theorem Leaves.append {ps qs : List TypeSpec} (h : Leaves r r' ps) (h' : Leaves r' r'' qs)
    (hc : r''.Canonical) : Leaves r r'' (ps ++ qs) where
  runs := h.runs.trans h'.runs
  answers p hp := by
    rcases List.mem_append.1 hp with hp | hp
    · obtain ⟨t, ht⟩ := h.answers p hp
      exact ⟨t, ht.adds h'.runs hc⟩
    · exact h'.answers p hp
  made u hu := by
    rcases h'.made u hu with hu | ⟨p, hp, hpu⟩
    · rcases h.made u hu with hu | ⟨p, hp, hpu⟩
      · exact .inl hu
      · exact .inr ⟨p, List.mem_append_left qs hp, hpu.adds h'.runs hc⟩
    · exact .inr ⟨p, List.mem_append_right ps hp, hpu⟩

def Stops (r : TypeRegistry) (e : TypeError) (r' : TypeRegistry) (asked : List TypeSpec) : Prop :=
  ∃ before p after, asked = before ++ p :: after ∧ Leaves r r' before ∧ resolve p r' = .error e r'

theorem Stops.append_right {ps : List TypeSpec} (h : Stops r e r' ps) (qs : List TypeSpec) :
    Stops r e r' (ps ++ qs) := by
  obtain ⟨before, p, after, rfl, hb, hp⟩ := h
  exact ⟨before, p, after ++ qs, by simp, hb, hp⟩

theorem Leaves.stops {ps qs : List TypeSpec} (h : Leaves r r' ps) (h' : Stops r' e r'' qs)
    (hc : r''.Canonical) : Stops r e r'' (ps ++ qs) := by
  obtain ⟨before, p, after, rfl, hb, hp⟩ := h'
  exact ⟨ps ++ before, p, after, by simp, h.append hb hc, hp⟩

/-- How a request ends that asks for these specs. -/
structure Tracked {α : Type} (q : TypeRequest α) (asked : List TypeSpec) : Prop where
  answered : ∀ {r a r'}, r.Canonical → q r = .ok a r' → Leaves r r' asked
  refused : ∀ {r e r'}, r.Canonical → r.disposed = false → q r = .error e r' → Stops r e r' asked

theorem Tracked.resolveAll {ps : List TypeSpec} (h : ∀ p ∈ ps, Tracked (resolve p) p.inOrder) :
    Tracked (resolveAll ps) (TypeSpec.inOrderAll ps) := by
  induction ps with
  | nil =>
    constructor
    · rintro r a r' hr ⟨⟩
      exact .nil r
    · exact fun _ _ hq => nomatch hq
  | cons p ps ih =>
    have hp := h p List.mem_cons_self
    have hps := ih fun q hq => h q (List.mem_cons_of_mem p hq)
    rw [TypeSpec.inOrderAll]
    constructor
    · intro r ts r' hr hq
      rw [TypeRequest.resolveAll] at hq
      obtain ⟨t, r₁, h₁, hq⟩ := of_bind_eq_ok hq
      obtain ⟨us, r₂, h₂, hq⟩ := of_bind_eq_ok hq
      obtain ⟨-, rfl⟩ := EStateM.Result.ok.inj hq
      have hl₁ := hp.answered hr h₁
      have hr₁ := canonical_of_adds hl₁.runs hr
      have hl₂ := hps.answered hr₁ h₂
      exact hl₁.append hl₂ (canonical_of_adds hl₂.runs hr₁)
    · intro r e r' hr hl hq
      rw [TypeRequest.resolveAll] at hq
      obtain h₁ | ⟨t, r₁, h₁, hq⟩ := of_bind_eq_error hq
      · exact (hp.refused hr hl h₁).append_right _
      · have hl₁ := hp.answered hr h₁
        have hr₁ := canonical_of_adds hl₁.runs hr
        have hd₁ : r₁.disposed = false := (grows_of_adds hl₁.runs).disposed.trans hl
        obtain h₂ | ⟨us, r₂, -, hq⟩ := of_bind_eq_error hq
        · obtain ⟨before, q, after, hps', hb, hq'⟩ := hps.refused hr₁ hd₁ h₂
          rw [hps']
          exact hl₁.stops ⟨before, q, after, rfl, hb, hq'⟩ (canonical_of_adds hb.runs hr₁)
        · exact nomatch hq

theorem tracked_resolve (s : TypeSpec) : Tracked (resolve s) s.inOrder := by
  -- The parts come first. What they leave is known, and the spec then makes its own type at most.
  induction s using TypeSpec.asked_induction with
  | h s ih =>
    have hparts := Tracked.resolveAll ih
    rw [s.inOrder_eq]
    constructor
    · intro r t r' hr hq
      have hl := disposed_of_resolve hq
      cases h₁ : TypeRequest.resolveAll s.asked r with
      | error e r₁ => simp [resolve_eq_error hl h₁] at hq
      | ok ts r₁ =>
        have hleaves := hparts.answered hr h₁
        have hown : s.own ts r₁ = .ok t r' := resolve_eq_own hl h₁ ▸ hq
        have hruns := adds_of_eq_ok (onlyAdds_own s ts) hown
        have hr' := canonical_of_adds (hleaves.runs.trans hruns) hr
        have hself : Answers r' s t := (inherited_repeatable.resolve s).again hq .refl hr'
        refine hleaves.append ⟨hruns, by simpa using ⟨t, hself⟩, fun u hu => ?_⟩ hr'
        refine ((makesOne_own s ts).answered hown).2 u hu |>.imp_right ?_
        rintro rfl
        exact ⟨s, List.mem_singleton_self s, hself⟩
    · intro r e r' hr hl hq
      cases h₁ : TypeRequest.resolveAll s.asked r with
      | error e₁ r₁ =>
        obtain ⟨rfl, rfl⟩ : e₁ = e ∧ r₁ = r' := by simpa [resolve_eq_error hl h₁] using hq
        exact (hparts.refused hr hl h₁).append_right _
      | ok ts r₁ =>
        have hleaves := hparts.answered hr h₁
        have hown : s.own ts r₁ = .error e r' := resolve_eq_own hl h₁ ▸ hq
        obtain rfl := (makesOne_own s ts).refused hown
        have hr' := canonical_of_adds hleaves.runs hr
        have hl' : r'.disposed = false := (grows_of_adds hleaves.runs).disposed.trans hl
        -- The parts are there by now, so asking again for the spec itself ends in the same way.
        have hagain := (inherited_repeatable.resolveAll s.asked).again h₁ .refl hr'
        exact ⟨_, s, [], rfl, hleaves, (resolve_eq_own hl' hagain).trans hown⟩

end TypeRequest

end TypedIR
