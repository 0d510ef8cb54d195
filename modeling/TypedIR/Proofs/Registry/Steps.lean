import Mathlib.Logic.Relation
import TypedIR.Proofs.Growth.Types
import TypedIR.Proofs.Operation.Basic

namespace TypedIR

open Relation (ReflTransGen)

namespace TypeRegistry

variable {r r' s : TypeRegistry} {t : TypeRef} {d : TypeDesc}

inductive Adds (r : TypeRegistry) : TypeRegistry → Prop
  | structural (d : TypeDesc) (hn : d.isNamed = false) (hd : r.Admits d) (hnew : d ∉ r.arena) :
    Adds r (r.push d)
  | named (name : String) (hnew : ∀ body, .named name body ∉ r.arena) :
    Adds r (r.push (.named name none))

inductive Step (r : TypeRegistry) : TypeRegistry → Prop
  | adds {r' : TypeRegistry} (h : r.Adds r') : Step r r'
  | body {t : TypeRef} {name : String} (fields : List TypeRef) (packed : Bool)
    (ht : r.lookup t = some (.named name none)) (hf : ∀ f ∈ fields, r.isSized f) :
    Step r (r.replace t (.named name (some (fields, packed))))

theorem Adds.exists_push (h : r.Adds r') : ∃ d, r' = r.push d := by
  cases h with
  | structural d => exact ⟨d, rfl⟩
  | named name => exact ⟨_, rfl⟩

theorem lookup_of_adds (h : ReflTransGen Adds r r') (hd : r.lookup t = some d) :
    r'.lookup t = some d := by
  induction h with
  | refl => exact hd
  | tail _ h ih =>
    obtain ⟨e, rfl⟩ := h.exists_push
    exact lookup_push_of_lookup ih

theorem Step.grows (h : r.Step r') : r.Grows r' := by
  cases h with
  | adds h =>
    obtain ⟨d, rfl⟩ := h.exists_push
    exact grows_push r d
  | body fields packed ht => exact grows_replace ht (.body _ _)

theorem Step.maxBits (h : r.Step r') : r'.maxBits = r.maxBits := by
  cases h with
  | adds h =>
    obtain ⟨d, rfl⟩ := h.exists_push
    rfl
  | body => rfl

theorem Step.admits (h : r.Step r') (hd : r.Admits d) : r'.Admits d := by
  cases d with
  | void | float | pointer | named => trivial
  | int bits => exact ⟨hd.1, h.maxBits ▸ hd.2⟩
  | array elem count => exact h.grows.isSized hd
  | vector elem count =>
    obtain ⟨h0, e, he, hs⟩ := hd
    have hn : e.isNamed = false := by cases e <;> simp_all [TypeDesc.isScalar, TypeDesc.isNamed]
    exact ⟨h0, e, h.grows.lookup_of_not_isNamed he hn, hs⟩
  | struct fields packed => exact fun f hf => h.grows.isSized (hd f hf)
  | fn result params variadic =>
    exact ⟨hd.1.imp (fun hv => h.grows.lookup_of_not_isNamed hv rfl) h.grows.isSized,
      fun p hp => h.grows.isSized (hd.2 p hp)⟩

theorem replace_eq_self (h : r.lookup t = some d) : r.replace t d = r := by
  obtain ⟨position, rfl, hp⟩ := lookup_eq_some_iff.1 h
  obtain ⟨hlt, rfl⟩ := List.getElem?_eq_some_iff.1 hp
  simp [replace, handle]

theorem intern_of_mem (h : d ∈ r.arena) : (r.intern d).2 = r := by
  have hfind : (r.arena.findIdx? (· = d)).isSome := by simpa [List.findIdx?_isSome] using h
  obtain ⟨position, hp⟩ := Option.isSome_iff_exists.1 hfind
  simp [intern, hp]

theorem intern_of_not_mem (h : d ∉ r.arena) : r.intern d = (r.handle r.size, r.push d) := by
  have hfind : r.arena.findIdx? (· = d) = none := by
    simpa [List.findIdx?_eq_none_iff] using fun e he (hed : e = d) => h (hed ▸ he)
  simp [intern, hfind, push]

theorem lookupNamed_eq_none_iff {name : String} :
    r.lookupNamed name = none ↔ ∀ body, .named name body ∉ r.arena := by
  simp only [lookupNamed, Option.map_eq_none_iff, List.findIdx?_eq_none_iff]
  constructor
  · intro h body hmem
    simpa [hasName] using h _ hmem
  · intro h d hd
    cases d with
    | named n body =>
      have hne : n ≠ name := fun hn => h body (hn ▸ hd)
      simpa [hasName] using hne
    | _ => rfl

end TypeRegistry

namespace TypeRequest

open TypeRegistry

variable {α β : Type}

def OnlyAdds (q : TypeRequest α) : Prop := ∀ r, ReflTransGen Adds r (after q r)

theorem onlyAdds_of_after_eq {q : TypeRequest α} (h : ∀ r, after q r = r) : OnlyAdds q := by
  intro r
  rw [h]

theorem OnlyAdds.bind {x : TypeRequest α} {f : α → TypeRequest β} (hx : OnlyAdds x)
    (hf : ∀ a, OnlyAdds (f a)) : OnlyAdds (x >>= f) :=
  related_bind ReflTransGen.trans hx hf

theorem onlyAdds_make {d : TypeDesc} (hn : d.isNamed = false) : OnlyAdds (make d) := by
  intro r
  rcases after_make_eq d r with h | ⟨hc, h⟩
  · rw [h]
  · rw [h]
    by_cases hd : d ∈ r.arena
    · rw [intern_of_mem hd]
    · rw [intern_of_not_mem hd]
      exact .single (.structural d hn (check_eq_ok_iff.1 hc) hd)

theorem onlyAdds_named (name : String) : OnlyAdds (named name) := by
  intro r
  cases hl : r.lookupNamed name with
  | none =>
    rcases after_named_eq name r with h | h
    · rw [h]
    · rw [h]
      exact .single (.named name (lookupNamed_eq_none_iff.1 hl))
  | some t =>
    have h : after (named name) r = r := by
      simp only [after, named, hl]
      grind
    rw [h]

theorem inherited_onlyAdds : Inherited OnlyAdds where
  pure a := onlyAdds_of_after_eq fun _ => rfl
  throw e := onlyAdds_of_after_eq fun _ => rfl
  bind := OnlyAdds.bind
  live := onlyAdds_of_after_eq fun r => by cases h : r.disposed <;> simp [after, live, h]
  make := onlyAdds_make
  named := onlyAdds_named
  handle t := onlyAdds_of_after_eq fun r => by
    cases h : r.component .referenced t <;> simp [after, handle, h]

theorem runs_setBody (t : TypeRef) (fields : List TypeRef) (packed : Bool) (r : TypeRegistry) :
    ReflTransGen Step r (after (setBody t fields packed) r) := by
  rcases after_setBody_eq t fields packed r with h | ⟨d, ha, h⟩
  · rw [h]
  · rw [h]
    obtain ⟨name, body, hl, hf, hb, rfl⟩ := admitBody_eq_ok_iff.1 ha
    cases body with
    | none => exact .single (.body fields packed hl fun f h => (hf f h).2)
    | some body =>
      obtain rfl : body = (fields, packed) := by simpa using hb
      rw [replace_eq_self hl]

end TypeRequest

inductive RegistryCall
  | type (call : TypeCall)
  | dispose

def RegistryCall.after : RegistryCall → TypeRegistry → TypeRegistry
  | type call, r => TypeRequest.after call.request r
  | dispose, r => r.dispose

def TypeCall.isSetBody : TypeCall → Bool
  | setBody .. => true
  | _ => false

theorem TypeRequest.Inherited.call {P : {α : Type} → TypeRequest α → Prop} (h : Inherited P)
    {c : TypeCall} (hc : c.isSetBody = false) : P c.request := by
  cases c with
  | resolve spec => exact h.resolve spec
  | named name => exact h.named name
  | setBody t fields packed => simp [TypeCall.isSetBody] at hc
  | void => exact h.make (d := .void) rfl
  | int bits => exact h.make (d := .int bits) rfl
  | float kind => exact h.make (d := .float kind) rfl
  | pointer space => exact h.make (d := .pointer space) rfl
  | array elem count => exact h.make (d := .array elem count) rfl
  | vector elem count => exact h.make (d := .vector elem count) rfl
  | struct fields packed => exact h.make (d := .struct fields packed) rfl
  | fn result params variadic => exact h.make (d := .fn result params variadic) rfl

theorem TypeCall.after_setBody (t : TypeRef) (fields : List TypeRef) (packed : Bool)
    (r : TypeRegistry) : TypeRequest.after (TypeCall.setBody t fields packed).request r =
      TypeRequest.after (TypeRequest.setBody t fields packed) r := by
  rw [request, TypeRequest.after_bind, TypeRequest.after]
  cases TypeRequest.setBody t fields packed r <;> rfl

theorem TypeCall.runs (c : TypeCall) (r : TypeRegistry) :
    ReflTransGen TypeRegistry.Step r (TypeRequest.after c.request r) := by
  cases hc : c.isSetBody with
  | false =>
    exact ReflTransGen.mono (fun _ _ => .adds) _ _ (TypeRequest.inherited_onlyAdds.call hc r)
  | true =>
    cases c with
    | setBody t fields packed =>
      rw [TypeCall.after_setBody]
      exact TypeRequest.runs_setBody t fields packed r
    | _ => simp [isSetBody] at hc

theorem TypeCall.request_of_disposed {r : TypeRegistry} (h : r.disposed) (call : TypeCall) :
    call.request r = .error .disposed r := by
  have hmake (d : TypeDesc) : TypeRequest.make d r = .error .disposed r := by
    rw [TypeRequest.make, if_pos h]
  have hlive : TypeRequest.live r = .error .disposed r := by rw [TypeRequest.live, if_pos h]
  cases call with
  | resolve spec =>
    unfold request TypeRequest.resolve
    simp only [bind, EStateM.bind, hlive]
  | named name => rw [request, TypeRequest.named, if_pos h]
  | setBody t fields packed =>
    have hset : TypeRequest.setBody t fields packed r = .error .disposed r := by
      rw [TypeRequest.setBody, if_pos h]
    simp only [request, bind, EStateM.bind, hset]
  | void => exact hmake .void
  | int bits => exact hmake (.int bits)
  | float kind => exact hmake (.float kind)
  | pointer space => exact hmake (.pointer space)
  | array elem count => exact hmake (.array elem count)
  | vector elem count => exact hmake (.vector elem count)
  | struct fields packed => exact hmake (.struct fields packed)
  | fn result params variadic => exact hmake (.fn result params variadic)

namespace TypeRegistry

/-- Registries that calls lead to from this one. -/
inductive LeadsTo (r : TypeRegistry) : TypeRegistry → Prop
  | refl : LeadsTo r r
  | call {s : TypeRegistry} (h : LeadsTo r s) (c : RegistryCall) : LeadsTo r (c.after s)

def afterAll (r : TypeRegistry) (calls : List RegistryCall) : TypeRegistry :=
  calls.foldl (fun r c => c.after r) r

def Reachable (r : TypeRegistry) : Prop :=
  ∃ context maxBits, (empty context maxBits).LeadsTo r

variable {r s : TypeRegistry}

theorem LeadsTo.trans {r' : TypeRegistry} (h : r.LeadsTo s) (h' : s.LeadsTo r') : r.LeadsTo r' := by
  induction h' with
  | refl => exact h
  | call _ c ih => exact ih.call c

theorem LeadsTo.afterAll (h : r.LeadsTo s) (calls : List RegistryCall) :
    r.LeadsTo (s.afterAll calls) := by
  induction calls generalizing s with
  | nil => exact h
  | cons c calls ih => exact ih (h.call c)

theorem reachable_afterAll (context maxBits : Nat) (calls : List RegistryCall) :
    ((empty context maxBits).afterAll calls).Reachable :=
  ⟨context, maxBits, LeadsTo.refl.afterAll calls⟩

theorem grows_of_runs (h : ReflTransGen Step r s) : r.Grows s := by
  induction h with
  | refl => exact .refl r
  | tail _ h ih => exact ih.trans h.grows

theorem maxBits_of_runs (h : ReflTransGen Step r s) : s.maxBits = r.maxBits := by
  induction h with
  | refl => rfl
  | tail _ h ih => exact h.maxBits.trans ih

theorem LeadsTo.runs (h : r.LeadsTo s) (hs : s.disposed = false) : ReflTransGen Step r s := by
  induction h with
  | refl => exact .refl
  | @call s _ c ih =>
    cases c with
    | type c =>
      have hruns := c.runs s
      exact (ih ((grows_of_runs hruns).disposed ▸ hs)).trans hruns
    | dispose => exact nomatch hs

end TypeRegistry

end TypedIR
