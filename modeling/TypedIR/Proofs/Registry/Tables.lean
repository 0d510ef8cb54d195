import TypedIR.Proofs.Keyed
import TypedIR.Proofs.Registry.Asking
import TypedIR.Proofs.Registry.Key

/-! A registry that finds its types in tables: structural types by their keys, named structs by their
names. The tables hold places in 32 bits. Whatever is asked, they are in step with the arena, and the
answers are those of the registry without tables. -/

namespace TypedIR

def TypeDesc.name? : TypeDesc → Option String
  | named name _ => some name
  | _ => none

structure KeyedRegistry where
  types : TypeRegistry
  interned : List (String × UInt32) := []
  named : List (String × UInt32) := []
  namedOrder : List UInt32 := []

abbrev KeyedRequest := EStateM TypeError KeyedRegistry

namespace KeyedRegistry

def empty (context maxBits : Nat) : KeyedRegistry := { types := .empty context maxBits }

def lastPlace (k : KeyedRegistry) : UInt32 := .ofNat k.types.size

def handle (k : KeyedRegistry) (place : UInt32) : TypeRef := ⟨k.types.context, place.toNat⟩

def push (k : KeyedRegistry) (d : TypeDesc) : KeyedRegistry := { k with types := k.types.push d }

def intern (k : KeyedRegistry) (key : String) (d : TypeDesc) : TypeRef × KeyedRegistry :=
  match k.interned.lookup key with
  | some place => (k.handle place, k)
  | none =>
    let k := k.push d
    (k.handle k.lastPlace, { k with interned := k.interned ++ [(key, k.lastPlace)] })

def lookupNamed (k : KeyedRegistry) (name : String) : Option TypeRef :=
  if k.types.disposed then none else (k.named.lookup name).map k.handle

def namedStructs (k : KeyedRegistry) : List TypeRef :=
  if k.types.disposed then [] else k.namedOrder.map k.handle

def dispose (k : KeyedRegistry) : KeyedRegistry := { types := k.types.dispose }

end KeyedRegistry

namespace KeyedRequest

def live : KeyedRequest Unit := fun k =>
  if k.types.disposed then .error .disposed k else .ok () k

def make (d : TypeDesc) : KeyedRequest TypeRef := fun k =>
  if k.types.disposed then .error .disposed k
  else match k.types.check d, d.key? with
    | .error e, _ => .error e k
    | .ok (), none => .error .malformed k
    | .ok (), some key => let (t, k') := k.intern key d; .ok t k'

def named (name : String) : KeyedRequest TypeRef := fun k =>
  if k.types.disposed then .error .disposed k
  else if name.isEmpty then .error .emptyName k
  else match k.named.lookup name with
    | some place => .ok (k.handle place) k
    | none =>
      let k := k.push (.named name none)
      .ok (k.handle k.lastPlace) { k with
        named := k.named ++ [(name, k.lastPlace)]
        namedOrder := k.namedOrder ++ [k.lastPlace] }

def setBody (t : TypeRef) (fields : List TypeRef) (packed : Bool) : KeyedRequest Unit := fun k =>
  if k.types.disposed then .error .disposed k
  else match k.types.admitBody t fields packed with
    | .error e => .error e k
    | .ok d => .ok () { k with types := k.types.replace t d }

def handle (t : TypeRef) : KeyedRequest TypeRef := fun k =>
  match k.types.component .referenced t with
  | .error e => .error e k
  | .ok _ => .ok t k

def ask : TypeAsk → KeyedRequest TypeRef
  | .make d => make d
  | .named name => named name
  | .handle t => handle t
  | .refuse e => throw e

def resolve (s : TypeSpec) : KeyedRequest TypeRef := do
  live
  ask (s.ask (← s.asked.attach.mapM fun p => resolve p.1))
termination_by sizeOf s
decreasing_by exact TypeSpec.sizeOf_lt_of_mem_asked p.2

end KeyedRequest

def TypeCall.keyed : TypeCall → KeyedRequest TypeRef
  | resolve spec => .resolve spec
  | void => .make .void
  | int bits => .make (.int bits)
  | float kind => .make (.float kind)
  | pointer space => .make (.pointer space)
  | array elem count => .make (.array elem count)
  | vector elem count => .make (.vector elem count)
  | struct fields packed => .make (.struct fields packed)
  | fn result params variadic => .make (.fn result params variadic)
  | named name => .named name
  | setBody t fields packed => do
    KeyedRequest.setBody t fields packed
    return t

def RegistryCall.keyedAfter : RegistryCall → KeyedRegistry → KeyedRegistry
  | type call, k => match call.keyed k with
    | .ok _ k' | .error _ k' => k'
  | dispose, k => k.dispose

def KeyedRegistry.afterAll (k : KeyedRegistry) (calls : List RegistryCall) : KeyedRegistry :=
  calls.foldl (fun k c => c.keyedAfter k) k

namespace TypeRegistry

variable {r r' : TypeRegistry} {t : TypeRef} {d : TypeDesc}

def keyed (r : TypeRegistry) : KeyedRegistry where
  types := r
  interned := placesOf TypeDesc.key? r.arena
  named := placesOf TypeDesc.name? r.arena
  namedOrder := (placesOf TypeDesc.name? r.arena).map Prod.snd

@[simp] theorem types_keyed (r : TypeRegistry) : r.keyed.types = r := rfl

theorem lookup_named (r : TypeRegistry) (name : String) : r.keyed.named.lookup name =
    (r.arena.findIdx? (hasName name)).map fun i => UInt32.ofNat (i + 1) := by
  have hname : (fun d => decide (TypeDesc.name? d = some name)) = hasName name := by
    funext d
    cases d <;> simp [TypeDesc.name?, hasName]
  rw [← hname]
  exact lookup_placesOf name

theorem fits_of_grows (h : r.Grows r') (hr : r'.fits) : r.fits := by
  have hle : r.size ≤ r'.size := by
    by_contra hlt
    -- The last type of the smaller registry would be lost.
    have hlast : r.owns (r.handle r'.size) := by
      rw [owns, lookup_handle, Option.isSome_iff_exists]
      exact ⟨_, List.getElem?_eq_getElem (Nat.lt_of_not_le hlt)⟩
    have hle := id_le_size_of_owns (h.owns hlast)
    exact absurd hle (Nat.not_succ_le_self _)
  rw [fits, decide_eq_true_iff] at hr ⊢
  exact Nat.lt_of_le_of_lt hle hr

theorem handle_keyed {position : Nat} (hr : r.fits) (hp : position < r.size) :
    r.keyed.handle (UInt32.ofNat (position + 1)) = r.handle position := by
  rw [fits, decide_eq_true_iff] at hr
  rw [KeyedRegistry.handle, UInt32.toNat_ofNat', Nat.mod_eq_of_lt (by omega)]
  rfl

theorem size_push : (r.push d).size = r.size + 1 := by
  simp [push, size]

theorem handle_lastPlace (hr : (r.push d).fits) :
    (r.keyed.push d).handle (r.keyed.push d).lastPlace = r.handle r.size := by
  have hlt : r.size < (r.push d).size := by
    rw [size_push]
    exact Nat.lt_succ_self _
  have h := handle_keyed hr hlt
  rw [KeyedRegistry.lastPlace]
  exact size_push (r := r) (d := d) ▸ h

theorem keyed_push_structural (hn : d.isNamed = false) {key : String} (hk : d.key? = some key) :
    (r.push d).keyed = { r.keyed.push d with
      interned := r.keyed.interned ++ [(key, (r.keyed.push d).lastPlace)] } := by
  have hname : d.name? = none := by cases d <;> first | rfl | simp [TypeDesc.isNamed] at hn
  simp only [keyed, push, placesOf_concat, hk, hname, KeyedRegistry.push, KeyedRegistry.lastPlace, size,
    List.length_append, List.length_singleton]
  simp

theorem Closed.keyed_intern (h : r.Closed) (hn : d.isNamed = false) (hd : r.Admits d) {key : String}
    (hk : d.key? = some key) (hr : (r.intern d).2.fits) :
    r.keyed.intern key d = ((r.intern d).1, (r.intern d).2.keyed) := by
  have hlookup : r.keyed.interned.lookup key = _ := lookup_placesOf key
  rw [← h.internByKey_eq hn hd] at hr ⊢
  rw [KeyedRegistry.intern, hlookup]
  rw [internByKey, hk] at hr ⊢
  cases hfind : r.arena.findIdx? fun e => e.key? = some key with
  | some position =>
    rw [hfind] at hr
    simp only [Option.map_some, handle_keyed hr (List.findIdx?_eq_some_iff_getElem.1 hfind).1]
  | none =>
    rw [hfind] at hr
    simp only [Option.map_none, handle_lastPlace hr, keyed_push_structural hn hk]
    rfl

theorem keyed_push_named (name : String) :
    (r.push (.named name none)).keyed = { r.keyed.push (.named name none) with
      named := r.keyed.named ++ [(name, (r.keyed.push (.named name none)).lastPlace)]
      namedOrder := r.keyed.namedOrder ++ [(r.keyed.push (.named name none)).lastPlace] } := by
  simp only [keyed, push, placesOf_concat, TypeDesc.key?, TypeDesc.name?, KeyedRegistry.push,
    KeyedRegistry.lastPlace, size, List.length_append, List.length_singleton]
  simp

theorem keyed_replace {e : TypeDesc} (ht : r.lookup t = some e) (hed : e.Refines d) :
    (r.replace t d).keyed = { r.keyed with types := r.replace t d } := by
  have hkey : d.key? = e.key? := by cases hed <;> rfl
  have hname : d.name? = e.name? := by cases hed <;> rfl
  obtain ⟨position, rfl, hp⟩ := lookup_eq_some_iff.1 ht
  obtain ⟨hlt, rfl⟩ := List.getElem?_eq_some_iff.1 hp
  simp only [keyed, replace, handle, Nat.add_sub_cancel, placesOf_set hlt hkey, placesOf_set hlt hname]

end TypeRegistry

namespace KeyedRequest

open TypeRequest

variable {α β : Type} {r r' : TypeRegistry}

def withTables : EStateM.Result TypeError TypeRegistry α → EStateM.Result TypeError KeyedRegistry α
  | .ok a r => .ok a r.keyed
  | .error e r => .error e r.keyed

/-- The request to the tables answers as the other does, and leaves the tables of what that leaves. -/
structure InStep (x : KeyedRequest α) (q : TypeRequest α) : Prop where
  keeps : Keeps q
  run : ∀ r : TypeRegistry, r.Closed → (after q r).fits → x r.keyed = withTables (q r)

theorem inStep_pure (a : α) : InStep (pure a) (pure a) := ⟨keeps_pure a, fun _ _ _ => rfl⟩

theorem inStep_throw (e : TypeError) : InStep (throw e : KeyedRequest α) (throw e) :=
  ⟨keeps_throw e, fun _ _ _ => rfl⟩

theorem InStep.bind {x : KeyedRequest α} {q : TypeRequest α} {f : α → KeyedRequest β}
    {g : α → TypeRequest β} (hx : InStep x q) (hf : ∀ a, InStep (f a) (g a)) :
    InStep (x >>= f) (q >>= g) where
  keeps := hx.keeps.bind fun a => (hf a).keeps
  run r hr hfits := by
    have hgrows := hx.keeps.grows r
    have hclosed := hx.keeps.closed r hr
    rw [after_bind] at hfits
    rw [after] at hgrows hclosed
    have hrun := hx.run r hr
    rw [after] at hrun
    simp only [Bind.bind, EStateM.bind]
    cases hq : q r with
    | ok a r' =>
      rw [hq] at hgrows hclosed hfits hrun
      rw [hrun (TypeRegistry.fits_of_grows ((hf a).keeps.grows r') hfits)]
      exact (hf a).run r' hclosed hfits
    | error e r' =>
      rw [hq] at hfits hrun
      rw [hrun hfits]
      rfl

theorem inStep_live : InStep live TypeRequest.live where
  keeps := keeps_live
  run r _ _ := by
    cases h : r.disposed <;> simp [live, TypeRequest.live, withTables, h]

theorem inStep_make {d : TypeDesc} (hn : d.isNamed = false) : InStep (make d) (.make d) where
  keeps := keeps_make hn
  run r hr hfits := by
    obtain ⟨key, hk⟩ : ∃ key, d.key? = some key := by
      cases d <;> first | exact ⟨_, rfl⟩ | simp [TypeDesc.isNamed] at hn
    cases hd : r.disposed with
    | true => simp [make, TypeRequest.make, withTables, hd]
    | false =>
      cases hc : r.check d with
      | error e => simp [make, TypeRequest.make, withTables, hd, hc]
      | ok =>
        have hafter : after (.make d) r = (r.intern d).2 := by simp [after, TypeRequest.make, hd, hc]
        have h := hr.keyed_intern hn (TypeRegistry.check_eq_ok_iff.1 hc) hk (hafter ▸ hfits)
        simp [make, TypeRequest.make, withTables, hd, hc, hk, h]

theorem inStep_named (name : String) : InStep (named name) (.named name) where
  keeps := keeps_named name
  run r hr hfits := by
    cases hd : r.disposed with
    | true => simp [named, TypeRequest.named, withTables, hd]
    | false =>
      cases he : name.isEmpty with
      | true => simp [named, TypeRequest.named, withTables, hd, he]
      | false =>
        have hlookup := r.lookup_named name
        cases hfind : r.arena.findIdx? (TypeRegistry.hasName name) with
        | some position =>
          have hplain : TypeRequest.named name r = .ok (r.handle position) r := by
            simp [TypeRequest.named, TypeRegistry.lookupNamed, hd, he, hfind]
          rw [after, hplain] at hfits
          rw [hfind, Option.map_some] at hlookup
          have hhandle : r.keyed.handle (UInt32.ofNat (position + 1)) = r.handle position :=
            TypeRegistry.handle_keyed hfits (List.findIdx?_eq_some_iff_getElem.1 hfind).1
          simpa [named, withTables, hplain, hd, he, hlookup] using hhandle
        | none =>
          have hplain : TypeRequest.named name r = .ok (r.handle r.size) (r.push (.named name none)) := by
            simp [TypeRequest.named, TypeRegistry.lookupNamed, TypeRegistry.push, hd, he, hfind]
          rw [after, hplain] at hfits
          rw [hfind, Option.map_none] at hlookup
          rw [hplain, withTables, TypeRegistry.keyed_push_named]
          simp only [named, TypeRegistry.types_keyed, hd, he, hlookup,
            TypeRegistry.handle_lastPlace hfits]
          rfl

theorem inStep_setBody (t : TypeRef) (fields : List TypeRef) (packed : Bool) :
    InStep (setBody t fields packed) (.setBody t fields packed) where
  keeps := keeps_setBody t fields packed
  run r hr hfits := by
    cases hd : r.disposed with
    | true => simp [setBody, TypeRequest.setBody, withTables, hd]
    | false =>
      cases ha : r.admitBody t fields packed with
      | error e => simp [setBody, TypeRequest.setBody, withTables, hd, ha]
      | ok d =>
        obtain ⟨e, he, hed, -⟩ := TypeRegistry.of_admitBody ha
        have hplain : TypeRequest.setBody t fields packed r = .ok () (r.replace t d) := by
          simp [TypeRequest.setBody, TypeRegistry.replace, hd, ha]
        rw [hplain, withTables, TypeRegistry.keyed_replace he hed]
        simp [setBody, hd, ha]

theorem inStep_handle (t : TypeRef) : InStep (handle t) (.handle t) where
  keeps := keeps_handle t
  run r _ _ := by
    cases h : r.component .referenced t <;> simp [handle, TypeRequest.handle, withTables, h]

theorem inStep_ask (s : TypeSpec) (ts : List TypeRef) : InStep (ask (s.ask ts)) (s.own ts) := by
  rw [TypeSpec.own]
  cases h : s.ask ts with
  | make d => exact inStep_make (TypeSpec.isNamed_of_ask h)
  | named name => exact inStep_named name
  | handle t => exact inStep_handle t
  | refuse e => exact inStep_throw e

theorem InStep.all {ss : List TypeSpec} (h : ∀ s ∈ ss, InStep (resolve s) (.resolve s)) :
    InStep (ss.mapM resolve) (.resolveAll ss) := by
  induction ss with
  | nil => exact inStep_pure []
  | cons s ss ih =>
    rw [List.mapM_cons, TypeRequest.resolveAll]
    refine (h s List.mem_cons_self).bind fun t => ?_
    exact (ih fun p hp => h p (List.mem_cons_of_mem s hp)).bind fun ts => inStep_pure (t :: ts)

theorem inStep_resolve (s : TypeSpec) : InStep (resolve s) (.resolve s) := by
  induction s using TypeSpec.asked_induction with
  | h s ih =>
    rw [resolve, s.resolve_eq]
    refine inStep_live.bind fun _ => ?_
    rw [List.mapM_subtype fun _ _ => rfl, List.unattach_attach]
    exact (InStep.all ih).bind fun ts => inStep_ask s ts

end KeyedRequest

open KeyedRequest in
theorem TypeCall.inStep (c : TypeCall) : InStep c.keyed c.request := by
  cases c with
  | resolve spec => exact inStep_resolve spec
  | named name => exact inStep_named name
  | setBody t fields packed => exact (inStep_setBody t fields packed).bind fun _ => inStep_pure t
  | void => exact inStep_make (d := .void) rfl
  | int bits => exact inStep_make (d := .int bits) rfl
  | float kind => exact inStep_make (d := .float kind) rfl
  | pointer space => exact inStep_make (d := .pointer space) rfl
  | array elem count => exact inStep_make (d := .array elem count) rfl
  | vector elem count => exact inStep_make (d := .vector elem count) rfl
  | struct fields packed => exact inStep_make (d := .struct fields packed) rfl
  | fn result params variadic => exact inStep_make (d := .fn result params variadic) rfl

namespace TypeRegistry

open KeyedRequest TypeRequest

variable {r : TypeRegistry}

theorem map_namedOrder (hr : r.fits) : r.keyed.namedOrder.map r.keyed.handle = r.namedStructs := by
  have hnamed : r.namedStructs = r.arena.zipIdx.filterMap fun e =>
      if e.1.isNamed then some (r.handle e.2) else none := by
    rw [namedStructs, ← List.filterMap_eq_map, List.filterMap_filter]
    rfl
  change ((placesOf TypeDesc.name? r.arena).map Prod.snd).map r.keyed.handle = _
  rw [hnamed, placesOf, List.map_filterMap, List.map_filterMap, List.zipIdx_map, List.filterMap_map]
  refine List.filterMap_congr fun e he => ?_
  obtain ⟨d, position⟩ := e
  have hlt : position < r.size := (List.mem_zipIdx' he).1
  cases d with
  | named name body =>
    simp only [Function.comp_apply, Prod.map_apply, TypeDesc.name?, Option.map_some, id]
    rw [handle_keyed hr hlt]
    rfl
  | _ => rfl

theorem arena_afterAll {calls : List RegistryCall} (h : r.disposed → r.arena = []) :
    (r.afterAll calls).disposed → (r.afterAll calls).arena = [] := by
  induction calls generalizing r with
  | nil => exact h
  | cons c calls ih =>
    refine ih fun hd => ?_
    cases c with
    | dispose => rfl
    | type c =>
      have hgrows : (after c.request r).disposed = r.disposed := (c.inStep.keeps.grows r).disposed
      have hr : r.disposed := hgrows ▸ hd
      change (after c.request r).arena = []
      rw [after, c.request_of_disposed hr]
      exact h hr

theorem Closed.after (hr : r.Closed) (c : RegistryCall) : (c.after r).Closed := by
  cases c with
  | type c => exact c.inStep.keeps.closed r hr
  | dispose => exact fun t d ht => by simp [RegistryCall.after] at ht

theorem Closed.afterAll (hr : r.Closed) (calls : List RegistryCall) : (r.afterAll calls).Closed := by
  induction calls generalizing r with
  | nil => exact hr
  | cons c calls ih => exact ih (hr.after c)

theorem Closed.keyedAfter_eq (hr : r.Closed) (c : RegistryCall) (hc : (c.after r).fits) :
    c.keyedAfter r.keyed = (c.after r).keyed := by
  cases c with
  | dispose => rfl
  | type c =>
    rw [RegistryCall.keyedAfter, c.inStep.run r hr hc, RegistryCall.after, TypeRequest.after]
    cases c.request r <;> rfl

theorem Closed.keyed_afterAll (hr : r.Closed) {calls : List RegistryCall}
    (h : ∀ cs, cs <+: calls → (r.afterAll cs).fits) :
    r.keyed.afterAll calls = (r.afterAll calls).keyed := by
  induction calls generalizing r with
  | nil => rfl
  | cons c calls ih =>
    have hfits : (c.after r).fits := h [c] (List.prefix_append [c] calls)
    rw [KeyedRegistry.afterAll, List.foldl_cons, hr.keyedAfter_eq c hfits]
    exact ih (hr.after c) fun cs hcs => h (c :: cs) (List.cons_prefix_cons.2 ⟨rfl, hcs⟩)

theorem lookupNamed_keyed (hr : r.fits) (hd : r.disposed → r.arena = []) (name : String) :
    r.keyed.lookupNamed name = r.lookupNamed name := by
  rw [KeyedRegistry.lookupNamed, types_keyed, lookup_named, lookupNamed]
  cases hl : r.disposed with
  | true => simp [hd hl]
  | false =>
    cases hfind : r.arena.findIdx? (hasName name) with
    | none => rfl
    | some position =>
      simp only [Option.map_some, handle_keyed hr (List.findIdx?_eq_some_iff_getElem.1 hfind).1]
      rfl

theorem namedStructs_keyed (hr : r.fits) (hd : r.disposed → r.arena = []) :
    r.keyed.namedStructs = r.namedStructs := by
  rw [KeyedRegistry.namedStructs, types_keyed, map_namedOrder hr]
  cases hl : r.disposed with
  | true => simp [namedStructs, hd hl]
  | false => rfl

/-- As long as its types fit, a registry with tables goes through the same calls as one without: the
tables are those of the arena, what is looked up is the same, and so is every answer. -/
theorem keyed_inStep {context maxBits : Nat} {calls : List RegistryCall}
    (hr : (empty context maxBits).afterAll calls = r)
    (h : ∀ cs, cs <+: calls → ((empty context maxBits).afterAll cs).fits) :
    (KeyedRegistry.empty context maxBits).afterAll calls = r.keyed ∧
      (∀ name, r.keyed.lookupNamed name = r.lookupNamed name) ∧
      r.keyed.namedStructs = r.namedStructs ∧
      ∀ c : TypeCall, (after c.request r).fits → c.keyed r.keyed = withTables (c.request r) := by
  have hkeyed := (closed_empty context maxBits).keyed_afterAll h
  have hfits := h calls (List.prefix_refl calls)
  have hgone : ((empty context maxBits).afterAll calls).disposed →
      ((empty context maxBits).afterAll calls).arena = [] := arena_afterAll nofun
  have hclosed := (closed_empty context maxBits).afterAll calls
  rw [hr] at hkeyed hfits hgone hclosed
  exact ⟨hkeyed, lookupNamed_keyed hfits hgone, namedStructs_keyed hfits hgone,
    fun c hc => c.inStep.run r hclosed hc⟩

end TypeRegistry

end TypedIR
