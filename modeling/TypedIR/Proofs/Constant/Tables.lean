import TypedIR.Proofs.Constant.Key
import TypedIR.Proofs.Registry.Tables

/-! A pool that finds its constants in a table, by their keys. The table holds numbers in 32 bits. Whatever
is asked, it is in step with the entries, and the answers are those of the pool without a table. -/

namespace TypedIR

structure KeyedPool where
  pool : ConstantPool := {}
  interned : List (String × UInt32) := []

def KeyedPool.intern (k : KeyedPool) (context : Nat) (c : Constant) : Value × KeyedPool :=
  match k.interned.lookup c.key with
  | some number => (.const c.type number.toNat context, k)
  | none =>
    let pool : ConstantPool := ⟨k.pool.entries ++ [c]⟩
    let number := UInt32.ofNat pool.size
    (.const c.type number.toNat context, ⟨pool, k.interned ++ [(c.key, number)]⟩)

def ConstantCall.keyed (call : ConstantCall) (k : KeyedPool) (types : TypeRegistry) (t : TypeRef) :
    Except ConstantError (Value × KeyedPool) := do
  return k.intern types.context ⟨t, ← call.payload k.pool types t⟩

/-- What can be asked of a pool, and meanwhile of the registry that its types come from. -/
inductive PoolCall
  | type (call : TypeCall)
  | constant (t : TypeRef) (call : ConstantCall)

namespace PoolCall

def after : PoolCall → TypeRegistry × ConstantPool → TypeRegistry × ConstantPool
  | type call, (types, p) => ((RegistryCall.type call).after types, p)
  | constant t call, (types, p) => match call.request p types t with
    | .ok (_, p') => (types, p')
    | .error _ => (types, p)

def keyedAfter : PoolCall → KeyedRegistry × KeyedPool → KeyedRegistry × KeyedPool
  | type call, (types, k) => ((RegistryCall.type call).keyedAfter types, k)
  | constant t call, (types, k) => match call.keyed k types.types t with
    | .ok (_, k') => (types, k')
    | .error _ => (types, k)

def afterAll (s : TypeRegistry × ConstantPool) (calls : List PoolCall) : TypeRegistry × ConstantPool :=
  calls.foldl (fun s c => c.after s) s

def keyedAfterAll (s : KeyedRegistry × KeyedPool) (calls : List PoolCall) : KeyedRegistry × KeyedPool :=
  calls.foldl (fun s c => c.keyedAfter s) s

end PoolCall

namespace ConstantPool

variable {p : ConstantPool} {types : TypeRegistry} {t : TypeRef}

def keyed (p : ConstantPool) : KeyedPool := ⟨p, placesOf (fun c => some c.key) p.entries⟩

@[simp] theorem pool_keyed (p : ConstantPool) : p.keyed.pool = p := rfl

theorem toNat_ofNat_of_fits {number : Nat} (hp : p.fits) (hn : number ≤ p.size) :
    (UInt32.ofNat number).toNat = number := by
  rw [fits, decide_eq_true_iff] at hp
  rw [UInt32.toNat_ofNat', Nat.mod_eq_of_lt (by omega)]

theorem WellFormed.keyed_intern (h : p.WellFormed types) {c : Constant} (hc : types.owns c.type)
    (hp : (p.intern types.context c).2.fits) : p.keyed.intern types.context c =
      ((p.intern types.context c).1, (p.intern types.context c).2.keyed) := by
  have hlookup : p.keyed.interned.lookup c.key = _ :=
    lookup_placesOf (f := fun c => some (Constant.key c)) c.key
  simp only [Option.some.injEq] at hlookup
  rw [← h.internByKey_eq hc] at hp ⊢
  rw [KeyedPool.intern, hlookup]
  rw [internByKey] at hp ⊢
  cases hfind : p.entries.findIdx? fun e => e.key = c.key with
  | some position =>
    rw [hfind] at hp
    have hlt := (List.findIdx?_eq_some_iff_getElem.1 hfind).1
    simp only [Option.map_some, toNat_ofNat_of_fits hp hlt]
  | none =>
    rw [hfind] at hp
    have hsize : (⟨p.entries ++ [c]⟩ : ConstantPool).size = p.size + 1 := by simp [size]
    have hnumber := toNat_ofNat_of_fits hp (Nat.le_of_eq hsize.symm)
    dsimp only [Option.map_none, pool_keyed]
    rw [hsize, hnumber]
    simp [keyed, placesOf_concat, size]

variable {call : ConstantCall}

theorem WellFormed.keyed_request (h : p.WellFormed types)
    (hp : ∀ x, call.request p types t = .ok x → x.2.fits) :
    call.keyed p.keyed types t = (fun x => (x.1, x.2.keyed)) <$> call.request p types t := by
  cases hc : call.payload p types t with
  | error e =>
    rw [ConstantCall.keyed, ConstantCall.request, keyed, hc]
    rfl
  | ok payload =>
    have hrequest : call.request p types t = .ok (p.make types t payload) := by
      rw [ConstantCall.request, hc]
      rfl
    obtain ⟨-, d, hd, -⟩ := of_payload hc
    have hintern := h.keyed_intern (c := ⟨t, payload⟩) (TypeRegistry.owns_iff.2 ⟨d, hd⟩) (hp _ hrequest)
    have hkeyed : call.payload p.keyed.pool types t = .ok payload := hc
    rw [hrequest, ConstantCall.keyed, hkeyed]
    exact congrArg Except.ok hintern

end ConstantPool

namespace PoolCall

variable {types : TypeRegistry} {p : ConstantPool} {s : TypeRegistry × ConstantPool}

theorem wellFormed_after (c : PoolCall) (h : s.2.WellFormed s.1) : (c.after s).2.WellFormed (c.after s).1 := by
  cases c with
  | type call => exact h.mono (call.inStep.keeps.grows s.1)
  | constant t call =>
    rw [after]
    cases hr : call.request s.2 s.1 t with
    | error e => exact h
    | ok x =>
      obtain ⟨-, d, payload, hd, hp, rfl⟩ := ConstantPool.of_request hr
      exact h.make hd hp

theorem wellFormed_afterAll (calls : List PoolCall) (h : s.2.WellFormed s.1) :
    (afterAll s calls).2.WellFormed (afterAll s calls).1 := by
  induction calls generalizing s with
  | nil => exact h
  | cons c calls ih => exact ih (c.wellFormed_after h)

theorem closed_after (c : PoolCall) (h : s.1.Closed) : (c.after s).1.Closed := by
  cases c with
  | type call => exact h.after (.type call)
  | constant t call =>
    rw [after]
    cases call.request s.2 s.1 t <;> exact h

theorem keyedAfter_eq (c : PoolCall) (hc : s.1.Closed) (h : s.2.WellFormed s.1)
    (ht : (c.after s).1.fits) (hp : (c.after s).2.fits) :
    c.keyedAfter (s.1.keyed, s.2.keyed) = ((c.after s).1.keyed, (c.after s).2.keyed) := by
  cases c with
  | type call => exact congrArg (·, s.2.keyed) (hc.keyedAfter_eq (.type call) ht)
  | constant t call =>
    rw [after] at hp ⊢
    have hrequest : call.keyed s.2.keyed s.1 t = _ := h.keyed_request fun x hx => by
      rw [hx] at hp
      exact hp
    rw [keyedAfter, TypeRegistry.types_keyed, hrequest]
    cases call.request s.2 s.1 t <;> rfl

theorem keyedAfterAll_eq (calls : List PoolCall) (hc : s.1.Closed) (h : s.2.WellFormed s.1)
    (hfits : ∀ cs, cs <+: calls → (afterAll s cs).1.fits ∧ (afterAll s cs).2.fits) :
    keyedAfterAll (s.1.keyed, s.2.keyed) calls =
      ((afterAll s calls).1.keyed, (afterAll s calls).2.keyed) := by
  induction calls generalizing s with
  | nil => rfl
  | cons c calls ih =>
    obtain ⟨ht, hp⟩ := hfits [c] (List.prefix_append [c] calls)
    have hstep : c.keyedAfter (s.1.keyed, s.2.keyed) = _ := c.keyedAfter_eq hc h ht hp
    rw [keyedAfterAll, List.foldl_cons, hstep]
    exact ih (c.closed_after hc) (c.wellFormed_after h) fun cs hcs =>
      hfits (c :: cs) (List.cons_prefix_cons.2 ⟨rfl, hcs⟩)

end PoolCall

/-- As long as types and constants fit, a registry and a pool with tables go through the same calls as
those without: the tables are those of the arena and of the entries, and every answer is the same. -/
theorem ConstantPool.keyed_inStep {context maxBits : Nat} {calls : List PoolCall} {types : TypeRegistry}
    {p : ConstantPool} (hs : PoolCall.afterAll (.empty context maxBits, {}) calls = (types, p))
    (h : ∀ cs, cs <+: calls → (PoolCall.afterAll (.empty context maxBits, {}) cs).1.fits ∧
      (PoolCall.afterAll (.empty context maxBits, {}) cs).2.fits) :
    PoolCall.keyedAfterAll (.empty context maxBits, {}) calls = (types.keyed, p.keyed) ∧
      ∀ (t : TypeRef) (call : ConstantCall), (∀ x, call.request p types t = .ok x → x.2.fits) →
        call.keyed p.keyed types t = (fun x => (x.1, x.2.keyed)) <$> call.request p types t := by
  have hempty : ConstantPool.WellFormed {} (.empty context maxBits) := ⟨.nil, fun i k hk => by simp at hk⟩
  have hkeyed := PoolCall.keyedAfterAll_eq calls (TypeRegistry.closed_empty context maxBits) hempty h
  have hp := PoolCall.wellFormed_afterAll calls (s := (.empty context maxBits, {})) hempty
  rw [hs] at hkeyed hp
  exact ⟨hkeyed, fun t call hcall => hp.keyed_request hcall⟩

end TypedIR
