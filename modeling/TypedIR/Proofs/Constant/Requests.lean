import TypedIR.Proofs.Checks
import TypedIR.Proofs.Operation.Basic

namespace TypedIR

def TypeDesc.elementTypes? : TypeDesc → Option (List TypeRef)
  | array elem count | vector elem count => some (List.replicate count.toNat elem)
  | struct fields _ | named _ (some (fields, _)) => some fields
  | _ => none

/-- What a call asks to be held by a constant of a type, and what the type and the elements are then. -/
inductive ConstantCall.Pays (p : ConstantPool) (types : TypeRegistry) (d : TypeDesc) :
    ConstantCall → Payload → Prop
  | signed {n : Int64} {width : Nat} (hd : d = .int width) :
    Pays p types d (.signed n)
      (.int (n.toInt % Nat.pow 2 (min width 64)).toNat (64 < width && n.toInt < 0))
  | unsigned {n : UInt64} {width : Nat} (hd : d = .int width)
    (hr : width < 64 → n.toNat < Nat.pow 2 width) : Pays p types d (.unsigned n) (.int n.toNat false)
  | float {bits : UInt64} (hd : d.isFloat) : Pays p types d (.float bits) (.float bits)
  | null (hd : d.isPointer) : Pays p types d .null .null
  | zero (hd : d.isSized) : Pays p types d .zero (ConstantPool.zeroPayload d)
  | undefined (hd : d.isSized) : Pays p types d .undefined .undefined
  | aggregate {es : List Value} (hd : d.elementTypes? = some (es.map (·.type)))
    (hes : ∀ e ∈ es, (p.lookup types.context e).isSome) :
    Pays p types d (.aggregate es) (.aggregate (es.map (·.id)))

namespace ConstantPool

variable {p : ConstantPool} {types : TypeRegistry} {t : TypeRef} {d : TypeDesc} {l : Layout}
  {payload : Payload}

theorem typeOf_eq_ok_iff : typeOf types t = .ok d ↔ types.disposed = false ∧ types.lookup t = some d := by
  rw [typeOf]
  cases hd : types.disposed with
  | true => simp
  | false => cases hl : types.lookup t <;> simp

theorem elementTypes_of_layout (h : layout types t d = .ok l) :
    ∃ ts, d.elementTypes? = some ts ∧ l.count = ts.length ∧ ∀ i u, ts[i]? = some u → l.elemAt i = u := by
  cases d with
  | array elem count | vector elem count =>
    obtain rfl := Except.ok.inj h
    refine ⟨_, rfl, by simp, fun i u hu => ?_⟩
    exact (List.eq_of_mem_replicate (List.mem_of_getElem? hu)).symm
  | struct fields packed =>
    obtain rfl := Except.ok.inj h
    exact ⟨fields, rfl, rfl, fun i u hu => by simp [hu]⟩
  | named name body =>
    cases body with
    | none => simp [layout] at h
    | some body =>
      obtain ⟨fields, packed⟩ := body
      obtain rfl := Except.ok.inj h
      exact ⟨fields, rfl, rfl, fun i u hu => by simp [hu]⟩
  | _ => simp [layout] at h

theorem of_elementId {position id : Nat} {v : Value} (h : elementId p types l position v = .ok id) :
    id = v.id ∧ (p.lookup types.context v).isSome ∧ v.type = l.elemAt position := by
  simp only [elementId, ite_eq_ok_iff, seq_eq_ok_iff, throw_ne_ok, pure_eq_ok_iff, false_and, and_false,
    false_or, Classical.not_not] at h
  obtain ⟨hk, ht, rfl⟩ := h
  exact ⟨rfl, by simpa [Option.isSome_iff_ne_none] using hk, ht⟩

theorem of_elementIds {position : Nat} {vs : List Value} {ids : List Nat}
    (h : elementIds p types l position vs = .ok ids) : ids = vs.map (·.id) ∧
      ∀ i v, vs[i]? = some v → (p.lookup types.context v).isSome ∧ v.type = l.elemAt (position + i) := by
  induction vs generalizing position ids with
  | nil =>
    obtain rfl := Except.ok.inj h
    exact ⟨rfl, by simp⟩
  | cons v vs ih =>
    simp only [elementIds, bind_eq_ok_iff, pure_eq_ok_iff] at h
    obtain ⟨id, hid, rest, hrest, rfl⟩ := h
    obtain ⟨rfl, hv⟩ := of_elementId hid
    obtain ⟨rfl, hvs⟩ := ih hrest
    refine ⟨rfl, fun i u hu => ?_⟩
    cases i with
    | zero =>
      obtain rfl := Option.some.inj hu
      exact hv
    | succ i =>
      have := hvs i u (by simpa using hu)
      rwa [Nat.add_assoc, Nat.add_comm 1] at this

theorem of_typeOf_bind {f : TypeDesc → Except ConstantError Payload}
    (h : (typeOf types t >>= f) = .ok payload) :
    types.disposed = false ∧ ∃ d, types.lookup t = some d ∧ f d = .ok payload := by
  obtain ⟨d, hd, h⟩ := bind_eq_ok_iff.1 h
  obtain ⟨hl, hd⟩ := typeOf_eq_ok_iff.1 hd
  exact ⟨hl, d, hd, h⟩

theorem of_ite_throw {c : Prop} [Decidable c] {e : ConstantError} {x : Payload}
    (h : (if c then throw e else pure x : Except ConstantError _) = .ok payload) :
    ¬ c ∧ payload = x := by
  rcases ite_eq_ok_iff.1 h with ⟨-, h⟩ | ⟨hc, h⟩
  · exact absurd h throw_ne_ok
  · exact ⟨hc, (pure_eq_ok_iff.1 h).symm⟩

theorem of_payload {call : ConstantCall} (h : call.payload p types t = .ok payload) :
    types.disposed = false ∧ ∃ d, types.lookup t = some d ∧ call.Pays p types d payload := by
  cases call with
  | signed n =>
    obtain ⟨hl, d, hd, h⟩ := of_typeOf_bind h
    cases d with
    | int width =>
      obtain ⟨-, rfl⟩ := of_ite_throw h
      exact ⟨hl, _, hd, .signed rfl⟩
    | _ => exact absurd h throw_ne_ok
  | unsigned n =>
    obtain ⟨hl, d, hd, h⟩ := of_typeOf_bind h
    cases d with
    | int width =>
      obtain ⟨hr, rfl⟩ := of_ite_throw h
      exact ⟨hl, _, hd, .unsigned rfl fun hw => by omega⟩
    | _ => exact absurd h throw_ne_ok
  | float bits =>
    obtain ⟨hl, d, hd, h⟩ := of_typeOf_bind h
    cases d with
    | float kind =>
      obtain ⟨-, rfl⟩ := of_ite_throw h
      exact ⟨hl, _, hd, .float rfl⟩
    | _ => exact absurd h throw_ne_ok
  | null =>
    obtain ⟨hl, d, hd, h⟩ := of_typeOf_bind h
    cases d with
    | pointer space =>
      obtain rfl := pure_eq_ok_iff.1 h
      exact ⟨hl, _, hd, .null rfl⟩
    | _ => exact absurd h throw_ne_ok
  | zero =>
    obtain ⟨hl, d, hd, h⟩ := of_typeOf_bind h
    cases hs : d.isSized with
    | true =>
      simp only [hs, if_true] at h
      obtain rfl := pure_eq_ok_iff.1 h
      exact ⟨hl, _, hd, .zero hs⟩
    | false =>
      rw [hs] at h
      exact nomatch h
  | undefined =>
    obtain ⟨hl, d, hd, h⟩ := of_typeOf_bind h
    cases hs : d.isSized with
    | true =>
      simp only [hs, if_true] at h
      obtain rfl := pure_eq_ok_iff.1 h
      exact ⟨hl, _, hd, .undefined hs⟩
    | false =>
      rw [hs] at h
      exact nomatch h
  | aggregate es =>
    obtain ⟨hl, d, hd, h⟩ := of_typeOf_bind h
    obtain ⟨l, hlayout, h⟩ := bind_eq_ok_iff.1 h
    simp only [ite_eq_ok_iff, bind_eq_ok_iff, throw_ne_ok, pure_eq_ok_iff, false_and, exists_false,
      and_false, false_or, Classical.not_not] at h
    obtain ⟨hlen, ids, hids, rfl⟩ := h
    obtain ⟨ts, hts, hcount, helem⟩ := elementTypes_of_layout hlayout
    obtain ⟨rfl, hes⟩ := of_elementIds hids
    have htypes : es.map (·.type) = ts := by
      refine List.ext_getElem (by rw [List.length_map, hlen, hcount]) fun i hi hi' => ?_
      have hi : i < es.length := by simpa using hi
      rw [List.getElem_map, (hes i es[i] (List.getElem?_eq_getElem hi)).2, Nat.zero_add]
      exact helem i ts[i] (List.getElem?_eq_getElem hi')
    refine ⟨hl, _, hd, .aggregate (hts.trans (congrArg some htypes.symm)) fun e he => ?_⟩
    obtain ⟨i, hi⟩ := List.mem_iff_getElem?.1 he
    exact (hes i e hi).1

theorem of_request {call : ConstantCall} {x : Value × ConstantPool}
    (h : call.request p types t = .ok x) :
    types.disposed = false ∧ ∃ d payload, types.lookup t = some d ∧ call.Pays p types d payload ∧
      x = p.make types t payload := by
  obtain ⟨payload, hp, h⟩ := bind_eq_ok_iff.1 h
  obtain ⟨hl, d, hd, hp⟩ := of_payload hp
  exact ⟨hl, d, payload, hd, hp, (pure_eq_ok_iff.1 h).symm⟩

end ConstantPool

end TypedIR
