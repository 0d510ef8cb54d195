import TypedIR.Proofs.Constant.Content

namespace TypedIR

variable {p p' : ConstantPool} {types : TypeRegistry} {t : TypeRef} {d : TypeDesc} {payload : Payload}
  {k k' : Constant} {i j depth id : Nat} {call : ConstantCall} {c c' : Context} {u v : Value}
  {x : Content}

theorem ConstantCall.Pays.content (h : call.Pays p types d payload) (hd : types.lookup t = some d)
    (hg : p.Grows p') : p'.content types ⟨t, payload⟩ = call.content d := by
  cases h with
  | signed he => simp only [ConstantPool.content, hd, he, Option.map_some, Option.getD_some,
      TypeDesc.width, ConstantCall.content, wordPattern_signed]
  | @unsigned n width he hr =>
    have hn : n.toNat < 2 ^ width := by
      by_cases hw : width < 64
      · exact hr hw
      · exact Nat.lt_of_lt_of_le n.toNat_lt (Nat.pow_le_pow_right (by decide) (by omega))
    simp [ConstantPool.content, he, TypeDesc.width, ConstantCall.content, wordPattern,
      Nat.mod_eq_of_lt hn]
  | float | null | undefined => rfl
  | zero =>
    cases d with
    | int width => simp [ConstantPool.content, ConstantPool.zeroPayload, ConstantCall.content,
        wordPattern]
    | _ => rfl
  | @aggregate es he hes =>
    simp only [ConstantPool.content, ConstantCall.content, List.map_map]
    congr 1
    refine List.map_congr_left fun e he => ?_
    obtain ⟨k, hk⟩ := Option.isSome_iff_exists.1 (hes e he)
    exact ConstantPool.handle_of_lookup (hg _ _ k hk)

namespace ConstantPool.WellFormed

theorem eq_of_content_eq (h : p.WellFormed types) (hk : p.entries[i]? = some k)
    (hk' : p.entries[j]? = some k') (ht : k.type = k'.type)
    (hc : p.content types k = p.content types k') : i = j := by
  obtain ⟨d, hd, hf⟩ := h.fits i k hk
  obtain ⟨d', hd', hf'⟩ := h.fits j k' hk'
  obtain rfl : d = d' := Option.some.inj (hd.symm.trans (ht ▸ hd'))
  have he : k = k' := by
    obtain ⟨type, payload⟩ := k
    obtain ⟨type', payload'⟩ := k'
    obtain rfl : type = type' := ht
    congr 1
    cases hf with
    | int he hb =>
      cases hf' with
      | int he' hb' =>
        obtain rfl : _ = _ := TypeDesc.int.inj (he.symm.trans he')
        simp only [content, hd, he, Option.map_some, Option.getD_some, TypeDesc.width,
          Content.int.injEq] at hc
        obtain ⟨rfl, rfl⟩ := wordPattern_inj hb hb' hc
        rfl
      | _ => simp [content] at hc
    | float =>
      cases hf' with
      | float => exact congrArg Payload.float (Content.float.inj hc)
      | _ => simp [content] at hc
    | aggregate he hids =>
      cases hf' with
      | aggregate he' hids' =>
        have hids := (List.map_inj_right fun a b hab => congrArg Value.id hab).1
          (Content.aggregate.inj hc)
        exact congrArg Payload.aggregate hids
      | _ => simp [content] at hc
    | null => cases hf' <;> first | rfl | simp [content] at hc
    | zero => cases hf' <;> first | rfl | simp [content] at hc
    | undefined => cases hf' <;> first | rfl | simp [content] at hc
  exact (List.getElem?_inj (List.getElem?_eq_some_iff.1 hk).1 h.nodup).1 (by rw [hk, hk', he])

theorem literalWithin_eq (h : p.WellFormed types) (hid : 0 < id) (hle : id ≤ depth) :
    p.literalWithin types depth id = p.literalWithin types id id := by
  induction id using Nat.strongRecOn generalizing depth with
  | _ id ih =>
    obtain ⟨n, rfl⟩ : ∃ n, id = n + 1 := ⟨id - 1, by omega⟩
    obtain ⟨m, rfl⟩ : ∃ m, depth = m + 1 := ⟨depth - 1, by omega⟩
    simp only [literalWithin, Nat.add_sub_cancel]
    cases hk : p.entries[n]? with
    | none => rfl
    | some k =>
      obtain ⟨d, hd, hf⟩ := h.fits n k hk
      obtain ⟨type, payload⟩ := k
      cases hf with
      | @aggregate ids he hids =>
        -- Elements have smaller numbers, so the depth never runs out.
        have hlit : ∀ e ∈ ids, p.literalWithin types m e = p.literalWithin types n e := by
          intro e hmem
          obtain ⟨hpos, hle'⟩ := hids e hmem
          rw [ih e (by omega) hpos (by omega), ih e (by omega) hpos hle']
        dsimp only
        rw [List.map_congr_left fun e hmem => by rw [hlit e hmem]]
      | _ => rfl

end ConstantPool.WellFormed

namespace Context

theorem content?_eq_some_iff : c.content? v = some x ↔
    ∃ k, c.lookupConstant v = some k ∧ c.constants.content c.types k = x :=
  Option.map_eq_some_iff

theorem content?_of_request {constants : ConstantPool}
    (h : call.request c.constants c.types t = .ok (v, constants)) (hd : c.types.lookup t = some d) :
    v.type = t ∧ Context.content? { c with constants } v = some (call.content d) := by
  obtain ⟨-, d', payload, hd', hp, he⟩ := ConstantPool.of_request h
  obtain rfl : d = d' := Option.some.inj (hd.symm.trans hd')
  obtain ⟨i, hv, hi, -⟩ := ConstantPool.of_make he
  obtain rfl : v = .const t (i + 1) c.types.context := hv
  refine ⟨rfl, content?_eq_some_iff.2 ⟨⟨t, payload⟩, ConstantPool.lookup_const hi, ?_⟩⟩
  exact hp.content hd (ConstantPool.grows_of_request call h)

theorem eq_iff_content?_eq (h : c.constants.WellFormed c.types) (hu : u.isFunction = false)
    (hv : v.isFunction = false) (hku : (c.lookupConstant u).isSome) (hkv : (c.lookupConstant v).isSome) :
    u = v ↔ u.type = v.type ∧ c.content? u = c.content? v := by
  refine ⟨fun he => he ▸ ⟨rfl, rfl⟩, fun ⟨ht, hc⟩ => ?_⟩
  obtain ⟨k, hku⟩ := Option.isSome_iff_exists.1 hku
  obtain ⟨k', hkv⟩ := Option.isSome_iff_exists.1 hkv
  have hcontent : c.constants.content c.types k = c.constants.content c.types k' := by
    simpa [content?, hku, hkv] using hc
  obtain ⟨hkind, hscope, hpos, hk, htype⟩ := ConstantPool.lookup_eq_some_iff.1 hku
  obtain ⟨hkind', hscope', hpos', hk', htype'⟩ := ConstantPool.lookup_eq_some_iff.1 hkv
  have hid := h.eq_of_content_eq hk hk' (by rw [htype, htype', ht]) hcontent
  obtain ⟨kind, type, id, scope, isFunction⟩ := u
  obtain ⟨kind', type', id', scope', isFunction'⟩ := v
  simp_all
  omega

theorem Grows.content? (hg : c.Grows c') (h : c.constants.WellFormed c.types)
    (hx : c.content? v = some x) : c'.content? v = some x := by
  obtain ⟨k, hk, rfl⟩ := content?_eq_some_iff.1 hx
  refine content?_eq_some_iff.2 ⟨k, hg.lookupConstant hk, ?_⟩
  obtain ⟨-, -, -, hentry, -⟩ := ConstantPool.lookup_eq_some_iff.1 hk
  obtain ⟨d, hd, hf⟩ := h.fits _ k hentry
  obtain ⟨type, payload⟩ := k
  cases hf with
  | int he hb =>
    have hd' := hg.types.lookup_of_not_isNamed hd (by rw [he]; rfl)
    simp only [ConstantPool.content, hd, hd']
  | aggregate he hids =>
    simp only [ConstantPool.content, hg.types.context, Content.aggregate.injEq]
    refine List.map_congr_left fun id hid => hg.constants.handle (hids id hid).1 ?_
    exact Nat.le_trans (hids id hid).2 (Nat.le_of_lt (List.getElem?_eq_some_iff.1 hentry).1)
  | _ => rfl

theorem lt_of_content?_eq_int {pattern : Nat} (h : c.constants.WellFormed c.types)
    (hx : c.content? v = some (.int pattern)) :
    ∃ width, c.types.lookup v.type = some (.int width) ∧ pattern < 2 ^ width := by
  obtain ⟨k, hk, hc⟩ := content?_eq_some_iff.1 hx
  obtain ⟨-, -, -, hentry, ht⟩ := ConstantPool.lookup_eq_some_iff.1 hk
  obtain ⟨d, hd, hf⟩ := h.fits _ k hentry
  obtain ⟨type, payload⟩ := k
  cases hf with
  | @int width bits negative he hb =>
    refine ⟨width, by rw [← ht, hd, he], ?_⟩
    simp only [ConstantPool.content, hd, he, Option.map_some, Option.getD_some, TypeDesc.width,
      Content.int.injEq] at hc
    exact hc ▸ hb.pattern_lt
  | _ => simp [ConstantPool.content] at hc

theorem of_content?_eq_aggregate {es : List Value} (h : c.constants.WellFormed c.types)
    (hx : c.content? v = some (.aggregate es)) :
    (∃ d, c.types.lookup v.type = some d ∧ d.elementTypes? = some (es.map (·.type))) ∧
      ∀ e ∈ es, e.isFunction = false ∧ (c.lookupConstant e).isSome ∧ e.id < v.id := by
  obtain ⟨k, hk, hc⟩ := content?_eq_some_iff.1 hx
  obtain ⟨-, -, hpos, hentry, ht⟩ := ConstantPool.lookup_eq_some_iff.1 hk
  obtain ⟨d, hd, hf⟩ := h.fits _ k hentry
  obtain ⟨type, payload⟩ := k
  cases hf with
  | @aggregate ids he hids =>
    obtain rfl : ids.map (c.constants.handle c.types.context) = es := Content.aggregate.inj hc
    refine ⟨⟨d, ht ▸ hd, by rw [he, List.map_map]; rfl⟩, fun e hmem => ?_⟩
    obtain ⟨id, hid, rfl⟩ := List.mem_map.1 hmem
    obtain ⟨hidpos, hle⟩ := hids id hid
    have hlt := (List.getElem?_eq_some_iff.1 hentry).1
    refine ⟨rfl, ConstantPool.isSome_lookup_handle hidpos ?_, ?_⟩
    · exact Nat.le_trans hle (Nat.le_of_lt hlt)
    · exact Nat.lt_of_le_of_lt hle (Nat.sub_lt hpos Nat.one_pos)
  | _ => simp [ConstantPool.content] at hc

end Context

end TypedIR
