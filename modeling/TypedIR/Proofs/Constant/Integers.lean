import Mathlib
import TypedIR.Proofs.Constant.Minting
import TypedIR.Proofs.Registry.Interning

namespace TypedIR

/-- The number that a literal of the given width reads as. A single bit is a truth value. -/
def readInteger (width : Nat) (literal : String) : Option Int :=
  if width = 1 then
    if literal = "true" then some 1 else if literal = "false" then some 0 else none
  else literal.toInt?

def ConstantCall.integer? : ConstantCall → Option Int
  | signed n => some n.toInt
  | unsigned n => some n.toNat
  | _ => none

section Literals

variable {width bits : Nat} {negative : Bool}

theorem toInt?_toString_int (n : Int) : (toString n).toInt? = some n := Int.toInt?_repr n

theorem toInt?_toString_nat (n : Nat) : (toString n).toInt? = some (n : Int) :=
  String.toInt?_eq_some_of_toNat?_eq_some (Nat.toNat?_repr n)

theorem signedValue_modEq (width pattern : Nat) :
    ConstantPool.signedValue width pattern ≡ pattern [ZMOD 2 ^ width] := by
  rw [ConstantPool.signedValue]
  split
  · rfl
  · simp [Int.ModEq]

theorem readInteger_bit (h : IsWord 1 bits negative) :
    readInteger 1 (ConstantPool.intText 1 bits negative) = some (wordPattern 1 bits negative : Int) := by
  have hlt : bits < 2 := h.lt
  have hneg : negative = false := by
    cases negative with
    | false => rfl
    | true => exact absurd (h.wide rfl).1 (by decide)
  subst hneg
  obtain rfl | rfl : bits = 0 ∨ bits = 1 := by omega
  · rfl
  · rfl

theorem exists_readInteger_intText (h : IsWord width bits negative) :
    ∃ k, readInteger width (ConstantPool.intText width bits negative) = some k ∧
      k ≡ (wordPattern width bits negative : Int) [ZMOD 2 ^ width] := by
  by_cases hone : width = 1
  · subst hone
    exact ⟨_, readInteger_bit h, rfl⟩
  simp only [readInteger, ConstantPool.intText, if_neg hone]
  by_cases hlow : width < 64
  · have hneg : negative = false := by
      cases negative with
      | false => rfl
      | true => exact absurd (h.wide rfl).1 (by omega)
    simp only [if_pos hlow, toInt?_toString_int, hneg, wordPattern, Bool.false_eq_true, if_false]
    exact ⟨_, rfl, signedValue_modEq width bits⟩
  · rw [if_neg hlow]
    cases negative with
    | true =>
      -- The low word starts with a one, and ones go on above it.
      obtain ⟨hw, hbits⟩ := h.wide rfl
      have hpow : 2 ^ 64 ≤ 2 ^ width := Nat.pow_le_pow_right (by decide) (by omega)
      have hvalue : ConstantPool.signedValue 64 bits = (bits : Int) - 2 ^ 64 := by
        rw [ConstantPool.signedValue, if_neg (by simpa using hbits)]
        simp
      rw [if_pos (.inr rfl), toInt?_toString_int, hvalue]
      refine ⟨_, rfl, ?_⟩
      have hcast : ((2 ^ width : Nat) : Int) = 2 ^ width := by push_cast; rfl
      have hpattern : (wordPattern width bits true : Int) = bits - 2 ^ 64 + 2 ^ width := by
        simp only [wordPattern, if_true]
        omega
      rw [hpattern]
      exact (Int.add_emod_right _ _).symm
    | false =>
      simp only [wordPattern, Bool.false_eq_true, if_false, or_false]
      by_cases hword : width = 64
      · subst hword
        rw [if_pos rfl, toInt?_toString_int]
        exact ⟨_, rfl, signedValue_modEq 64 bits⟩
      · rw [if_neg hword, toInt?_toString_nat]
        exact ⟨_, rfl, rfl⟩

theorem readInteger_eq_none {s : String} {c : Char} (hc : s.toList.head? = some c)
    (hdigit : c.isDigit = false) (hgroup : c ≠ '_') (hsign : c ≠ '-') (htrue : s ≠ "true")
    (hfalse : s ≠ "false") (width : Nat) : readInteger width s = none := by
  rw [readInteger, if_neg htrue, if_neg hfalse]
  have hint : s.isInt = false := by
    rw [← Bool.not_eq_true, String.isInt_iff]
    rintro (h | ⟨t, rfl, -⟩)
    · rcases (String.isNat_iff.1 h).2.1 c (List.mem_of_head? hc) with hd | hg
      · simp [hd] at hdigit
      · exact hgroup hg
    · exact hsign (by simpa using hc.symm)
  rw [String.toInt?_eq_none_iff.2 hint, ite_self]

theorem readInteger_zero (width : Nat) : readInteger width "zeroinitializer" = none :=
  readInteger_eq_none rfl (by decide) (by decide) (by decide) (by decide) (by decide) width

theorem readInteger_undefined (width : Nat) : readInteger width "undef" = none :=
  readInteger_eq_none rfl (by decide) (by decide) (by decide) (by decide) (by decide) width

end Literals

namespace ConstantPool

variable {p : ConstantPool} {types : TypeRegistry} {t : TypeRef} {width : Nat}

theorem exists_eq_ok_iff {c : Prop} [Decidable c] {e : ConstantError} {x : Payload} :
    (∃ y, (if c then throw e else pure x : Except ConstantError _) = .ok y) ↔ ¬ c := by
  by_cases h : c <;> simp [h]

theorem exists_request_iff {call : ConstantCall} :
    (∃ x, call.request p types t = .ok x) ↔ ∃ payload, call.payload p types t = .ok payload := by
  rw [ConstantCall.request]
  cases call.payload p types t with
  | error e => exact iff_of_false (fun ⟨_, h⟩ => nomatch h) fun ⟨_, h⟩ => nomatch h
  | ok payload => exact iff_of_true ⟨_, rfl⟩ ⟨_, rfl⟩

theorem exists_signed_iff (hl : types.disposed = false) (ht : types.lookup t = some (.int width))
    (n : Int64) : (∃ x, (ConstantCall.signed n).request p types t = .ok x) ↔
      -2 ^ (width - 1) ≤ n.toInt ∧ n.toInt ≤ 2 ^ width - 1 := by
  have htype : typeOf types t = .ok (.int width) := typeOf_eq_ok_iff.2 ⟨hl, ht⟩
  have hsigned : (∃ x, signed types t n = .ok x) ↔ ¬ (width < 64 ∧
      ¬ (-(Nat.pow 2 (width - 1) : Int) ≤ n.toInt ∧ n.toInt < Nat.pow 2 width)) := by
    rw [signed, htype]
    exact exists_eq_ok_iff
  rw [exists_request_iff, ConstantCall.payload, hsigned]
  simp only [Nat.pow_eq, Int.natCast_pow, Int.cast_ofNat_Int]
  by_cases hw : width < 64
  · omega
  · have hmin := Int64.le_toInt n
    have hmax := Int64.toInt_lt n
    have hlow : (2 : Int) ^ 63 ≤ 2 ^ (width - 1) := pow_le_pow_right₀ (by decide) (by omega)
    have hhigh : (2 : Int) ^ 63 ≤ 2 ^ width := pow_le_pow_right₀ (by decide) (by omega)
    omega

theorem exists_unsigned_iff (hl : types.disposed = false) (ht : types.lookup t = some (.int width))
    (n : UInt64) : (∃ x, (ConstantCall.unsigned n).request p types t = .ok x) ↔ n.toNat ≤ 2 ^ width - 1 := by
  have htype : typeOf types t = .ok (.int width) := typeOf_eq_ok_iff.2 ⟨hl, ht⟩
  have hunsigned : (∃ x, unsigned types t n = .ok x) ↔
      ¬ (width < 64 ∧ Nat.pow 2 width ≤ n.toNat) := by
    rw [unsigned, htype]
    exact exists_eq_ok_iff
  rw [exists_request_iff, ConstantCall.payload, hunsigned, Nat.pow_eq]
  have hpos : 0 < 2 ^ width := Nat.two_pow_pos width
  by_cases hw : width < 64
  · omega
  · have hmax := n.toNat_lt
    have hhigh : 2 ^ 64 ≤ 2 ^ width := Nat.pow_le_pow_right (by decide) (by omega)
    omega

end ConstantPool

namespace Context

variable {c : Context} {u v : Value} {width pattern : Nat}

inductive Written (c : Context) (v : Value) (width : Nat) : Prop
  | number {bits : Nat} {negative : Bool} (hb : IsWord width bits negative)
    (hl : c.literal v = ConstantPool.intText width bits negative)
    (hx : c.content? v = some (.int (wordPattern width bits negative)))
  | zero (hl : c.literal v = "zeroinitializer") (hx : c.content? v = some .zero)
  | undefined (hl : c.literal v = "undef") (hx : c.content? v = some .undefined)

theorem written (h : c.constants.WellFormed c.types) (hv : (c.lookupConstant v).isSome)
    (ht : c.types.lookup v.type = some (.int width)) : c.Written v width := by
  obtain ⟨k, hk⟩ := Option.isSome_iff_exists.1 hv
  obtain ⟨-, -, hpos, hentry, htype⟩ := ConstantPool.lookup_eq_some_iff.1 hk
  obtain ⟨d, hd, hf⟩ := h.fits _ k hentry
  rw [htype, ht] at hd
  obtain rfl := Option.some.inj hd
  have hx : c.content? v = some (c.constants.content c.types k) := content?_eq_some_iff.2 ⟨k, hk, rfl⟩
  have hlit : c.literal v = c.constants.literalWithin c.types v.id v.id := by
    rw [lookupConstant, id] at hk
    rw [literal, ConstantPool.literal, hk]
  obtain ⟨i, hi⟩ : ∃ i, v.id = i + 1 := ⟨v.id - 1, by omega⟩
  rw [hi] at hlit hentry
  simp only [ConstantPool.literalWithin, hentry] at hlit
  obtain ⟨type, payload⟩ := k
  obtain rfl : type = v.type := htype
  cases hf with
  | int he hb =>
    obtain rfl := TypeDesc.int.inj he
    refine .number hb (by simpa [ht] using hlit) ?_
    simpa [ConstantPool.content, ht, TypeDesc.width] using hx
  | zero => exact .zero hlit hx
  | undefined => exact .undefined hlit hx
  | float he | null he => simp [TypeDesc.isFloat, TypeDesc.isPointer] at he
  | aggregate he => simp [TypeDesc.elementTypes?] at he

theorem Written.of_readInteger_eq_some {k : Int} (h : c.Written v width)
    (hk : readInteger width (c.literal v) = some k) : ∃ pattern, c.content? v = some (.int pattern) ∧
      k ≡ (pattern : Int) [ZMOD 2 ^ width] ∧ pattern < 2 ^ width := by
  cases h with
  | number hb hl hx =>
    obtain ⟨k', hk', hmod⟩ := exists_readInteger_intText hb
    obtain rfl : k' = k := Option.some.inj (by rw [← hk', ← hk, hl])
    exact ⟨_, hx, hmod, hb.pattern_lt⟩
  | zero hl => simp [hl, readInteger_zero] at hk
  | undefined hl => simp [hl, readInteger_undefined] at hk

theorem Written.of_readInteger_eq_none (h : c.Written v width)
    (hn : readInteger width (c.literal v) = none) :
    c.literal v = "zeroinitializer" ∧ c.content? v = some .zero ∨
      c.literal v = "undef" ∧ c.content? v = some .undefined := by
  cases h with
  | number hb hl =>
    obtain ⟨k, hk, -⟩ := exists_readInteger_intText hb
    simp [hl, hk] at hn
  | zero hl hx => exact .inl ⟨hl, hx⟩
  | undefined hl hx => exact .inr ⟨hl, hx⟩

theorem Written.exists_readInteger (h : c.Written v width) (hx : c.content? v = some (.int pattern)) :
    ∃ k, readInteger width (c.literal v) = some k ∧ k ≡ (pattern : Int) [ZMOD 2 ^ width] := by
  cases hk : readInteger width (c.literal v) with
  | some k =>
    obtain ⟨pattern', hx', hmod, -⟩ := h.of_readInteger_eq_some hk
    obtain rfl : pattern = pattern' := by simpa [hx] using hx'
    exact ⟨k, rfl, hmod⟩
  | none => rcases h.of_readInteger_eq_none hk with ⟨-, hx'⟩ | ⟨-, hx'⟩ <;> simp [hx] at hx'

theorem Written.content?_eq (hu : c.Written u width) (hv : c.Written v width)
    (he : c.literal u = c.literal v) : c.content? u = c.content? v := by
  -- What a literal reads as has one pattern in the width; `undef` and the zero read as nothing.
  cases hk : readInteger width (c.literal u) with
  | some k =>
    obtain ⟨a, ha, hka, hlt⟩ := hu.of_readInteger_eq_some hk
    obtain ⟨b, hb, hkb, hlt'⟩ := hv.of_readInteger_eq_some (he ▸ hk)
    have hab : a ≡ b [MOD 2 ^ width] := by exact_mod_cast hka.symm.trans hkb
    rw [ha, hb, hab.eq_of_lt_of_lt hlt hlt']
  | none =>
    rcases hu.of_readInteger_eq_none hk with ⟨hl, hx⟩ | ⟨hl, hx⟩ <;>
      rcases hv.of_readInteger_eq_none (he ▸ hk) with ⟨hl', hx'⟩ | ⟨hl', hx'⟩
    · rw [hx, hx']
    · simp [hl, hl'] at he
    · simp [hl, hl'] at he
    · rw [hx, hx']

end Context

namespace World

variable {w : World} {n : Nat}

theorem Reachable.types (h : w.Reachable) (hl : (w.context n).isDisposed = false) :
    (w.context n).types.Reachable := by
  refine h.context_induction (P := fun _ c => c.types.Reachable) ?_ ?_ ?_ n
    (valid_of_live hl).1 (valid_of_live hl).2
  · exact fun k limit _ => ⟨k, limit, .refl⟩
  · intro _ c vs c' hc hs
    induction hs with
    | refl => exact hc
    | type _ call ih => exact TypeRegistry.Reachable.leadsTo ih (.call .refl (.type call))
    | constant _ _ ih | names _ _ ih | counts _ _ _ ih => exact ih
  · exact fun _ c hc => TypeRegistry.Reachable.leadsTo hc (.call .refl .dispose)

theorem context_type (hl : (w.context n).isDisposed = false) (call : TypeCall) :
    ((w.perform (.type n call)).context n).types =
      TypeRequest.after call.request (w.context n).types := by
  rw [perform, requestType_snd, context_setContext, if_pos ⟨rfl, valid_of_live hl⟩]

theorem Reachable.exists_int_iff (h : w.Reachable) (hl : (w.context n).isDisposed = false)
    (width : Nat) : 0 < width ∧ width ≤ (w.context n).types.maxBits ↔
      ∃ t, ((w.perform (.type n (.int width))).context n).types.lookup t = some (.int width) := by
  have hmade := context_type hl (.int width)
  constructor
  · rintro ⟨hpos, hle⟩
    have hc : (w.context n).types.check (.int width) = .ok () :=
      TypeRegistry.check_eq_ok_iff.2 ⟨Nat.ne_of_gt hpos, hle⟩
    refine ⟨((w.context n).types.intern (.int width)).1, ?_⟩
    have hafter : TypeRequest.after (TypeCall.int width).request (w.context n).types =
        ((w.context n).types.intern (.int width)).2 := by
      have hl : (w.context n).types.disposed = false := hl
      simp [TypeRequest.after, TypeCall.request, TypeRequest.int, TypeRequest.make, hl, hc]
    rw [hmade, hafter]
    exact TypeRegistry.lookup_intern _ _
  · rintro ⟨t, ht⟩
    have hruns := (TypeCall.int width).runs (w.context n).types
    have hl' : ((w.perform (.type n (.int width))).context n).isDisposed = false := by
      rw [Context.isDisposed, hmade, (TypeRegistry.grows_of_runs hruns).disposed]
      exact hl
    obtain ⟨hpos, hle⟩ := ((h.perform _).types hl').admits hl' ht rfl
    rw [hmade, TypeRegistry.maxBits_of_runs hruns] at hle
    exact ⟨Nat.pos_of_ne_zero hpos, hle⟩

theorem exists_answer_iff {t : TypeRef} {call : ConstantCall} :
    (∃ v, w.answer? (.constant n t call) = some (n, v)) ↔
      ∃ x, call.request (w.context n).constants (w.context n).types t = .ok x := by
  rw [answer?, requestConstant]
  cases call.request (w.context n).constants (w.context n).types t with
  | error e => simp [Except.toOption, bind, Except.bind]
  | ok x => simp [Except.toOption, bind, Except.bind, pure, Except.pure]

theorem content_of_integer? {call : ConstantCall} {x : Int} {width : Nat}
    (h : call.integer? = some x) : call.content (.int width) = .int (x % 2 ^ width).toNat := by
  cases call with
  | signed n =>
    obtain rfl := Option.some.inj h
    rfl
  | unsigned n =>
    obtain rfl := Option.some.inj h
    simp only [ConstantCall.content, TypeDesc.width]
    norm_cast
  | _ => simp [ConstantCall.integer?] at h

/-- What is given as an integer constant, and what becomes of it. -/
structure IntegerConstants (w : World) (n : Nat) (t : TypeRef) (width : Nat) : Prop where
  signed : ∀ x : Int64, (∃ v, w.answer? (.constant n t (.signed x)) = some (n, v)) ↔
    -2 ^ (width - 1) ≤ x.toInt ∧ x.toInt ≤ 2 ^ width - 1
  unsigned : ∀ x : UInt64, (∃ v, w.answer? (.constant n t (.unsigned x)) = some (n, v)) ↔
    x.toNat ≤ 2 ^ width - 1
  literal : ∀ call x v, ConstantCall.integer? call = some x →
    w.answer? (.constant n t call) = some (n, v) → ∀ os : List Operation,
      let w' := os.foldl perform (w.perform (.constant n t call))
      (w'.context n).isDisposed = false →
        ∃ k, readInteger width ((w'.context n).literal v) = some k ∧ k ≡ x [ZMOD 2 ^ width]
  distinct : ∀ u v, Minted n u w → Minted n v w → u.type = t → v.type = t →
    (w.context n).literal u = (w.context n).literal v → u = v

/-- Integers of every width that a context allows are admitted in range, print what they mean, and are
told apart by what they print. -/
theorem Reachable.integerConstants (h : w.Reachable) (hl : (w.context n).isDisposed = false) :
    (∀ width, 0 < width ∧ width ≤ (w.context n).types.maxBits ↔
      ∃ t, ((w.perform (.type n (.int width))).context n).types.lookup t = some (.int width)) ∧
    ∀ t width, (w.context n).types.lookup t = some (.int width) → w.IntegerConstants n t width := by
  refine ⟨h.exists_int_iff hl, fun t width ht => ⟨?_, ?_, ?_, ?_⟩⟩
  · exact fun x => exists_answer_iff.trans (ConstantPool.exists_signed_iff hl ht x)
  · exact fun x => exists_answer_iff.trans (ConstantPool.exists_unsigned_iff hl ht x)
  · intro call x v hx ha os w' hl'
    have hw' : w'.Reachable := reachable_foldl (h.perform _)
    obtain ⟨hpos, hle⟩ := valid_of_live hl
    have hlen := (steps_of_answer ha).2.1
    obtain ⟨-, constants, hq, he⟩ := of_answer_constant ha
    obtain ⟨htype, hcontent⟩ := Context.content?_of_request hq ht
    have hmade : (w.perform (.constant n t call)).context n = { w.context n with constants } := by
      rw [he, context_setContext, if_pos ⟨rfl, hpos, hle⟩]
    obtain ⟨hl₁, hgrows⟩ := (grows_foldl _ os).contexts n (hlen ▸ hle) hl'
    have hlater := hgrows.content? ((h.perform _).wellFormed hl₁) (hmade ▸ hcontent)
    have ht' : (w'.context n).types.lookup v.type = some (.int width) := by
      rw [hmade] at hgrows
      exact htype ▸ hgrows.types.lookup_of_not_isNamed ht rfl
    rw [content_of_integer? hx] at hlater
    obtain ⟨k, hlookup, -⟩ := Context.content?_eq_some_iff.1 hlater
    have hwritten := Context.written (hw'.wellFormed hl') (Option.isSome_iff_exists.2 ⟨k, hlookup⟩) ht'
    obtain ⟨k, hk, hmod⟩ := hwritten.exists_readInteger hlater
    refine ⟨k, hk, hmod.trans ?_⟩
    rw [Int.toNat_of_nonneg (Int.emod_nonneg x (by positivity))]
    exact Int.mod_modEq x _
  · intro u v hu hv hut hvt he
    have hw := h.wellFormed hl
    obtain ⟨hfu, hku⟩ := hu.lookupConstant hl
    obtain ⟨hfv, hkv⟩ := hv.lookupConstant hl
    refine (Context.eq_iff_content?_eq hw hfu hfv hku hkv).2 ⟨hut.trans hvt.symm, ?_⟩
    exact (Context.written hw hku (hut ▸ ht)).content?_eq (Context.written hw hkv (hvt ▸ ht)) he

theorem integerConstants_pairs : pairs.Reachable ∧ (pairs.context 1).isDisposed = false ∧
    (pairs.context 1).types.lookup ⟨1, 1⟩ = some (.int 8) ∧
    (pairs.context 1).literal (.const ⟨1, 1⟩ 1 1) = "-1" ∧ pairs.IntegerConstants 1 ⟨1, 1⟩ 8 := by
  have hr : pairs.Reachable := reachable_foldl .empty
  have hl : (pairs.context 1).isDisposed = false := by decide
  have ht : (pairs.context 1).types.lookup ⟨1, 1⟩ = some (.int 8) := by decide
  exact ⟨hr, hl, ht, by decide, (hr.integerConstants hl).2 _ _ ht⟩

end World

end TypedIR
