import Mathlib.Algebra.Group.Int.Defs
import Mathlib.Algebra.Group.Nat.Defs
import TypedIR.Proofs.Constant.Requests
import TypedIR.Proofs.Growth.Contexts

namespace TypedIR

def TypeDesc.width : TypeDesc → Nat
  | int width => width
  | _ => 0

/-- What a constant stands for beside its type. An integer is its two's-complement pattern. -/
inductive Content
  | int (pattern : Nat)
  | float (bits : UInt64)
  | null
  | zero
  | undefined
  | aggregate (elements : List Value)
  deriving DecidableEq

def wordPattern (width bits : Nat) (negative : Bool) : Nat :=
  if negative then bits + (2 ^ width - 2 ^ 64) else bits

def ConstantCall.content (d : TypeDesc) : ConstantCall → Content
  | signed n => .int (n.toInt % 2 ^ d.width).toNat
  | unsigned n => .int (n.toNat % 2 ^ d.width)
  | float bits => .float bits
  | null => .null
  | zero =>
    match d with
    | .int _ => .int 0
    | .float _ => .float 0
    | .pointer _ => .null
    | _ => .zero
  | undefined => .undefined
  | aggregate es => .aggregate (es.map ({ · with isFunction := false }))

namespace ConstantPool

def handle (p : ConstantPool) (context id : Nat) : Value :=
  .const ((p.entries[id - 1]?.map (·.type)).getD {}) id context

def content (p : ConstantPool) (types : TypeRegistry) (k : Constant) : Content :=
  match k.payload with
  | .int bits negative =>
    .int (wordPattern (((types.lookup k.type).map (·.width)).getD 0) bits negative)
  | .float bits => .float bits
  | .null => .null
  | .zero => .zero
  | .undefined => .undefined
  | .aggregate ids => .aggregate (ids.map (p.handle types.context))

end ConstantPool

def Context.content? (c : Context) (v : Value) : Option Content :=
  (c.lookupConstant v).map (c.constants.content c.types)

section Patterns

variable {width bits bits' : Nat} {negative negative' : Bool}

/-- Only a number wider than a word may go on with ones, and then its low word starts with a one. -/
structure IsWord (width bits : Nat) (negative : Bool) : Prop where
  lt : bits < 2 ^ min width 64
  wide : negative → 64 < width ∧ 2 ^ 63 ≤ bits

theorem IsWord.pattern_lt (h : IsWord width bits negative) : wordPattern width bits negative < 2 ^ width := by
  have hbits := h.lt
  cases negative with
  | false => exact Nat.lt_of_lt_of_le hbits (Nat.pow_le_pow_right (by decide) (Nat.min_le_left _ _))
  | true =>
    have hw := (h.wide rfl).1
    rw [Nat.min_eq_right (by omega)] at hbits
    have hpow : 2 ^ 64 ≤ 2 ^ width := Nat.pow_le_pow_right (by decide) (by omega)
    simp only [wordPattern, if_true]
    omega

theorem wordPattern_true_ne (h : IsWord width bits true) (h' : IsWord width bits' false) :
    wordPattern width bits true ≠ wordPattern width bits' false := by
  obtain ⟨hw, hbits⟩ := h.wide rfl
  have hbits' := h'.lt
  rw [Nat.min_eq_right (by omega)] at hbits'
  have hpow : 2 ^ 65 ≤ 2 ^ width := Nat.pow_le_pow_right (by decide) hw
  simp only [wordPattern, if_true, Bool.false_eq_true, if_false]
  omega

theorem wordPattern_inj (h : IsWord width bits negative) (h' : IsWord width bits' negative')
    (he : wordPattern width bits negative = wordPattern width bits' negative') :
    bits = bits' ∧ negative = negative' := by
  cases negative with
  | true =>
    cases negative' with
    | true => exact ⟨by simpa [wordPattern] using he, rfl⟩
    | false => exact absurd he (wordPattern_true_ne h h')
  | false =>
    cases negative' with
    | true => exact absurd he.symm (wordPattern_true_ne h' h)
    | false => exact ⟨by simpa [wordPattern] using he, rfl⟩

theorem isWord_signed (width : Nat) (n : Int64) :
    IsWord width (n.toInt % Nat.pow 2 (min width 64)).toNat (64 < width && n.toInt < 0) := by
  have hpos : (0 : Int) < 2 ^ min width 64 := Int.pow_pos (by decide)
  simp only [Nat.pow_eq, Int.natCast_pow, Int.cast_ofNat_Int]
  refine ⟨?_, fun hn => ?_⟩
  · have hlt := Int.emod_lt_of_pos n.toInt hpos
    have hle := Int.emod_nonneg n.toInt (Int.ne_of_gt hpos)
    rw [Int.toNat_lt hle]
    exact_mod_cast hlt
  · obtain ⟨hw, hneg⟩ : 64 < width ∧ n.toInt < 0 := by simpa using hn
    have hmin := Int64.le_toInt n
    refine ⟨hw, ?_⟩
    rw [Nat.min_eq_right (by omega)]
    omega

theorem wordPattern_signed (width : Nat) (n : Int64) :
    wordPattern width (n.toInt % Nat.pow 2 (min width 64)).toNat (64 < width && n.toInt < 0) =
      (n.toInt % 2 ^ width).toNat := by
  simp only [Nat.pow_eq, Int.natCast_pow, Int.cast_ofNat_Int]
  by_cases hw : 64 < width
  · have hmin := Int64.le_toInt n
    have hmax := Int64.toInt_lt n
    have hpow : 2 ^ 64 ≤ 2 ^ width := Nat.pow_le_pow_right (by decide) (by omega)
    have hcast : ((2 ^ width : Nat) : Int) = 2 ^ width := by push_cast; rfl
    rw [Nat.min_eq_right (by omega)]
    by_cases hneg : n.toInt < 0
    · have hres : n.toInt % 2 ^ width = n.toInt + 2 ^ width := by
        rw [← Int.add_emod_right, Int.emod_eq_of_lt (by omega) (by omega)]
      simp only [wordPattern, hw, hneg, decide_true, Bool.and_self, if_true, hres]
      omega
    · have hres : n.toInt % 2 ^ width = n.toInt := Int.emod_eq_of_lt (by omega) (by omega)
      simp only [wordPattern, hneg, decide_false, Bool.and_false, Bool.false_eq_true, if_false, hres]
      omega
  · rw [Nat.min_eq_left (by omega)]
    simp [wordPattern, hw]

end Patterns

/-- What a constant of a type may hold at a position of its pool. Elements stand before it. -/
inductive Payload.Fits (p : ConstantPool) (context position : Nat) (d : TypeDesc) : Payload → Prop
  | int {width bits : Nat} {negative : Bool} (hd : d = .int width) (hb : IsWord width bits negative) :
    Fits p context position d (.int bits negative)
  | float {bits : UInt64} (hd : d.isFloat) : Fits p context position d (.float bits)
  | null (hd : d.isPointer) : Fits p context position d .null
  | zero (hd : d.isSized) : Fits p context position d .zero
  | undefined (hd : d.isSized) : Fits p context position d .undefined
  | aggregate {ids : List Nat}
    (hd : d.elementTypes? = some (ids.map fun id => (p.handle context id).type))
    (hids : ∀ id ∈ ids, 0 < id ∧ id ≤ position) : Fits p context position d (.aggregate ids)

/-- No two entries of a pool are alike, and each fits its type. -/
structure ConstantPool.WellFormed (p : ConstantPool) (types : TypeRegistry) : Prop where
  nodup : p.entries.Nodup
  fits : ∀ (i : Nat) k, p.entries[i]? = some k →
    ∃ d, types.lookup k.type = some d ∧ k.payload.Fits p types.context i d

namespace TypeDesc

variable {d d' : TypeDesc} {ts : List TypeRef}

theorem Refines.elementTypes? (h : d.Refines d') (hd : d.elementTypes? = some ts) :
    d'.elementTypes? = some ts := by
  cases h with
  | refl => exact hd
  | body name b => simp [TypeDesc.elementTypes?] at hd

end TypeDesc

variable {p p' : ConstantPool} {types types' : TypeRegistry} {t : TypeRef} {d d' : TypeDesc}
  {payload : Payload} {k k' : Constant} {v : Value} {context position i id : Nat}
  {call : ConstantCall}

namespace ConstantPool

theorem lookup_eq_some_iff : p.lookup context v = some k ↔ v.kind = .const ∧ v.scope = context ∧
    0 < v.id ∧ p.entries[v.id - 1]? = some k ∧ k.type = v.type := by
  rw [lookup]
  split
  next h =>
    rw [Option.filter_eq_some_iff, decide_eq_true_eq]
    exact ⟨fun hk => ⟨h.1, h.2.1, Nat.pos_of_ne_zero h.2.2, hk⟩, fun hk => hk.2.2.2⟩
  next h =>
    simp only [reduceCtorEq, false_iff]
    exact fun hk => h ⟨hk.1, hk.2.1, Nat.ne_of_gt hk.2.2.1⟩

theorem lookup_const (h : p.entries[i]? = some k) :
    p.lookup context (.const k.type (i + 1) context) = some k :=
  lookup_eq_some_iff.2 ⟨rfl, rfl, Nat.succ_pos i, h, rfl⟩

theorem Grows.getElem? (h : p.Grows p') (hk : p.entries[i]? = some k) : p'.entries[i]? = some k :=
  (lookup_eq_some_iff.1 (h 0 _ k (lookup_const hk))).2.2.2.1

theorem Grows.handle (h : p.Grows p') (hid : 0 < id) (hle : id ≤ p.size) :
    p'.handle context id = p.handle context id := by
  have hk := List.getElem?_eq_getElem (l := p.entries) (i := id - 1) (by rw [size] at hle; omega)
  rw [ConstantPool.handle, ConstantPool.handle, h.getElem? hk, hk]

theorem of_make {x : Value × ConstantPool} (h : x = p.make types t payload) :
    ∃ i, x.1 = .const t (i + 1) types.context ∧ x.2.entries[i]? = some ⟨t, payload⟩ ∧
      (x.2 = p ∨ i = p.size ∧ (∀ k ∈ p.entries, k ≠ ⟨t, payload⟩) ∧
        x.2.entries = p.entries ++ [⟨t, payload⟩]) := by
  subst h
  rw [make, intern]
  split
  next i h =>
    obtain ⟨hi, he, -⟩ := List.findIdx?_eq_some_iff_getElem.1 h
    exact ⟨i, rfl, List.getElem?_eq_some_iff.2 ⟨hi, by simpa using he⟩, .inl rfl⟩
  next h =>
    exact ⟨p.size, rfl, by simp [size], .inr ⟨rfl, by simpa using h, rfl⟩⟩

theorem isSome_lookup_handle (hid : 0 < id) (hle : id ≤ p.size) :
    (p.lookup context (p.handle context id)).isSome := by
  obtain ⟨i, rfl⟩ : ∃ i, id = i + 1 := ⟨id - 1, by omega⟩
  have hk := List.getElem?_eq_getElem (l := p.entries) (i := i) hle
  rw [handle, Nat.add_sub_cancel, hk, Option.map_some, Option.getD_some, lookup_const hk,
    Option.isSome_some]

theorem handle_of_lookup (h : p.lookup context v = some k) :
    p.handle context v.id = { v with isFunction := false } := by
  obtain ⟨hkind, hscope, -, hk, ht⟩ := lookup_eq_some_iff.1 h
  obtain ⟨kind, type, id, scope, isFunction⟩ := v
  simp_all [handle, Value.const]

theorem grows_of_request (call : ConstantCall) (h : call.request p types t = .ok (v, p')) :
    p.Grows p' := by
  obtain ⟨-, d, payload, -, -, he⟩ := of_request h
  obtain rfl : p' = (p.make types t payload).2 := congrArg Prod.snd he
  exact p.grows_intern _ _

end ConstantPool

theorem Payload.Fits.mono (h : payload.Fits p context position d) (hg : p.Grows p')
    (hle : position ≤ p.size) (hd : d.Refines d') : payload.Fits p' context position d' := by
  have hsame (hn : d.isNamed = false) : d' = d := hd.eq_of_not_isNamed hn
  cases h with
  | int he hb => exact .int (hsame (by rw [he]; rfl) ▸ he) hb
  | float he =>
    refine .float (hsame ?_ ▸ he)
    cases d <;> first | rfl | simp [TypeDesc.isFloat] at he
  | null he =>
    refine .null (hsame ?_ ▸ he)
    cases d <;> first | rfl | simp [TypeDesc.isPointer] at he
  | zero he => exact .zero (hd.isSized he)
  | undefined he => exact .undefined (hd.isSized he)
  | @aggregate ids he hids =>
    refine .aggregate ?_ hids
    rw [hd.elementTypes? he]
    congr 1
    exact List.map_congr_left fun id hid =>
      (congrArg Value.type (hg.handle (hids id hid).1 (Nat.le_trans (hids id hid).2 hle))).symm

theorem ConstantCall.Pays.fits (h : call.Pays p types d payload) :
    payload.Fits p types.context p.size d := by
  cases h with
  | signed hd => exact .int hd (isWord_signed _ _)
  | @unsigned n width hd hr =>
    refine .int hd ⟨?_, by simp⟩
    have hn := n.toNat_lt
    by_cases hw : width < 64
    · rw [Nat.min_eq_left (Nat.le_of_lt hw)]
      exact hr hw
    · rw [Nat.min_eq_right (Nat.le_of_not_lt hw)]
      exact hn
  | float hd => exact .float hd
  | null hd => exact .null hd
  | zero hd =>
    cases d with
    | int width => exact .int rfl ⟨Nat.two_pow_pos _, by simp⟩
    | float kind => exact .float rfl
    | pointer space => exact .null rfl
    | _ => exact .zero hd
  | undefined hd => exact .undefined hd
  | @aggregate es hd hes =>
    have hhandle : ∀ e ∈ es, (p.handle types.context e.id).type = e.type := by
      intro e he
      obtain ⟨k, hk⟩ := Option.isSome_iff_exists.1 (hes e he)
      rw [ConstantPool.handle_of_lookup hk]
    refine .aggregate ?_ fun id hid => ?_
    · rw [hd, List.map_map]
      congr 1
      exact List.map_congr_left fun e he => (hhandle e he).symm
    · obtain ⟨e, he, rfl⟩ := List.mem_map.1 hid
      obtain ⟨k, hk⟩ := Option.isSome_iff_exists.1 (hes e he)
      obtain ⟨-, -, hpos, hk, -⟩ := ConstantPool.lookup_eq_some_iff.1 hk
      have hlt := (List.getElem?_eq_some_iff.1 hk).1
      exact ⟨hpos, by rw [ConstantPool.size]; omega⟩

namespace ConstantPool

namespace WellFormed

theorem mono (h : p.WellFormed types) (hg : types.Grows types') : p.WellFormed types' where
  nodup := h.nodup
  fits i k hk := by
    obtain ⟨d, hd, hf⟩ := h.fits i k hk
    obtain ⟨d', hd', hr⟩ := hg.lookup _ d hd
    have hle := Nat.le_of_lt (List.getElem?_eq_some_iff.1 hk).1
    exact ⟨d', hd', hg.context ▸ hf.mono (.refl p) hle hr⟩

theorem make (h : p.WellFormed types) (hd : types.lookup t = some d)
    (hp : call.Pays p types d payload) : (p.make types t payload).2.WellFormed types := by
  have hg : p.Grows (p.make types t payload).2 := p.grows_intern types.context ⟨t, payload⟩
  obtain ⟨_, -, -, he | ⟨-, hnew, he⟩⟩ := of_make (Eq.refl (p.make types t payload))
  · rwa [he]
  · constructor
    · rw [he]
      exact List.nodup_append.2 ⟨h.nodup, by simp, by simpa using hnew⟩
    · intro i k hk
      rw [he, List.getElem?_append] at hk
      split at hk
      next hi =>
        obtain ⟨d', hd', hf⟩ := h.fits i k hk
        exact ⟨d', hd', hf.mono hg (Nat.le_of_lt hi) (.refl d')⟩
      next hi =>
        have hlt := (List.getElem?_eq_some_iff.1 hk).1
        obtain rfl : k = ⟨t, payload⟩ := List.mem_singleton.1 (List.mem_of_getElem? hk)
        have hpos : i = p.size := by
          simp only [List.length_singleton] at hlt
          rw [size]
          omega
        exact ⟨d, hd, hpos ▸ hp.fits.mono hg (Nat.le_refl _) (.refl d)⟩

end WellFormed

end ConstantPool

end TypedIR
