import Mathlib.Algebra.Group.Nat.Defs
import TypedIR.Proofs.Registry.Invariant
import TypedIR.Proofs.Typing.Judgment

/-! Bitcasts between numbers and vectors of numbers. The rule counts bits in a word, so it sees how many
there are only up to multiples of `2 ^ 64`: a vector that is long enough passes for a shorter one, and one
with a multiple of `2 ^ 64` bits for no number at all. -/

namespace TypedIR

def TypeDesc.scalarBits? : TypeDesc → Option Nat
  | int bits => some bits
  | float kind => some kind.bits
  | _ => none

namespace TypeRegistry

variable {r : TypeRegistry} {s t : TypeRef} {n : Nat}

/-- The bits of a number, or of all elements of a vector of numbers, however many there are. -/
def bits? (r : TypeRegistry) (t : TypeRef) : Option Nat :=
  match r.lookup t with
  | some (.vector elem count) => ((r.lookup elem).bind (·.scalarBits?)).map (count.toNat * ·)
  | d => d.bind (·.scalarBits?)

def SameBits (r : TypeRegistry) (s t : TypeRef) : Prop := ∃ n, r.bits? s = some n ∧ r.bits? t = some n

theorem toNat_bitWidth (r : TypeRegistry) (t : TypeRef) :
    (r.bitWidth t).toNat = (r.bits? t).getD 0 % 2 ^ 64 := by
  cases hl : r.lookup t with
  | none => simp [bitWidth, bits?, hl]
  | some d =>
    cases d with
    | int bits | float kind => simp [bitWidth, bits?, hl, TypeDesc.scalarBits?]
    | vector elem count =>
      cases he : r.lookup elem with
      | none => simp [bitWidth, bits?, hl, he]
      | some e => cases e <;> simp [bitWidth, bits?, hl, he, TypeDesc.scalarBits?, UInt64.toNat_mul]
    | _ => simp [bitWidth, bits?, hl, TypeDesc.scalarBits?]

theorem bitWidth_ne_zero_and_eq_iff : r.bitWidth s ≠ 0 ∧ r.bitWidth s = r.bitWidth t ↔
    ∃ a b, r.bits? s = some a ∧ r.bits? t = some b ∧ a % 2 ^ 64 = b % 2 ^ 64 ∧ a % 2 ^ 64 ≠ 0 := by
  rw [ne_eq, ← UInt64.toNat_inj, ← UInt64.toNat_inj, toNat_bitWidth, toNat_bitWidth, UInt64.toNat_zero]
  cases r.bits? s with
  | none => simp
  | some a =>
    cases r.bits? t with
    | none =>
      simp only [Option.getD_some, Option.getD_none, Nat.zero_mod, reduceCtorEq, false_and, and_false,
        exists_false, iff_false, not_and]
      exact fun h => h
    | some b => simp [and_comm]

theorem Reachable.bits_pos (h : r.Reachable) (hl : r.disposed = false) (hn : r.bits? t = some n)
    (hfloat : ∀ kind, r.scalar? t = some (.float kind) → 0 < kind.bits) : 0 < n := by
  have hscalar {u : TypeRef} {d : TypeDesc} {k : Nat} (hd : r.lookup u = some d)
      (hk : d.scalarBits? = some k) (hf : ∀ kind, d = .float kind → 0 < kind.bits) : 0 < k := by
    cases d with
    | int bits =>
      obtain rfl := Option.some.inj hk
      exact Nat.pos_of_ne_zero (h.admits hl hd rfl).1
    | float kind => exact Option.some.inj hk ▸ hf kind rfl
    | _ => simp [TypeDesc.scalarBits?] at hk
  rw [bits?] at hn
  rw [scalar?] at hfloat
  split at hn
  next elem count hd =>
    obtain ⟨k, hk, rfl⟩ := Option.map_eq_some_iff.1 hn
    obtain ⟨e, he, hk⟩ := Option.bind_eq_some_iff.1 hk
    simp only [hd, he] at hfloat
    have hcount : count ≠ 0 := (h.admits hl hd rfl).1
    have hpos : 0 < count.toNat :=
      Nat.pos_of_ne_zero fun hz => hcount (UInt64.toNat_inj.1 (hz.trans UInt64.toNat_zero.symm))
    exact Nat.mul_pos hpos (hscalar he hk fun kind hkind => hfloat kind (congrArg some hkind))
  next hv =>
    obtain ⟨d, hd, hk⟩ := Option.bind_eq_some_iff.1 hn
    refine hscalar hd hk fun kind hkind => hfloat kind ?_
    rw [hd, hkind]

end TypeRegistry

namespace Instr

variable {c : Context} {m : Module} {f : Func} {i : Instr} {v : Value} {source target : TypeDesc}

theorem castAllowed_bitcast {a b : UInt64} (hs : source.isPointer = false)
    (ht : target.isPointer = false) : castAllowed .bitcast source target a b ↔ a ≠ 0 ∧ a = b := by
  cases source <;> cases target <;> simp_all [castAllowed, TypeDesc.isPointer]

theorem checkRule_bitcast (hop : i.op = .bitcast) (hv : i.operands = [v])
    (hs : c.types.lookup v.type = some source) (ht : c.types.lookup i.type = some target)
    (hsp : source.isPointer = false) (htp : target.isPointer = false) :
    i.checkRule c m f = .ok () ↔
      c.types.bitWidth v.type ≠ 0 ∧ c.types.bitWidth v.type = c.types.bitWidth i.type := by
  have hrule : i.checkRule c m f = i.checkCast c.types := by
    rw [checkRule, hop]
    rfl
  rw [hrule, checkCast_iff, hv, ← castAllowed_bitcast hsp htp, hop]
  constructor
  · rintro ⟨_, _, _, _, he, hs', ht', h⟩
    obtain ⟨rfl, -⟩ := List.cons.inj he
    obtain rfl := Option.some.inj (hs.symm.trans hs')
    obtain rfl := Option.some.inj (ht.symm.trans ht')
    exact h
  · exact fun h => ⟨v, [], source, target, rfl, hs, ht, h⟩

/-- Between types that are no pointers, a bitcast passes just when both have bits and the bits agree
modulo the word, but not with zero. That is to say that there are equally many, unless as many are taken
for more, or for none; so in a live registry it says so for all types of less than `2 ^ 64` bits. -/
theorem checkRule_bitcast_iff (hop : i.op = .bitcast) (hv : i.operands = [v])
    (hs : c.types.lookup v.type = some source) (ht : c.types.lookup i.type = some target)
    (hsp : source.isPointer = false) (htp : target.isPointer = false) :
    (i.checkRule c m f = .ok () ↔ ∃ a b, c.types.bits? v.type = some a ∧ c.types.bits? i.type = some b ∧
      a % 2 ^ 64 = b % 2 ^ 64 ∧ a % 2 ^ 64 ≠ 0) ∧
    ((i.checkRule c m f = .ok () ↔ c.types.SameBits v.type i.type) ↔
      ∀ a b, c.types.bits? v.type = some a → c.types.bits? i.type = some b → a % 2 ^ 64 = b % 2 ^ 64 →
        (a = b ↔ a % 2 ^ 64 ≠ 0)) ∧
    (c.types.Reachable → c.types.disposed = false →
      (∀ kind, c.types.scalar? v.type = some (.float kind) → 0 < kind.bits) →
      (∀ a ∈ c.types.bits? v.type, a < 2 ^ 64) → (∀ b ∈ c.types.bits? i.type, b < 2 ^ 64) →
      (i.checkRule c m f = .ok () ↔ c.types.SameBits v.type i.type)) := by
  have hiff := (checkRule_bitcast (m := m) (f := f) hop hv hs ht hsp htp).trans
    TypeRegistry.bitWidth_ne_zero_and_eq_iff
  have hsame : (i.checkRule c m f = .ok () ↔ c.types.SameBits v.type i.type) ↔
      ∀ a b, c.types.bits? v.type = some a → c.types.bits? i.type = some b → a % 2 ^ 64 = b % 2 ^ 64 →
        (a = b ↔ a % 2 ^ 64 ≠ 0) := by
    rw [hiff, TypeRegistry.SameBits]
    cases c.types.bits? v.type with
    | none => simp
    | some a =>
      cases c.types.bits? i.type with
      | none => simp
      | some b =>
        simp only [Option.some.injEq, exists_and_left, exists_eq_left']
        grind
  refine ⟨hiff, hsame, fun hr hl hfloat ha hb => hsame.2 fun a b hav hbv hab => ?_⟩
  have hlt := ha a hav
  have hlt' := hb b hbv
  rw [Nat.mod_eq_of_lt hlt, Nat.mod_eq_of_lt hlt'] at hab
  rw [Nat.mod_eq_of_lt hlt]
  exact iff_of_true hab (Nat.ne_of_gt (hr.bits_pos hl hav hfloat))

def byteVectors : Context := { Context.new 1 64 false with
  types := (TypeRegistry.empty 1 64).afterAll [.type (.int 8), .type (.int 32),
    .type (.vector ⟨1, 1⟩ 4), .type (.vector ⟨1, 1⟩ 0x2000000000000001),
    .type (.vector ⟨1, 1⟩ 0x2000000000000000)] }

def bitcast (source target : TypeRef) : Instr :=
  { op := .bitcast, type := target, result := some 1, operands := [.param source 0 1] }

theorem checkRule_bitcast_word :
    byteVectors.types.Reachable ∧ byteVectors.types.SameBits ⟨1, 3⟩ ⟨1, 2⟩ ∧
    (bitcast ⟨1, 3⟩ ⟨1, 2⟩).checkRule byteVectors default default = .ok () ∧
    ¬ byteVectors.types.SameBits ⟨1, 3⟩ ⟨1, 1⟩ ∧
    (bitcast ⟨1, 3⟩ ⟨1, 1⟩).checkRule byteVectors default default ≠ .ok () := by
  have hr : byteVectors.types.Reachable := TypeRegistry.reachable_afterAll 1 64 _
  have hfloat : ∀ kind, byteVectors.types.scalar? ⟨1, 3⟩ = some (.float kind) → 0 < kind.bits :=
    fun kind h => nomatch h
  have hsame : byteVectors.types.SameBits ⟨1, 3⟩ ⟨1, 2⟩ := ⟨32, rfl, rfl⟩
  have hother : ¬ byteVectors.types.SameBits ⟨1, 3⟩ ⟨1, 1⟩ := by
    rintro ⟨n, h, h'⟩
    exact absurd (h.trans h'.symm) (by decide)
  obtain ⟨-, -, h⟩ := checkRule_bitcast_iff (c := byteVectors) (m := default) (f := default)
    (i := bitcast ⟨1, 3⟩ ⟨1, 2⟩) rfl rfl rfl rfl rfl rfl
  obtain ⟨-, -, h'⟩ := checkRule_bitcast_iff (c := byteVectors) (m := default) (f := default)
    (i := bitcast ⟨1, 3⟩ ⟨1, 1⟩) rfl rfl rfl rfl rfl rfl
  exact ⟨hr, hsame, (h hr rfl hfloat (by decide) (by decide)).2 hsame, hother,
    fun hok => hother ((h' hr rfl hfloat (by decide) (by decide)).1 hok)⟩

theorem not_sameBits_of_bitcast :
    (¬ ∀ (c : Context) (m : Module) (f : Func) (i : Instr) (v : Value) (s t : TypeDesc),
      c.types.Reachable → c.types.disposed = false → i.op = .bitcast → i.operands = [v] →
      c.types.lookup v.type = some s → c.types.lookup i.type = some t → s.isPointer = false →
      t.isPointer = false → i.checkRule c m f = .ok () → c.types.SameBits v.type i.type) ∧
    ¬ ∀ (c : Context) (m : Module) (f : Func) (i : Instr) (v : Value) (s t : TypeDesc),
      c.types.Reachable → c.types.disposed = false → i.op = .bitcast → i.operands = [v] →
      c.types.lookup v.type = some s → c.types.lookup i.type = some t → s.isPointer = false →
      t.isPointer = false → c.types.SameBits v.type i.type → i.checkRule c m f = .ok () := by
  have hr : byteVectors.types.Reachable := TypeRegistry.reachable_afterAll 1 64 _
  constructor
  · intro h
    obtain ⟨n, hn, hn'⟩ := h byteVectors default default (bitcast ⟨1, 4⟩ ⟨1, 1⟩) _ _ _ hr rfl rfl rfl
      rfl rfl rfl rfl rfl
    exact absurd (hn.trans hn'.symm) (by decide)
  · intro h
    have hok := h byteVectors default default (bitcast ⟨1, 5⟩ ⟨1, 5⟩) _ _ _ hr rfl rfl rfl
      rfl rfl rfl rfl ⟨2 ^ 64, rfl, rfl⟩
    exact ((checkRule_bitcast rfl rfl rfl rfl rfl rfl).1 hok).1 (by decide)

end Instr

end TypedIR
