import TypedIR.Proofs.Constant.Content
import TypedIR.Proofs.Registry.Key

namespace TypedIR

namespace Payload

def kindCode : Payload → Nat
  | int .. => 0
  | float _ => 1
  | null => 2
  | zero => 3
  | undefined => 4
  | aggregate _ => 5

def key : Payload → String
  | int bits negative => toString bits ++ ":" ++ if negative then "1" else "0"
  | float bits => toString bits.toNat
  | aggregate ids => numbersKey ids
  | _ => ""

theorem eq_of_key_eq {x y : Payload} (hc : x.kindCode = y.kindCode)
    (h : x.key.toList = y.key.toList) : x = y := by
  cases x with
  | int bits negative =>
    cases y with
    | int bits' negative' =>
      have h : Nat.toDigits 10 bits ++ ':' :: (if negative then "1" else "0").toList =
          Nat.toDigits 10 bits' ++ ':' :: (if negative' then "1" else "0").toList := by
        simpa [key] using h
      obtain ⟨rfl, hrest⟩ := digits_append_inj (by simp) (by simp) h
      cases negative <;> cases negative' <;> first | rfl | simp at hrest
    | _ => simp [kindCode] at hc
  | float bits =>
    cases y with
    | float bits' =>
      have h : bits.toNat = bits'.toNat := digits_inj (by simpa [key] using h)
      rw [UInt64.toNat_inj.1 h]
    | _ => simp [kindCode] at hc
  | aggregate ids =>
    cases y with
    | aggregate ids' => rw [numbersKey_inj h]
    | _ => simp [kindCode] at hc
  | null => cases y <;> first | rfl | simp [kindCode] at hc
  | zero => cases y <;> first | rfl | simp [kindCode] at hc
  | undefined => cases y <;> first | rfl | simp [kindCode] at hc

end Payload

namespace Constant

def key (k : Constant) : String :=
  toString k.payload.kindCode ++ ":" ++ toString k.type.id ++ ":" ++ k.payload.key

example : key ⟨⟨1, 4⟩, .aggregate [2, 3]⟩ = "5:4:2,3," := by decide

theorem eq_of_key_eq {context : Nat} {k k' : Constant} (ht : k.type.context = context)
    (ht' : k'.type.context = context) (h : k.key = k'.key) : k = k' := by
  have h : Nat.toDigits 10 k.payload.kindCode ++ ':' :: (Nat.toDigits 10 k.type.id ++
        ':' :: k.payload.key.toList) =
      Nat.toDigits 10 k'.payload.kindCode ++ ':' :: (Nat.toDigits 10 k'.type.id ++
        ':' :: k'.payload.key.toList) := by
    simpa [key] using congrArg String.toList h
  obtain ⟨hkind, h⟩ := digits_append_inj (by simp) (by simp) h
  obtain ⟨hid, h⟩ := digits_append_inj (by simp) (by simp) (List.tail_eq_of_cons_eq h)
  obtain ⟨type, payload⟩ := k
  obtain ⟨type', payload'⟩ := k'
  obtain rfl : type = type' := TypeDesc.ref_ext ht ht' hid
  obtain rfl : payload = payload' := Payload.eq_of_key_eq hkind (List.tail_eq_of_cons_eq h)
  rfl

end Constant

namespace ConstantPool

variable {p : ConstantPool} {types : TypeRegistry} {k : Constant}

def internByKey (p : ConstantPool) (context : Nat) (k : Constant) : Value × ConstantPool :=
  match p.entries.findIdx? fun e => e.key = k.key with
  | some position => (.const k.type (position + 1) context, p)
  | none => (.const k.type (p.size + 1) context, { p with entries := p.entries ++ [k] })

/-- The key of a constant of a type of the context finds the constant itself, or nothing. -/
theorem WellFormed.internByKey_eq (h : p.WellFormed types) (ht : types.owns k.type) :
    p.internByKey types.context k = p.intern types.context k := by
  have hkey : ∀ e ∈ p.entries, decide (e.key = k.key) = decide (e = k) := by
    intro e he
    obtain ⟨i, hi⟩ := List.mem_iff_getElem?.1 he
    obtain ⟨d, hd, -⟩ := h.fits i e hi
    have hcontext := TypeRegistry.context_of_owns (TypeRegistry.owns_iff.2 ⟨d, hd⟩)
    refine decide_eq_decide.2 ⟨Constant.eq_of_key_eq hcontext ?_, fun hek => hek ▸ rfl⟩
    exact TypeRegistry.context_of_owns ht
  rw [internByKey, TypeRegistry.findIdx?_congr hkey]
  rfl

end ConstantPool

end TypedIR
