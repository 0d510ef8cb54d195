import Mathlib.Data.List.Basic
import TypedIR.Constant.Pool

namespace TypedIR

def EndsIn (kind : Char → Prop) (s : String) : Prop := ∃ c, s.toList.getLast? = some c ∧ kind c

namespace EndsIn

variable {kind kind' : Char → Prop} {s : String}

theorem mono (h : EndsIn kind s) (hk : ∀ c, kind c → kind' c) : EndsIn kind' s := by
  obtain ⟨c, hc, hkind⟩ := h
  exact ⟨c, hc, hk c hkind⟩

theorem append (h : EndsIn kind s) (t : String) : EndsIn kind (t ++ s) := by
  obtain ⟨c, hc, hkind⟩ := h
  exact ⟨c, by simp [List.getLast?_append, hc], hkind⟩

theorem ofList {cs : List Char} (hne : cs ≠ []) (h : ∀ c ∈ cs, kind c) :
    EndsIn kind (String.ofList cs) :=
  ⟨cs.getLast hne, by simp [List.getLast?_eq_getLast_of_ne_nil hne], h _ (List.getLast_mem hne)⟩

theorem commaList {ss : List String} (hne : ss ≠ []) (h : ∀ s ∈ ss, EndsIn kind s) :
    EndsIn kind (TypedIR.commaList ss) := by
  induction ss with
  | nil => exact absurd rfl hne
  | cons s ss ih =>
    cases ss with
    | nil => simpa [TypedIR.commaList] using h s List.mem_cons_self
    | cons t ss =>
      have htail : EndsIn kind (TypedIR.commaList (t :: ss)) :=
        ih (by simp) fun u hu => h u (List.mem_cons_of_mem s hu)
      rw [TypedIR.commaList, String.intercalate_cons_cons]
      exact htail.append _

end EndsIn

def IsPlain (c : Char) : Prop := c ≠ 't' ∧ c ≠ '>'

theorem IsPlain.of_isDigit {c : Char} (h : c.isDigit) : IsPlain c := by
  constructor <;> rintro rfl <;> simp at h

theorem endsIn_toString_nat (n : Nat) : EndsIn IsPlain (toString n) := by
  have h : EndsIn IsPlain (String.ofList (Nat.toDigits 10 n)) :=
    .ofList Nat.toDigits_ne_nil fun c hc =>
      .of_isDigit (Nat.isDigit_of_mem_toDigits (by decide) (by decide) hc)
  exact h

theorem endsIn_toString_int (n : Int) : EndsIn IsPlain (toString n) := by
  cases n with
  | ofNat n => exact endsIn_toString_nat n
  | negSucc n => exact (endsIn_toString_nat (n + 1)).append "-"

theorem endsIn_exponentText (e : Int) : EndsIn IsPlain (Decimal.exponentText e) := by
  have h : EndsIn IsPlain (String.ofList (Decimal.digits 2 e.natAbs)) := by
    refine .ofList (by simp [Decimal.digits, Nat.toDigits_ne_nil]) fun c hc => ?_
    rcases List.mem_append.1 hc with hc | hc
    · exact List.eq_of_mem_replicate hc ▸ .of_isDigit (by decide)
    · exact .of_isDigit (Nat.isDigit_of_mem_toDigits (by decide) (by decide) hc)
  exact h.append _

theorem endsIn_scientific (bits : UInt64) : EndsIn IsPlain (Decimal.scientific bits) := by
  have hsigned {s : String} (h : EndsIn IsPlain s) (negative : Bool) :
      EndsIn IsPlain (Decimal.signed negative s) := by
    rw [Decimal.signed]
    split
    · exact h.append "-"
    · exact h
  rw [Decimal.scientific, Decimal.ofBits]
  split
  · exact hsigned ((endsIn_exponentText _).append _) _
  · exact hsigned ⟨'f', by decide, by decide, by decide⟩ _
  · exact hsigned ⟨'n', by decide, by decide, by decide⟩ _

namespace ConstantPool

variable {p : ConstantPool} {types : TypeRegistry} {v : Value}

theorem endsIn_intText (width bits : Nat) (negative : Bool) :
    EndsIn IsPlain (intText width bits negative) := by
  rw [intText]
  split
  · split
    · exact ⟨'e', by decide, by decide, by decide⟩
    · exact ⟨'e', by decide, by decide, by decide⟩
  · split
    · exact endsIn_toString_int _
    · split
      · exact endsIn_toString_int _
      · exact endsIn_toString_nat _

theorem brackets_cases (d : TypeDesc) :
    EndsIn IsPlain (brackets d).2.1 ∧ EndsIn IsPlain (brackets d).2.2 ∨
      brackets d = ("<", ">", "<>") := by
  have hsquare : EndsIn IsPlain "]" := ⟨']', by decide, by decide, by decide⟩
  have hcurly : EndsIn IsPlain "\x7d" := ⟨'\x7d', by decide, by decide, by decide⟩
  cases d with
  | vector => exact .inr rfl
  | array => exact .inl ⟨hsquare, hsquare.append "["⟩
  | _ => exact .inl ⟨hcurly.append " ", hcurly.append "\x7b"⟩

theorem literalWithin_cases (p : ConstantPool) (types : TypeRegistry) (depth id : Nat)
    (ih : ∀ id, EndsIn (· ≠ 't') (p.literalWithin types depth id)) :
    EndsIn IsPlain (p.literalWithin types (depth + 1) id) ∨
      p.literalWithin types (depth + 1) id = "<>" ∨
      ∃ s, EndsIn (· ≠ 't') s ∧ p.literalWithin types (depth + 1) id = s ++ ">" := by
  rw [literalWithin]
  split
  · exact .inl ⟨'?', by decide, by decide, by decide⟩
  next k hk =>
    split
    · split
      · exact .inl (endsIn_intText _ _ _)
      · exact .inl ⟨'?', by decide, by decide, by decide⟩
    · exact .inl (endsIn_scientific _)
    · exact .inl ⟨'l', by decide, by decide, by decide⟩
    · exact .inl ⟨'r', by decide, by decide, by decide⟩
    · exact .inl ⟨'f', by decide, by decide, by decide⟩
    next elements =>
      dsimp only
      rcases brackets_cases ((types.lookup k.type).getD .void) with ⟨hclosing, hboth⟩ | hvector
      · left
        split
        · exact hboth
        · exact hclosing.append _
      · rw [hvector]
        right
        split
        · exact .inl rfl
        next hne =>
          refine .inr ⟨_, .append (.commaList ?_ ?_) _, rfl⟩
          · simpa using hne
          · intro s hs
            obtain ⟨id, -, rfl⟩ := List.mem_map.1 hs
            exact (ih id).append _

theorem endsIn_literalWithin (p : ConstantPool) (types : TypeRegistry) (depth id : Nat) :
    EndsIn (· ≠ 't') (p.literalWithin types depth id) := by
  induction depth generalizing id with
  | zero =>
    rw [literalWithin]
    exact ⟨'?', by decide, by decide⟩
  | succ depth ih =>
    have hangle : EndsIn (· ≠ 't') ">" := ⟨'>', by decide, by decide⟩
    rcases literalWithin_cases p types depth id ih with h | h | ⟨s, -, h⟩
    · exact h.mono fun _ hc => hc.1
    · exact h ▸ hangle.append "<"
    · exact h ▸ hangle.append s

theorem literalWithin_ne (p : ConstantPool) (types : TypeRegistry) (depth id : Nat) :
    p.literalWithin types depth id ≠ "<invalid constant>" := by
  cases depth with
  | zero =>
    rw [literalWithin]
    decide
  | succ depth =>
    intro he
    rcases literalWithin_cases p types depth id (endsIn_literalWithin p types depth) with
      ⟨c, hc, hplain⟩ | h | ⟨s, ⟨c, hc, ht⟩, h⟩
    · rw [he] at hc
      exact hplain.2 (Option.some.inj hc).symm
    · rw [he] at h
      exact absurd h (by decide)
    · rw [he] at h
      have hs : "<invalid constant".toList = s.toList := by
        have hl : "<invalid constant".toList ++ [ '>'] = s.toList ++ [ '>'] := by
          simpa using congrArg String.toList h
        exact List.append_cancel_right hl
      rw [← hs] at hc
      exact ht (Option.some.inj hc).symm

theorem literal_eq_invalid_iff :
    p.literal types v = "<invalid constant>" ↔ p.lookup types.context v = none := by
  rw [literal]
  cases p.lookup types.context v with
  | none => simp
  | some k => simpa using literalWithin_ne p types v.id v.id

end ConstantPool

end TypedIR
