import TypedIR.Proofs.Registry.Invariant

namespace TypedIR

theorem digits_inj {n m : Nat} (h : Nat.toDigits 10 n = Nat.toDigits 10 m) : n = m := by
  simpa using congrArg (Nat.ofDigitChars 10 · 0) h

theorem append_inj_of_all {p : Char → Bool} {as bs xs ys : List Char} (ha : ∀ c ∈ as, p c)
    (hb : ∀ c ∈ bs, p c) (hx : ∀ c ∈ xs.head?, p c = false) (hy : ∀ c ∈ ys.head?, p c = false)
    (h : as ++ xs = bs ++ ys) : as = bs ∧ xs = ys := by
  have hspan {as zs : List Char} (ha : ∀ c ∈ as, p c) (hz : ∀ c ∈ zs.head?, p c = false) :
      (as ++ zs).takeWhile p = as := by
    rw [List.takeWhile_append_of_pos ha]
    cases zs with
    | nil => simp
    | cons c zs => simp [hz c rfl]
  have hab : as = bs := by rw [← hspan ha hx, h, hspan hb hy]
  exact ⟨hab, List.append_cancel_left (hab ▸ h)⟩

theorem digits_append_inj {n m : Nat} {xs ys : List Char} (hx : ∀ c ∈ xs.head?, c.isDigit = false)
    (hy : ∀ c ∈ ys.head?, c.isDigit = false)
    (h : Nat.toDigits 10 n ++ xs = Nat.toDigits 10 m ++ ys) : n = m ∧ xs = ys := by
  have hdigits (k : Nat) : ∀ c ∈ Nat.toDigits 10 k, c.isDigit := fun c hc =>
    Nat.isDigit_of_mem_toDigits (b := 10) (by decide) (by decide) hc
  obtain ⟨hnm, hxy⟩ := append_inj_of_all (hdigits n) (hdigits m) hx hy h
  exact ⟨digits_inj hnm, hxy⟩

def numbersKey : List Nat → String
  | [] => ""
  | n :: ns => toString n ++ "," ++ numbersKey ns

theorem numbersKey_inj {ns ms : List Nat} (h : (numbersKey ns).toList = (numbersKey ms).toList) :
    ns = ms := by
  induction ns generalizing ms with
  | nil =>
    cases ms with
    | nil => rfl
    | cons m ms => simp [numbersKey] at h
  | cons n ns ih =>
    cases ms with
    | nil => simp [numbersKey] at h
    | cons m ms =>
      have h : Nat.toDigits 10 n ++ ',' :: (numbersKey ns).toList =
          Nat.toDigits 10 m ++ ',' :: (numbersKey ms).toList := by simpa [numbersKey] using h
      obtain ⟨rfl, hrest⟩ := digits_append_inj (by simp) (by simp) h
      rw [ih (List.tail_eq_of_cons_eq hrest)]

namespace TypeDesc

def placesKey : List TypeRef → String
  | [] => ""
  | t :: ts => toString t.id ++ "," ++ placesKey ts

/-- The text under which a structural type is found. A named struct is found by its name instead. -/
def key? : TypeDesc → Option String
  | void => some "v"
  | int bits => some ("i" ++ toString bits)
  | float kind => some ("f" ++ toString kind.code)
  | pointer space => some ("p" ++ toString space)
  | array elem count => some ("a" ++ toString count.toNat ++ ":" ++ toString elem.id)
  | vector elem count => some ("x" ++ toString count.toNat ++ ":" ++ toString elem.id)
  | struct fields packed => some ((if packed then "S" else "s") ++ placesKey fields)
  | fn result params variadic =>
    some ("F" ++ (if variadic then "v" else "") ++ ":" ++ toString result.id ++ ":"
      ++ placesKey params)
  | named .. => none

example : (fn ⟨1, 3⟩ [⟨1, 12⟩, ⟨1, 3⟩] true).key? = some "Fv:3:12,3," := by decide

variable {d e : TypeDesc} {ts us : List TypeRef} {n m : Nat}

theorem ref_ext {context : Nat} {t u : TypeRef} (ht : t.context = context)
    (hu : u.context = context) (h : t.id = u.id) : t = u := by
  cases t
  cases u
  simp_all

theorem placesKey_eq (ts : List TypeRef) : placesKey ts = numbersKey (ts.map (·.id)) := by
  induction ts with
  | nil => rfl
  | cons t ts ih => rw [placesKey, List.map_cons, numbersKey, ih]

theorem eq_of_placesKey_eq {context : Nat} (ht : ∀ t ∈ ts, t.context = context)
    (hu : ∀ u ∈ us, u.context = context) (h : (placesKey ts).toList = (placesKey us).toList) :
    ts = us := by
  rw [placesKey_eq, placesKey_eq] at h
  have hids := numbersKey_inj h
  refine List.ext_getElem (by simpa using congrArg List.length hids) fun i hi hi' => ?_
  refine ref_ext (ht _ (List.getElem_mem hi)) (hu _ (List.getElem_mem hi')) ?_
  simpa [hi, hi'] using congrArg (·[i]?) hids

theorem sequence_inj {context : Nat} {elem elem' : TypeRef} {count count' : UInt64}
    (he : elem.context = context) (he' : elem'.context = context)
    (h : Nat.toDigits 10 count.toNat ++ ':' :: Nat.toDigits 10 elem.id =
      Nat.toDigits 10 count'.toNat ++ ':' :: Nat.toDigits 10 elem'.id) :
    elem = elem' ∧ count = count' := by
  obtain ⟨hcount, hrest⟩ := digits_append_inj (by simp) (by simp) h
  exact ⟨ref_ext he he' (digits_inj (List.tail_eq_of_cons_eq hrest)), UInt64.toNat_inj.1 hcount⟩

theorem eq_of_key?_eq {context : Nat} (hn : d.isNamed = false)
    (hd : ∀ p ∈ d.parts, p.context = context) (he : ∀ p ∈ e.parts, p.context = context)
    (h : d.key? = e.key?) : d = e := by
  -- The first letter tells the kind of a type and the digits tell its numbers, so structural types
  -- with parts of one context have the same key only if they are the same.
  have h := congrArg (Option.map String.toList) h
  cases d with
  | named => simp [isNamed] at hn
  | void =>
    cases e with
    | void => rfl
    | struct _ packed => cases packed <;> simp [key?] at h
    | _ => simp [key?] at h
  | int bits =>
    cases e with
    | int bits' =>
      have hbits : bits = bits' := digits_inj (by simpa [key?] using h)
      rw [hbits]
    | struct _ packed => cases packed <;> simp [key?] at h
    | _ => simp [key?] at h
  | float kind =>
    cases e with
    | float kind' =>
      have hcode : kind.code = kind'.code := digits_inj (by simpa [key?] using h)
      rw [← FloatKind.ofCode_code kind, hcode, FloatKind.ofCode_code]
    | struct _ packed => cases packed <;> simp [key?] at h
    | _ => simp [key?] at h
  | pointer space =>
    cases e with
    | pointer space' =>
      have hspace : space = space' := digits_inj (by simpa [key?] using h)
      rw [hspace]
    | struct _ packed => cases packed <;> simp [key?] at h
    | _ => simp [key?] at h
  | array elem count =>
    cases e with
    | array elem' count' =>
      obtain ⟨rfl, rfl⟩ := sequence_inj (hd elem (by simp [parts])) (he elem' (by simp [parts]))
        (by simpa [key?] using h)
      rfl
    | struct _ packed => cases packed <;> simp [key?] at h
    | _ => simp [key?] at h
  | vector elem count =>
    cases e with
    | vector elem' count' =>
      obtain ⟨rfl, rfl⟩ := sequence_inj (hd elem (by simp [parts])) (he elem' (by simp [parts]))
        (by simpa [key?] using h)
      rfl
    | struct _ packed => cases packed <;> simp [key?] at h
    | _ => simp [key?] at h
  | struct fields packed =>
    cases e with
    | struct fields' packed' =>
      have hp : packed = packed' := by
        cases packed <;> cases packed' <;> simp [key?] at h <;> rfl
      subst hp
      have hfields : fields = fields' := eq_of_placesKey_eq hd he (by simpa [key?] using h)
      rw [hfields]
    | _ => cases packed <;> simp [key?] at h
  | fn result params variadic =>
    cases e with
    | fn result' params' variadic' =>
      have hv : variadic = variadic' := by
        cases variadic <;> cases variadic' <;> simp [key?] at h <;> rfl
      subst hv
      have hrest : Nat.toDigits 10 result.id ++ ':' :: (placesKey params).toList =
        Nat.toDigits 10 result'.id ++ ':' :: (placesKey params').toList := by simpa [key?] using h
      obtain ⟨hid, hrest⟩ := digits_append_inj (by simp) (by simp) hrest
      obtain ⟨hr, hp⟩ := List.forall_mem_cons.1 hd
      obtain ⟨hr', hp'⟩ := List.forall_mem_cons.1 he
      rw [ref_ext hr hr' hid, eq_of_placesKey_eq hp hp' (List.tail_eq_of_cons_eq hrest)]
    | struct _ packed => cases packed <;> simp [key?] at h
    | _ => simp [key?] at h

end TypeDesc

namespace TypeRegistry

variable {r : TypeRegistry} {d e : TypeDesc} {t : TypeRef}

def internByKey (r : TypeRegistry) (d : TypeDesc) : TypeRef × TypeRegistry :=
  match r.arena.findIdx? fun e => e.key? = d.key? with
  | some position => (r.handle position, r)
  | none => (r.handle r.size, r.push d)

theorem context_of_owns (h : r.owns t) : t.context = r.context := by
  obtain ⟨d, hd⟩ := owns_iff.1 h
  obtain ⟨position, rfl, -⟩ := lookup_eq_some_iff.1 hd
  rfl

theorem exists_lookup_of_mem (h : d ∈ r.arena) : ∃ t, r.lookup t = some d := by
  obtain ⟨position, hp⟩ := List.mem_iff_getElem?.1 h
  exact ⟨r.handle position, by rw [lookup_handle, hp]⟩

theorem findIdx?_congr {α : Type} {p q : α → Bool} {xs : List α} (h : ∀ x ∈ xs, p x = q x) :
    xs.findIdx? p = xs.findIdx? q := by
  induction xs with
  | nil => rfl
  | cons x xs ih =>
    rw [List.findIdx?_cons, List.findIdx?_cons, h x List.mem_cons_self,
      ih fun y hy => h y (List.mem_cons_of_mem x hy)]

theorem Closed.internByKey_eq (h : r.Closed) (hn : d.isNamed = false) (hd : r.Admits d) :
    r.internByKey d = r.intern d := by
  have hparts : ∀ p ∈ d.parts, p.context = r.context := fun p hp =>
    context_of_owns (owns_of_admits hd hn p hp)
  have hkey : ∀ e ∈ r.arena, decide (e.key? = d.key?) = decide (e = d) := by
    intro e he
    obtain ⟨t, ht⟩ := exists_lookup_of_mem he
    refine decide_eq_decide.2 ⟨fun hk => ?_, fun hed => hed ▸ rfl⟩
    have hparts' : ∀ p ∈ e.parts, p.context = r.context := fun p hp =>
      context_of_owns (h t e ht p hp)
    exact (TypeDesc.eq_of_key?_eq hn hparts hparts' hk.symm).symm
  rw [internByKey, TypeRegistry.intern, findIdx?_congr hkey]
  rfl

end TypeRegistry

end TypedIR
