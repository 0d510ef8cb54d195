import TypedIR.Proofs.Registry.Key
import TypedIR.Proofs.Registry.Texts

/-! Types that can be read off their texts. The first letter of a text tells the kind of the type, and what
stands behind a type within another one belongs to no type. Where names of structs are plain, no two types
of a registry are written alike. -/

namespace TypedIR

def isNameChar (c : Char) : Bool := c.isAlphanum || c = '_' || c = '.' || 127 < c.toNat

def endsType : List Char → Bool
  | [] => true
  | ' ' :: c :: _ => c = '}' || c = '('
  | c :: _ => c = ',' || c = ']' || c = '>' || c = ')'

def endsTypes : List Char → Bool
  | ' ' :: '}' :: _ => true
  | ')' :: _ => true
  | _ => false

variable {xs ys : List Char} {n : Nat}

theorem endsType_of_endsTypes (h : endsTypes xs) : endsType xs := by
  unfold endsTypes at h
  split at h
  next => rfl
  next => rfl
  next => cases h

theorem isNameChar_of_endsType (h : endsType xs) : ∀ c ∈ xs.head?, isNameChar c = false := by
  unfold endsType at h
  split at h
  next => simp
  next => simp [isNameChar]
  next =>
    rintro c hc
    obtain rfl := Option.some.inj hc
    simp only [Bool.or_eq_true, decide_eq_true_eq] at h
    rcases h with ((rfl | rfl) | rfl) | rfl <;> decide

theorem isDigit_of_endsType (h : endsType xs) : ∀ c ∈ xs.head?, c.isDigit = false := by
  intro c hc
  have hname := isNameChar_of_endsType h c hc
  simp only [isNameChar, Char.isAlphanum, Bool.or_eq_false_iff] at hname
  exact hname.1.1.1.2

theorem toDigits_append_ne_cons {c : Char} (hc : c.isDigit = false) :
    Nat.toDigits 10 n ++ xs ≠ c :: ys := by
  intro h
  cases hd : Nat.toDigits 10 n with
  | nil => simp at hd
  | cons d ds =>
    have hdigit : d.isDigit := Nat.isDigit_of_mem_toDigits (b := 10) (n := n) (by decide) (by decide)
      (by rw [hd]; exact List.mem_cons_self)
    rw [hd, List.cons_append, List.cons.injEq] at h
    rw [h.1, hc] at hdigit
    cases hdigit

namespace TypeTree

theorem toList_int (bits : Nat) : (int bits).text.toList = 'i' :: Nat.toDigits 10 bits := by
  have h : (int bits).text = "i" ++ toString bits := by
    rw [text]
    rfl
  simp [h]

theorem toList_pointer (space : Nat) : (pointer space).text.toList =
    'p' :: 't' :: 'r' :: if space = 0 then [] else " addrspace(".toList ++ (Nat.toDigits 10 space ++ [')']) := by
  have h : (pointer space).text =
      if space = 0 then "ptr" else "ptr addrspace(" ++ toString space ++ ")" := by
    rw [text]
    rfl
  rw [h]
  split <;> simp

theorem toList_array (T : TypeTree) (count : UInt64) : (array T count).text.toList =
    '[' :: (Nat.toDigits 10 count.toNat ++ ' ' :: 'x' :: ' ' :: (T.text.toList ++ [']'])) := by
  have h : (array T count).text = "[" ++ toString count.toNat ++ " x " ++ T.text ++ "]" := by
    rw [text]
    rfl
  simp [h]

theorem toList_vector (T : TypeTree) (count : UInt64) : (vector T count).text.toList =
    '<' :: (Nat.toDigits 10 count.toNat ++ ' ' :: 'x' :: ' ' :: (T.text.toList ++ ['>'])) := by
  have h : (vector T count).text = "<" ++ toString count.toNat ++ " x " ++ T.text ++ ">" := by
    rw [text]
    rfl
  simp [h]

theorem toList_named (name : String) : (named name).text.toList = '%' :: name.toList := by
  simp [text]

end TypeTree

def itemChars : Option TypeTree → List Char
  | none => ['.', '.', '.']
  | some T => T.text.toList

def listChars : List (Option TypeTree) → List Char
  | [] => []
  | [i] => itemChars i
  | i :: j :: is => itemChars i ++ ',' :: ' ' :: listChars (j :: is)

theorem toList_commaList {texts : List String} {is : List (Option TypeTree)}
    (h : texts.map String.toList = is.map itemChars) : (commaList texts).toList = listChars is := by
  rw [commaList, String.toList_intercalate, h]
  clear h
  induction is with
  | nil => rfl
  | cons i is ih =>
    cases is with
    | nil => simp [listChars]
    | cons j is =>
      rw [List.map_cons, List.map_cons, List.intercalate_cons_cons, ← List.map_cons, ih, listChars]
      simp

def fieldChars (Ts : List TypeTree) : List Char :=
  if Ts.isEmpty then [] else ' ' :: (listChars (Ts.map some) ++ [' '])

namespace TypeTree

theorem toList_struct (Ts : List TypeTree) (packed : Bool) : (struct Ts packed).text.toList =
    if packed then '<' :: '{' :: (fieldChars Ts ++ ['}', '>']) else '{' :: (fieldChars Ts ++ ['}']) := by
  have hlist : (commaList (texts Ts)).toList = listChars (Ts.map some) :=
    toList_commaList (by simp [texts_eq_map, itemChars, Function.comp_def])
  have hinner : (if (texts Ts).isEmpty then "" else " " ++ commaList (texts Ts) ++ " ").toList =
      fieldChars Ts := by
    rw [fieldChars, texts_eq_map, List.isEmpty_map, ← texts_eq_map]
    split <;> simp [hlist]
  obtain ⟨inner, hinner, h⟩ : ∃ inner : String, inner.toList = fieldChars Ts ∧ (struct Ts packed).text =
      if packed then "<\x7b" ++ inner ++ "\x7d>" else "\x7b" ++ inner ++ "\x7d" := by
    refine ⟨_, hinner, ?_⟩
    rw [text]
    rfl
  rw [h]
  cases packed <;> simp [hinner]

theorem toList_fn (T : TypeTree) (Ts : List TypeTree) (variadic : Bool) :
    (fn T Ts variadic).text.toList = T.text.toList ++ ' ' :: '(' ::
      (listChars (Ts.map some ++ if variadic then [none] else []) ++ [')']) := by
  have hlist : (commaList (texts Ts ++ if variadic then ["..."] else [])).toList =
      listChars (Ts.map some ++ if variadic then [none] else []) := by
    refine toList_commaList ?_
    cases variadic <;> simp [texts_eq_map, itemChars, Function.comp_def]
  have h : (fn T Ts variadic).text =
      T.text ++ " (" ++ commaList (texts Ts ++ if variadic then ["..."] else []) ++ ")" := by
    rw [text]
    rfl
  simp [h, hlist]

end TypeTree

/-- Types that are written so that they can be read off: no signature is among them, names are plain and
formats are declared. -/
inductive Spelled : TypeTree → Prop
  | void : Spelled .void
  | int (bits : Nat) : Spelled (.int bits)
  | float {kind : FloatKind} (h : ∀ n, kind ≠ .undeclared n) : Spelled (.float kind)
  | pointer (space : Nat) : Spelled (.pointer space)
  | array {T : TypeTree} (count : UInt64) (h : Spelled T) : Spelled (.array T count)
  | vector {T : TypeTree} (count : UInt64) (h : Spelled T) : Spelled (.vector T count)
  | struct {Ts : List TypeTree} (packed : Bool) (h : ∀ T ∈ Ts, Spelled T) : Spelled (.struct Ts packed)
  | named {name : String} (h : ∀ c ∈ name.toList, isNameChar c) : Spelled (.named name)

/-- Whatever it is followed by, the text of the type is not mistaken for that of another one. -/
def ReadsOff (T : TypeTree) : Prop := ∀ U xs ys, Spelled U → endsType xs → endsType ys →
  T.text.toList ++ xs = U.text.toList ++ ys → T = U ∧ xs = ys

variable {T U : TypeTree}

theorem Spelled.first (h : Spelled T) : ∃ c cs, T.text.toList = c :: cs ∧
    c ∈ ['v', 'i', 'h', 'f', 'd', 'p', '[', '<', '{', '%'] := by
  cases h with
  | void => exact ⟨_, _, by rw [TypeTree.text]; rfl, by decide⟩
  | int bits => exact ⟨_, _, TypeTree.toList_int bits, by decide⟩
  | @float kind hk =>
    rw [TypeTree.text]
    cases kind with
    | undeclared n => exact absurd rfl (hk n)
    | _ => exact ⟨_, _, rfl, by decide⟩
  | pointer space => exact ⟨_, _, TypeTree.toList_pointer space, by decide⟩
  | array count => exact ⟨_, _, TypeTree.toList_array _ count, by decide⟩
  | vector count => exact ⟨_, _, TypeTree.toList_vector _ count, by decide⟩
  | struct packed =>
    rw [TypeTree.toList_struct]
    cases packed
    · exact ⟨_, _, rfl, by decide⟩
    · exact ⟨_, _, rfl, by decide⟩
  | named => exact ⟨_, _, TypeTree.toList_named _, by decide⟩

theorem item_inj {i j : Option TypeTree} (hi : ∀ T ∈ i, ReadsOff T ∧ Spelled T) (hj : ∀ U ∈ j, Spelled U)
    (hx : endsType xs) (hy : endsType ys) (h : itemChars i ++ xs = itemChars j ++ ys) :
    i = j ∧ xs = ys := by
  cases i with
  | none =>
    cases j with
    | none => exact ⟨rfl, List.append_cancel_left h⟩
    | some U =>
      obtain ⟨c, cs, hU, hc⟩ := (hj U rfl).first
      simp only [itemChars, hU, List.cons_append, List.cons.injEq] at h
      simp [← h.1] at hc
  | some T =>
    cases j with
    | none =>
      obtain ⟨c, cs, hT, hc⟩ := (hi T rfl).2.first
      simp only [itemChars, hT, List.cons_append, List.cons.injEq] at h
      simp [h.1] at hc
    | some U =>
      obtain ⟨rfl, hxy⟩ := (hi T rfl).1 U xs ys (hj U rfl) hx hy h
      exact ⟨rfl, hxy⟩

theorem listChars_cons (i : Option TypeTree) (is : List (Option TypeTree)) :
    listChars (i :: is) = itemChars i ++ if is = [] then [] else ',' :: ' ' :: listChars is := by
  cases is <;> simp [listChars]

theorem endsType_rest (hx : endsTypes xs) (is : List (Option TypeTree)) :
    endsType ((if is = [] then [] else ',' :: ' ' :: listChars is) ++ xs) := by
  split
  next => exact endsType_of_endsTypes hx
  next => rfl

theorem not_endsTypes_listChars {i : Option TypeTree} (hi : ∀ T ∈ i, Spelled T)
    (is : List (Option TypeTree)) (xs : List Char) : endsTypes (listChars (i :: is) ++ xs) = false := by
  rw [listChars_cons]
  cases i with
  | none => rfl
  | some T =>
    obtain ⟨c, cs, hT, hc⟩ := (hi T rfl).first
    rw [itemChars, hT]
    simp only [List.mem_cons, List.not_mem_nil, or_false] at hc
    rcases hc with rfl | rfl | rfl | rfl | rfl | rfl | rfl | rfl | rfl | rfl <;> rfl

theorem listChars_inj {is js : List (Option TypeTree)}
    (hi : ∀ i ∈ is, ∀ T ∈ i, ReadsOff T ∧ Spelled T) (hj : ∀ j ∈ js, ∀ U ∈ j, Spelled U)
    (hx : endsTypes xs) (hy : endsTypes ys) (h : listChars is ++ xs = listChars js ++ ys) :
    is = js ∧ xs = ys := by
  induction is generalizing js with
  | nil =>
    cases js with
    | nil => exact ⟨rfl, h⟩
    | cons j js =>
      have hends := not_endsTypes_listChars (hj j List.mem_cons_self) js ys
      rw [← h, listChars, List.nil_append, hx] at hends
      cases hends
  | cons i is ih =>
    have hi' := fun T hT => (hi i List.mem_cons_self T hT).2
    cases js with
    | nil =>
      have hends := not_endsTypes_listChars hi' is xs
      rw [h, listChars, List.nil_append, hy] at hends
      cases hends
    | cons j js =>
      rw [listChars_cons, listChars_cons, List.append_assoc, List.append_assoc] at h
      obtain ⟨rfl, hrest⟩ := item_inj (hi i List.mem_cons_self) (hj j List.mem_cons_self)
        (endsType_rest hx is) (endsType_rest hy js) h
      by_cases his : is = [] <;> by_cases hjs : js = []
      · subst his hjs
        exact ⟨rfl, by simpa using hrest⟩
      · subst his
        simp only [if_true, hjs, if_false, List.nil_append] at hrest
        rw [hrest] at hx
        cases hx
      · subst hjs
        simp only [if_true, his, if_false, List.nil_append] at hrest
        rw [← hrest] at hy
        cases hy
      · simp only [his, hjs, if_false, List.cons_append, List.cons.injEq, true_and] at hrest
        obtain ⟨rfl, hxy⟩ := ih (fun i hi' => hi i (List.mem_cons_of_mem _ hi'))
          (fun j hj' => hj j (List.mem_cons_of_mem _ hj')) hrest
        exact ⟨rfl, hxy⟩

theorem fieldChars_inj {Ts Us : List TypeTree} {xs ys : List Char} (hT : ∀ T ∈ Ts, ReadsOff T ∧ Spelled T)
    (hU : ∀ U ∈ Us, Spelled U) (h : fieldChars Ts ++ '}' :: xs = fieldChars Us ++ '}' :: ys) :
    Ts = Us ∧ xs = ys := by
  rw [fieldChars, fieldChars] at h
  cases Ts with
  | nil =>
    cases Us with
    | nil => exact ⟨rfl, by simpa using h⟩
    | cons U Us => simp at h
  | cons T Ts =>
    cases Us with
    | nil => simp at h
    | cons U Us =>
      have h : listChars ((T :: Ts).map some) ++ ' ' :: '}' :: xs =
          listChars ((U :: Us).map some) ++ ' ' :: '}' :: ys := by simpa using h
      obtain ⟨hTU, hxy⟩ := listChars_inj (by simpa using hT) (by simpa using hU) rfl rfl h
      exact ⟨List.map_injective_iff.2 (fun _ _ => Option.some.inj) hTU, by simpa using hxy⟩

theorem counted_inj {count count' : UInt64} {c : Char} (hT : ReadsOff T) (hU : Spelled U)
    (hc : endsType (c :: xs)) (hc' : endsType (c :: ys))
    (h : Nat.toDigits 10 count.toNat ++ ' ' :: 'x' :: ' ' :: (T.text.toList ++ c :: xs) =
      Nat.toDigits 10 count'.toNat ++ ' ' :: 'x' :: ' ' :: (U.text.toList ++ c :: ys)) :
    count = count' ∧ T = U ∧ xs = ys := by
  obtain ⟨hcount, hrest⟩ := digits_append_inj (by simp) (by simp) h
  simp only [List.cons.injEq, true_and] at hrest
  obtain ⟨hTU, hxy⟩ := hT U _ _ hU hc hc' hrest
  exact ⟨UInt64.toNat_inj.1 hcount, hTU, List.tail_eq_of_cons_eq hxy⟩

def TypeTree.mark : TypeTree → Char
  | void => 'v'
  | int _ => 'i'
  | float _ => 'f'
  | pointer _ => 'p'
  | array .. => '['
  | vector .. => '<'
  | struct .. => '{'
  | named _ => '%'
  | fn .. => '('

def markOf : List Char → Char
  | 'h' :: _ | 'd' :: _ => 'f'
  | '<' :: '{' :: _ => '{'
  | c :: _ => c
  | [] => '('

theorem Spelled.markOf_eq (hT : Spelled T) (xs : List Char) : markOf (T.text.toList ++ xs) = T.mark := by
  cases hT with
  | void =>
    rw [TypeTree.text]
    rfl
  | int bits =>
    rw [TypeTree.toList_int]
    rfl
  | @float kind hk =>
    rw [TypeTree.text]
    cases kind with
    | undeclared n => exact absurd rfl (hk n)
    | _ => rfl
  | pointer space =>
    rw [TypeTree.toList_pointer]
    rfl
  | array count =>
    rw [TypeTree.toList_array]
    rfl
  | @vector T count =>
    rw [TypeTree.toList_vector, List.cons_append, List.append_assoc]
    unfold markOf
    split
    next h => cases h
    next h => cases h
    next h => exact absurd (List.tail_eq_of_cons_eq h) (toDigits_append_ne_cons (by decide))
    next h => exact (List.cons.inj h).1.symm
    next h => cases h
  | @struct Ts packed =>
    rw [TypeTree.toList_struct]
    cases packed <;> rfl
  | named =>
    rw [TypeTree.toList_named]
    rfl

theorem Spelled.mark_eq (hT : Spelled T) (hU : Spelled U)
    (h : T.text.toList ++ xs = U.text.toList ++ ys) : T.mark = U.mark := by
  rw [← hT.markOf_eq xs, h, hU.markOf_eq]

theorem float_inj {kind kind' : FloatKind} (hk : ∀ n, kind ≠ .undeclared n)
    (hk' : ∀ n, kind' ≠ .undeclared n)
    (h : kind.spelling.toList ++ xs = kind'.spelling.toList ++ ys) : kind = kind' ∧ xs = ys := by
  obtain rfl : kind = kind' := by
    cases kind <;> cases kind' <;>
      first | rfl | exact absurd rfl (hk _) | exact absurd rfl (hk' _) | simp [FloatKind.spelling] at h
  exact ⟨rfl, List.append_cancel_left h⟩

open TypeTree in
theorem Spelled.readsOff (hT : Spelled T) : ReadsOff T := by
  -- By induction on the type: the first letters tell its kind, then its parts are read off one
  -- after the other, each up to what may stand behind a type.
  induction hT with
  | void =>
    intro U xs ys hU hx hy h
    have hmark := Spelled.void.mark_eq hU h
    cases hU with
    | void => exact ⟨rfl, List.append_cancel_left h⟩
    | _ => simp [mark] at hmark
  | int bits =>
    intro U xs ys hU hx hy h
    have hmark := (Spelled.int bits).mark_eq hU h
    cases hU with
    | int bits' =>
      simp only [toList_int, List.cons_append, List.cons.injEq, true_and] at h
      obtain ⟨rfl, hxy⟩ := digits_append_inj (isDigit_of_endsType hx) (isDigit_of_endsType hy) h
      exact ⟨rfl, hxy⟩
    | _ => simp [mark] at hmark
  | float hk =>
    intro U xs ys hU hx hy h
    have hmark := (Spelled.float hk).mark_eq hU h
    cases hU with
    | float hk' =>
      rw [text, text] at h
      obtain ⟨rfl, hxy⟩ := float_inj hk hk' h
      exact ⟨rfl, hxy⟩
    | _ => simp [mark] at hmark
  | pointer space =>
    intro U xs ys hU hx hy h
    have hmark := (Spelled.pointer space).mark_eq hU h
    cases hU with
    | pointer space' =>
      simp only [toList_pointer, List.cons_append, List.cons.injEq, true_and] at h
      -- Behind the word alone no address space may follow, for a type may not go on like that.
      by_cases hs : space = 0 <;> by_cases hs' : space' = 0
      · simp only [hs, hs', if_true, List.nil_append] at h
        exact ⟨by rw [hs, hs'], h⟩
      · simp only [hs, hs', if_true, if_false, List.nil_append] at h
        rw [h] at hx
        cases hx
      · simp only [hs, hs', if_true, if_false, List.nil_append] at h
        rw [← h] at hy
        cases hy
      · simp only [hs, hs', if_false, List.append_assoc] at h
        obtain ⟨rfl, hxy⟩ := digits_append_inj (by simp) (by simp) (List.append_cancel_left h)
        exact ⟨rfl, by simpa using hxy⟩
    | _ => simp [mark] at hmark
  | array count hT ih =>
    intro U xs ys hU hx hy h
    have hmark := (Spelled.array count hT).mark_eq hU h
    cases hU with
    | array count' hU =>
      simp only [toList_array, List.cons_append, List.append_assoc, List.cons.injEq, true_and] at h
      obtain ⟨rfl, rfl, hxy⟩ := counted_inj ih hU rfl rfl h
      exact ⟨rfl, hxy⟩
    | _ => simp [mark] at hmark
  | vector count hT ih =>
    intro U xs ys hU hx hy h
    have hmark := (Spelled.vector count hT).mark_eq hU h
    cases hU with
    | vector count' hU =>
      simp only [toList_vector, List.cons_append, List.append_assoc, List.cons.injEq, true_and] at h
      obtain ⟨rfl, rfl, hxy⟩ := counted_inj ih hU rfl rfl h
      exact ⟨rfl, hxy⟩
    | _ => simp [mark] at hmark
  | struct packed hTs ih =>
    intro U xs ys hU hx hy h
    have hmark := (Spelled.struct packed hTs).mark_eq hU h
    cases hU with
    | struct packed' hUs =>
      have hfields := fun T hT => And.intro (ih T hT) (hTs T hT)
      rw [toList_struct, toList_struct] at h
      obtain rfl : packed = packed' := by
        cases packed <;> cases packed' <;> simp at h <;> rfl
      cases packed with
      | false =>
        simp only [Bool.false_eq_true, if_false, List.cons_append, List.append_assoc, List.nil_append,
          List.cons.injEq, true_and] at h
        obtain ⟨rfl, hxy⟩ := fieldChars_inj hfields hUs h
        exact ⟨rfl, hxy⟩
      | true =>
        simp only [if_true, List.cons_append, List.append_assoc, List.nil_append, List.cons.injEq,
          true_and] at h
        obtain ⟨rfl, hxy⟩ := fieldChars_inj hfields hUs h
        exact ⟨rfl, List.tail_eq_of_cons_eq hxy⟩
    | _ => simp [mark] at hmark
  | named hname =>
    intro U xs ys hU hx hy h
    have hmark := (Spelled.named hname).mark_eq hU h
    cases hU with
    | named hname' =>
      simp only [toList_named, List.cons_append, List.cons.injEq, true_and] at h
      obtain ⟨he, hxy⟩ := append_inj_of_all hname hname' (isNameChar_of_endsType hx)
        (isNameChar_of_endsType hy) h
      exact ⟨by rw [String.toList_inj.1 he], hxy⟩
    | _ => simp [mark] at hmark

inductive Legible : TypeTree → Prop
  | data {T : TypeTree} (h : Spelled T) : Legible T
  | signature {T : TypeTree} {Ts : List TypeTree} (variadic : Bool) (h : Spelled T)
    (hs : ∀ S ∈ Ts, Spelled S) : Legible (.fn T Ts variadic)

theorem signature_inj {Ts Us : List TypeTree} {variadic variadic' : Bool} (hTs : ∀ T ∈ Ts, Spelled T)
    (hUs : ∀ U ∈ Us, Spelled U)
    (h : listChars (Ts.map some ++ if variadic then [none] else []) ++ [')'] =
      listChars (Us.map some ++ if variadic' then [none] else []) ++ [')']) :
    Ts = Us ∧ variadic = variadic' := by
  have hitems {Ts : List TypeTree} (variadic : Bool) (hTs : ∀ T ∈ Ts, Spelled T) :
      ∀ i ∈ Ts.map some ++ (if variadic then [none] else []), ∀ T ∈ i, Spelled T := by
    rintro i hi T rfl
    exact hTs T (by cases variadic <;> simpa using hi)
  obtain ⟨hlist, -⟩ := listChars_inj
    (fun i hi T hT => ⟨(hitems variadic hTs i hi T hT).readsOff, hitems variadic hTs i hi T hT⟩)
    (hitems variadic' hUs) rfl rfl h
  have hv : variadic = variadic' := by
    have hnone := congrArg (none ∈ ·) hlist
    cases variadic <;> cases variadic' <;> simp at hnone <;> rfl
  subst hv
  exact ⟨List.map_injective_iff.2 (fun _ _ => Option.some.inj) (List.append_cancel_right hlist), rfl⟩

open TypeTree in
theorem Legible.eq_of_text_eq (hT : Legible T) (hU : Legible U) (h : T.text = U.text) : T = U := by
  have h := congrArg String.toList h
  cases hT with
  | data hT =>
    cases hU with
    | data hU => exact (hT.readsOff U [] [] hU rfl rfl (by simpa using h)).1
    | signature variadic' hU hUs =>
      rw [toList_fn] at h
      have hrest := (hT.readsOff _ [] _ hU rfl rfl (by simpa using h)).2
      cases hrest
  | signature variadic hT hTs =>
    cases hU with
    | data hU =>
      rw [toList_fn] at h
      have hrest := (hT.readsOff _ _ [] hU rfl rfl (by simpa using h)).2
      cases hrest
    | signature variadic' hU hUs =>
      rw [toList_fn, toList_fn] at h
      obtain ⟨rfl, hrest⟩ := hT.readsOff _ _ _ hU rfl rfl h
      obtain ⟨rfl, rfl⟩ := signature_inj hTs hUs (by simpa using hrest)
      rfl

namespace TypeDesc

def isPlain : TypeDesc → Bool
  | named name _ => name.toList.all isNameChar
  | float (.undeclared _) => false
  | _ => true

def isSignature : TypeDesc → Bool
  | fn .. => true
  | _ => false

end TypeDesc

namespace TypeRegistry

variable {r : TypeRegistry} {t u : TypeRef} {d : TypeDesc}

theorem lookup_of_admits (h : r.Admits d) : ∀ p ∈ d.components,
    ∃ e, r.lookup p = some e ∧ e.isSignature = false := by
  have hsized {p : TypeRef} (hp : r.isSized p) : ∃ e, r.lookup p = some e ∧ e.isSignature = false := by
    obtain ⟨e, he, hs⟩ := isSized_iff.1 hp
    refine ⟨e, he, ?_⟩
    cases e <;> first | rfl | cases hs
  intro p hp
  cases d with
  | array elem count =>
    obtain rfl := List.mem_singleton.1 hp
    exact hsized h
  | vector elem count =>
    obtain rfl := List.mem_singleton.1 hp
    obtain ⟨-, e, he, hs⟩ := h
    refine ⟨e, he, ?_⟩
    cases e <;> first | rfl | cases hs
  | struct fields packed => exact hsized (h p hp)
  | fn result params variadic =>
    rcases List.mem_cons.1 hp with rfl | hp
    · rcases h.1 with hv | hs
      · exact ⟨_, hv, rfl⟩
      · exact hsized hs
    · exact hsized (h.2 p hp)
  | _ => simp [TypeDesc.components, TypeDesc.parts] at hp

theorem Reachable.spelled (h : r.Reachable) (hl : r.disposed = false) (hp : ∀ d ∈ r.arena, d.isPlain)
    {T : TypeTree} (hd : r.lookup t = some d) (hs : d.isSignature = false) (hT : r.tree? t = some T) :
    Spelled T := by
  have hc := (h.canonical_and_founded hl).1
  obtain ⟨n, hn⟩ : ∃ n, t.id = n := ⟨_, rfl⟩
  induction n using Nat.strongRecOn generalizing t d T with
  | ind n ih =>
    subst hn
    have hplain := hp d (mem_arena_of_lookup hd)
    have hpart {p : TypeRef} {S : TypeTree} (hn : d.isNamed = false) (hp : p ∈ d.components)
        (hS : r.tree? p = some S) : Spelled S := by
      obtain ⟨e, he, hes⟩ := lookup_of_admits (h.admits hl hd hn) p hp
      exact ih p.id (hc.descends t d hd p hp) he hes hS rfl
    rw [hc.tree?_eq hd] at hT
    cases T with
    | void => exact .void
    | int bits => exact .int bits
    | float kind =>
      obtain rfl := TypeDesc.tree?_eq_float_iff.1 hT
      refine .float fun n hk => ?_
      rw [hk] at hplain
      cases hplain
    | pointer space => exact .pointer space
    | array S count =>
      obtain ⟨p, hS, rfl⟩ := TypeDesc.tree?_eq_array_iff.1 hT
      exact .array count (hpart rfl List.mem_cons_self hS)
    | vector S count =>
      obtain ⟨p, hS, rfl⟩ := TypeDesc.tree?_eq_vector_iff.1 hT
      exact .vector count (hpart rfl List.mem_cons_self hS)
    | struct Ss packed =>
      obtain ⟨fields, hf, rfl⟩ := TypeDesc.tree?_eq_struct_iff.1 hT
      refine .struct packed fun S hS => ?_
      obtain ⟨p, hp, hpS⟩ := exists_of_mem_mapM hf hS
      exact hpart rfl hp hpS
    | named name =>
      obtain ⟨body, rfl⟩ := TypeDesc.tree?_eq_named_iff.1 hT
      exact .named (List.all_eq_true.1 hplain)
    | fn S Ss variadic =>
      obtain ⟨result, params, -, -, rfl⟩ := TypeDesc.tree?_eq_fn_iff.1 hT
      cases hs

theorem Reachable.legible (h : r.Reachable) (hl : r.disposed = false) (hp : ∀ d ∈ r.arena, d.isPlain)
    {T : TypeTree} (ht : r.owns t) (hT : r.tree? t = some T) : Legible T := by
  obtain ⟨d, hd⟩ := owns_iff.1 ht
  cases hs : d.isSignature with
  | false => exact .data (h.spelled hl hp hd hs hT)
  | true =>
    cases d with
    | fn result params variadic =>
      obtain ⟨R, Ps, hR, hPs, hfn⟩ := (h.canonical_and_founded hl).1.tree?_fn hd
      obtain rfl := Option.some.inj (hfn.symm.trans hT)
      have hpart {p : TypeRef} {S : TypeTree} (hmem : p ∈ result :: params) (hS : r.tree? p = some S) :
          Spelled S := by
        obtain ⟨e, he, hes⟩ := lookup_of_admits (h.admits hl hd rfl) p hmem
        exact h.spelled hl hp he hes hS
      refine .signature variadic (hpart List.mem_cons_self hR) fun S hS => ?_
      obtain ⟨p, hmem, hpS⟩ := exists_of_mem_mapM hPs hS
      exact hpart (List.mem_cons_of_mem _ hmem) hpS
    | _ => cases hs

/-- Where the names of structs are plain and the formats of floats declared, the text of a type is the
text of no other type. -/
theorem eq_iff_text_eq (h : r.Reachable) (hl : r.disposed = false) (hp : ∀ d ∈ r.arena, d.isPlain)
    (ht : r.owns t) (hu : r.owns u) : t = u ↔ r.text t = r.text u := by
  have hc := (h.canonical_and_founded hl).1
  constructor
  · rintro rfl
    rfl
  · intro heq
    obtain ⟨T, hT⟩ := Option.isSome_iff_exists.1 (hc.isSome_tree? ht)
    obtain ⟨U, hU⟩ := Option.isSome_iff_exists.1 (hc.isSome_tree? hu)
    rw [hc.text_eq hT, hc.text_eq hU] at heq
    obtain rfl := (h.legible hl hp ht hT).eq_of_text_eq (h.legible hl hp hu hU) heq
    exact hc.eq_of_tree?_eq hT hU ht hu

def lookalikes : TypeRegistry :=
  (empty 1 64).afterAll
    [.type (.int 1), .type (.named "i1"), .type (.struct [⟨1, 1⟩] false), .type (.struct [⟨1, 1⟩] true),
      .type (.vector ⟨1, 1⟩ 1), .type (.array ⟨1, 1⟩ 1), .type (.pointer 0), .type (.pointer 1),
      .type (.fn ⟨1, 7⟩ [⟨1, 1⟩] false), .type (.fn ⟨1, 7⟩ [] true), .type (.fn ⟨1, 8⟩ [⟨1, 1⟩] true)]

theorem eq_iff_text_eq_lookalikes : lookalikes.Reachable ∧ lookalikes.disposed = false ∧
    (∀ d ∈ lookalikes.arena, d.isPlain) ∧
    (List.range' 1 11).map (fun id => lookalikes.text ⟨1, id⟩) =
      ["i1", "%i1", "\x7b i1 \x7d", "<\x7b i1 \x7d>", "<1 x i1>", "[1 x i1]", "ptr",
        "ptr addrspace(1)", "ptr (i1)", "ptr (...)", "ptr addrspace(1) (i1, ...)"] ∧
    ∀ t u, lookalikes.owns t → lookalikes.owns u → (t = u ↔ lookalikes.text t = lookalikes.text u) := by
  have hr : lookalikes.Reachable := reachable_afterAll 1 64 _
  have hl : lookalikes.disposed = false := by decide
  have hp : ∀ d ∈ lookalikes.arena, d.isPlain := by decide
  exact ⟨hr, hl, hp, by decide, fun t u => eq_iff_text_eq hr hl hp⟩

end TypeRegistry

end TypedIR
