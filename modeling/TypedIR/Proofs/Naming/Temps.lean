import TypedIR.Assembly
import TypedIR.Proofs.Declaration.Writing
import TypedIR.Proofs.Naming.Uses

namespace TypedIR

def Func.generatedName (f : Func) (i : Nat) : String :=
  if i < f.params.length then s!"arg{i}" else s!"t{i}"

theorem toList_arg (n : Nat) : (s!"arg{n}").toList = 'a' :: 'r' :: 'g' :: Nat.toDigits 10 n := by
  change ("arg" ++ toString n).toList = _
  simp

theorem toList_t (n : Nat) : (s!"t{n}").toList = 't' :: Nat.toDigits 10 n := by
  change ("t" ++ toString n).toList = _
  simp

theorem all_isDigit_toDigits (n : Nat) : (Nat.toDigits 10 n).all Char.isDigit :=
  List.all_eq_true.2 fun _ hc => Nat.isDigit_of_mem_toDigits (by decide) (by decide) hc

theorem isReservedName_arg (n : Nat) : isReservedName s!"arg{n}" := by
  rw [isReservedName, toList_arg]
  simp [all_isDigit_toDigits]

theorem isReservedName_t (n : Nat) : isReservedName s!"t{n}" := by
  rw [isReservedName, toList_t]
  simp [all_isDigit_toDigits]

theorem dot_not_mem_of_isReservedName {name : String} (h : isReservedName name) :
    '.' ∉ name.toList := by
  have hdigits {cs : List Char} (hcs : cs.all Char.isDigit) : '.' ∉ cs := fun hm =>
    absurd (List.all_eq_true.1 hcs '.' hm) (by decide)
  simp only [isReservedName] at h
  split at h
  next cs he =>
    rw [Bool.and_eq_true] at h
    simpa [he] using hdigits h.2
  next cs he =>
    rw [Bool.and_eq_true] at h
    simpa [he] using hdigits h.2
  next => simp at h

theorem isReservedName_of_dot {name : String} (h : '.' ∈ name.toList) : isReservedName name = false :=
  Bool.eq_false_iff.2 fun hr => dot_not_mem_of_isReservedName hr h

theorem isReservedName_escaped (name : String) :
    isReservedName (if isReservedName name then name ++ ".0" else name) = false := by
  split
  next => exact isReservedName_of_dot (by simp)
  next h => exact Bool.eq_false_iff.2 h

theorem isReservedName_claim (u : NameUses) {base : String} (h : isReservedName base = false) :
    isReservedName (u.claim base).1 = false := by
  rcases u.claim_cases base with ⟨-, he⟩ | ⟨-, k, -, he⟩
  · rw [he]
    exact h
  · rw [he]
    exact isReservedName_of_dot (by simp [NameUses.toList_suffixed])

namespace Func

variable {f : Func} {i j : Nat}

theorem isReservedName_generatedName (f : Func) (i : Nat) : isReservedName (f.generatedName i) := by
  rw [generatedName]
  split
  · exact isReservedName_arg i
  · exact isReservedName_t i

theorem generatedName_inj (h : f.generatedName i = f.generatedName j) : i = j := by
  have hl := congrArg String.toList h
  simp only [generatedName] at hl
  split at hl <;> split at hl
  · rw [toList_arg, toList_arg] at hl
    exact digits_inj (by simpa using hl)
  · rw [toList_arg, toList_t] at hl
    simp at hl
  · rw [toList_arg, toList_t] at hl
    simp at hl
  · rw [toList_t, toList_t] at hl
    exact digits_inj (List.tail_eq_of_cons_eq hl)

def tempSpelling (f : Func) (i : Nat) : String := (f.tempName? i).getD (f.generatedName i)

theorem tempName?_append {uses : NameUses} {t : Temp} {name : String}
    (h : Func.tempName? { f with temps := f.temps ++ [t], tempUses := uses } i = some name) :
    f.tempName? i = some name ∨ i = f.temps.length ∧ name = t.name ∧ name ≠ "" := by
  simp only [tempName?, Option.filter_eq_some_iff, Option.map_eq_some_iff] at h ⊢
  obtain ⟨⟨x, hx, rfl⟩, hne⟩ := h
  rw [List.getElem?_append] at hx
  split at hx
  · exact .inl ⟨⟨x, hx, rfl⟩, hne⟩
  next hi =>
    have h0 : i - f.temps.length = 0 := by
      have := (List.getElem?_eq_some_iff.1 hx).1
      simp at this
      omega
    obtain rfl : t = x := by simpa [h0] using hx
    exact .inr ⟨by omega, rfl, by simpa using hne⟩

/-- Names that are told apart from each other, and from those that are generated. -/
structure NamesApart (f : Func) : Prop where
  positive : f.tempUses.Positive
  taken : ∀ i name, f.tempName? i = some name → f.tempUses.taken name
  unreserved : ∀ i name, f.tempName? i = some name → isReservedName name = false
  inj : ∀ i j name, f.tempName? i = some name → f.tempName? j = some name → i = j

theorem Bare.namesApart (h : f.Bare) : f.NamesApart := by
  have hnone (i : Nat) : f.tempName? i = none := by
    cases hi : f.temps[i]? with
    | none => simp [tempName?, hi]
    | some t => simp [tempName?, hi, h.unnamed t (List.mem_of_getElem? hi), Option.filter]
  exact ⟨by simp [NameUses.Positive, h.tempUses], by simp [hnone], by simp [hnone], by simp [hnone]⟩

namespace NamesApart

theorem newTemp (h : f.NamesApart) (type : TypeRef) (name : String) :
    (f.newTemp type name).2.NamesApart := by
  rw [Func.newTemp]
  split
  · -- A temporary without a name uses none.
    have hold {i : Nat} {x : String}
        (hi : Func.tempName? { f with temps := f.temps ++ [⟨type, ""⟩] } i = some x) :
        f.tempName? i = some x := (tempName?_append hi).resolve_right fun hx => hx.2.2 hx.2.1
    exact ⟨h.positive, fun i x hi => h.taken i x (hold hi), fun i x hi => h.unreserved i x (hold hi),
      fun i j x hi hj => h.inj i j x (hold hi) (hold hj)⟩
  · generalize hb : (if isReservedName name then name ++ ".0" else name) = base
    have hbase : isReservedName base = false := by
      rw [← hb]
      exact isReservedName_escaped name
    have hnew (x : String) : (f.tempUses.claim base).2.taken x ↔ x = (f.tempUses.claim base).1 ∨
        f.tempUses.taken x := NameUses.taken_claim h.positive
    refine ⟨NameUses.positive_claim h.positive base, fun i x hi => ?_, fun i x hi => ?_,
      fun i j x hi hj => ?_⟩
    · rcases tempName?_append hi with hi | ⟨-, rfl, -⟩
      · exact (hnew x).2 (.inr (h.taken i x hi))
      · exact (hnew _).2 (.inl rfl)
    · rcases tempName?_append hi with hi | ⟨-, rfl, -⟩
      · exact h.unreserved i x hi
      · exact isReservedName_claim f.tempUses hbase
    · -- The old temporaries have names in use, which the new one has not.
      have hfree := NameUses.not_taken_claim h.positive base
      rcases tempName?_append hi with hi | ⟨rfl, rfl, -⟩ <;>
        rcases tempName?_append hj with hj | ⟨rfl, hx, -⟩
      · exact h.inj i j x hi hj
      · rw [hx] at hi
        exact absurd (h.taken i _ hi) hfree
      · exact absurd (h.taken j _ hj) hfree
      · rfl

theorem writes {f' : Func} (h : f.NamesApart) (hw : f.Writes f') : f'.NamesApart := by
  induction hw with
  | refl => exact h
  | temp _ type name ih => exact ih.newTemp type name
  | block _ self label ih => exact ⟨ih.positive, ih.taken, ih.unreserved, ih.inj⟩
  | instrs _ id g hg ih => exact ⟨ih.positive, ih.taken, ih.unreserved, ih.inj⟩

theorem ne_generatedName (h : f.NamesApart) {name : String} (hj : f.tempName? j = some name) (i : Nat) :
    name ≠ f.generatedName i := by
  rintro rfl
  have hres := f.isReservedName_generatedName i
  rw [h.unreserved j _ hj] at hres
  exact Bool.false_ne_true hres

theorem spelling_inj (h : f.NamesApart) (hij : f.tempSpelling i = f.tempSpelling j) : i = j := by
  simp only [tempSpelling] at hij
  cases hi : f.tempName? i with
  | none =>
    cases hj : f.tempName? j with
    | none => exact generatedName_inj (by simpa [hi, hj] using hij)
    | some y =>
      rw [hi, hj, Option.getD_none, Option.getD_some] at hij
      exact absurd hij.symm (h.ne_generatedName hj i)
  | some x =>
    cases hj : f.tempName? j with
    | none =>
      rw [hi, hj, Option.getD_none, Option.getD_some] at hij
      exact absurd hij (h.ne_generatedName hi j)
    | some y =>
      rw [hi, hj, Option.getD_some, Option.getD_some] at hij
      exact h.inj i j x hi (hij ▸ hj)

end NamesApart

/-- Temporaries that are spelled so that each can be told from all others. -/
structure SpelledApart (f : Func) (spelling : Value → String) : Prop where
  apart : ∀ i j u v, f.tempValue? i = some u → f.tempValue? j = some v → i ≠ j →
    spelling u ≠ spelling v
  named : ∀ i v name, f.tempValue? i = some v → f.tempName? i = some name →
    spelling v = "%" ++ name ∧ ∀ n : Nat, spelling v ≠ "%" ++ s!"arg{n}" ∧ spelling v ≠ "%" ++ s!"t{n}"
  generated : ∀ i v, f.tempValue? i = some v → f.tempName? i = none →
    spelling v = "%" ++ f.generatedName i

end Func

namespace Assembly

variable {e : Env} {fn : Func} {i : Nat} {v : Value}

theorem Env.value_temp (he : e.func = some fn) (hv : fn.tempValue? i = some v) :
    e.value v = "%" ++ fn.tempSpelling i := by
  obtain ⟨t, -, rfl⟩ := Option.map_eq_some_iff.1 hv
  rw [Func.tempSpelling, Func.generatedName]
  split
  · simp [value, he, Value.param, Option.filter]
  · simp [value, he, Value.result, Option.filter]

theorem percent_inj {x y : String} (h : "%" ++ x = "%" ++ y) : x = y := by
  have hl := congrArg String.toList h
  rw [String.toList_append, String.toList_append] at hl
  exact String.toList_injective (List.append_cancel_left hl)

theorem Env.spelledApart_of_namesApart (he : e.func = some fn) (h : fn.NamesApart) :
    fn.SpelledApart e.value where
  apart i j u v hu hv hij heq := by
    rw [value_temp he hu, value_temp he hv] at heq
    exact hij (h.spelling_inj (percent_inj heq))
  named i v name hv hn := by
    have hspelling : fn.tempSpelling i = name := by rw [Func.tempSpelling, hn, Option.getD_some]
    rw [value_temp he hv, hspelling]
    have hne {x : String} (hx : isReservedName x) : "%" ++ name ≠ "%" ++ x := by
      intro heq
      rw [← percent_inj heq, h.unreserved i name hn] at hx
      exact Bool.false_ne_true hx
    exact ⟨rfl, fun n => ⟨hne (isReservedName_arg n), hne (isReservedName_t n)⟩⟩
  generated i v hv hn := by rw [value_temp he hv, Func.tempSpelling, hn, Option.getD_none]

end Assembly

namespace World

variable {w : World} {f : FuncRef} {fn : Func} {e : Assembly.Env}

/-- Worlds that come about by operations, and by temporaries that are asked for by hand. -/
inductive Allotted : World → Prop
  | empty : Allotted {}
  | perform {w : World} (h : Allotted w) (o : Operation) : Allotted (w.perform o)
  | newTemp {w : World} (h : Allotted w) (f : FuncRef) (type : TypeRef) (name : String) :
    Allotted (w.newTemp f type name).2

theorem Allotted.namesApart (h : w.Allotted) (hf : w.func? f = some fn) : fn.NamesApart := by
  induction h generalizing fn with
  | empty => exact absurd (lt_of_func? hf) (by simp)
  | @perform w h o ih =>
    rcases writes_or_declares w o f.module with hs | ⟨-, hd⟩
    · obtain ⟨gn, hgn, hw⟩ := hs.funcs f.index fn hf
      exact (ih hgn).writes hw
    · rcases hd.of_func hf with hgn | ⟨_, _, _, _, _, _, _, _, -, -, rfl⟩
      · exact ih hgn
      · exact (Module.bare_newFunc ..).namesApart
  | @newTemp w h g type name ih =>
    obtain ⟨gn, hgn, hw⟩ := (writes_newTemp w g type name).func? hf
    exact (ih hgn).writes hw

/-- Whatever temporaries are called, and in whatever order, none is spelled like another one. -/
theorem Allotted.spelledApart (h : w.Allotted) (hf : w.func? f = some fn) (he : e.func = some fn) :
    fn.SpelledApart e.value :=
  Assembly.Env.spelledApart_of_namesApart he (h.namesApart hf)

theorem Reachable.allotted (h : w.Reachable) : w.Allotted := by
  induction h with
  | empty => exact .empty
  | perform _ o ih => exact ih.perform o

def newTemps (w : World) (f : FuncRef) (type : TypeRef) (names : List String) : World :=
  names.foldl (fun w name => (w.newTemp f type name).2) w

theorem Allotted.newTemps (h : w.Allotted) (f : FuncRef) (type : TypeRef) (names : List String) :
    (w.newTemps f type names).Allotted := by
  induction names generalizing w with
  | nil => exact h
  | cons name names ih => exact ih (h.newTemp f type name)

def lookalikes : World :=
  ([.newContext 64 false, .newModule 1 "m", .type 1 (.int 32), .type 1 (.fn ⟨1, 1⟩ [⟨1, 1⟩] false),
    .declareFunc 0 "f" ⟨1, 2⟩ .exported].foldl perform {}).newTemps ⟨0, 0⟩ ⟨1, 1⟩
    ["t3", "t3.0", "", "arg0", "x", "x.1", "x", ""]

theorem spelledApart_lookalikes : lookalikes.Allotted ∧
    (lookalikes.func ⟨0, 0⟩).temps.map (·.name) =
      ["", "t3.0", "t3.0.1", "", "arg0.0", "x", "x.1", "x.2", ""] ∧
    (lookalikes.func ⟨0, 0⟩).SpelledApart
      { lookalikes.assemblyEnv 0 with func := some (lookalikes.func ⟨0, 0⟩) }.value := by
  have h : lookalikes.Allotted := (reachable_foldl .empty).allotted.newTemps ..
  obtain ⟨fn, hf⟩ := Option.isSome_iff_exists.1 (show (lookalikes.func? ⟨0, 0⟩).isSome by decide)
  refine ⟨h, by decide, ?_⟩
  rw [func_eq hf]
  exact h.spelledApart hf rfl

end World

end TypedIR
