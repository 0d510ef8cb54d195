namespace TypedIR

theorem lookup_eq_some_iff_mem {α β : Type} [BEq α] [LawfulBEq α] {es : List (α × β)} {a : α}
    {b : β} (h : (es.map Prod.fst).Nodup) : es.lookup a = some b ↔ (a, b) ∈ es := by
  induction es with
  | nil => simp
  | cons e es ih =>
    obtain ⟨k, v⟩ := e
    simp only [List.map_cons, List.nodup_cons, List.mem_map, not_exists, not_and] at h
    rw [List.lookup_cons, List.mem_cons, Prod.mk.injEq]
    by_cases hk : a = k
    · subst hk
      have hb : (a, b) ∉ es := fun hb => h.1 (a, b) hb rfl
      simp [hb, eq_comm]
    · simp [beq_false_of_ne hk, hk, ih h.2]

section Places

variable {α β : Type} {f : β → Option α} {xs : List β} {x : β}

/-- The keys of a list with their places, counted from one in 32 bits. -/
def placesOf (f : β → Option α) (xs : List β) : List (α × UInt32) :=
  (xs.map f).zipIdx.filterMap fun e => e.1.map (·, UInt32.ofNat (e.2 + 1))

theorem lookup_filterMap_zipIdx {γ : Type} [DecidableEq α] (g : Nat → γ) (a : α)
    (ks : List (Option α)) (n : Nat) :
    ((ks.zipIdx n).filterMap fun e => e.1.map (·, g e.2)).lookup a =
      (ks.findIdx? (· = some a)).map fun i => g (i + n) := by
  induction ks generalizing n with
  | nil => rfl
  | cons k ks ih =>
    rw [List.zipIdx_cons, List.findIdx?_cons]
    cases k with
    | none => simp [ih, Function.comp_def, Nat.add_assoc, Nat.add_comm 1]
    | some b =>
      simp only [List.filterMap_cons, Option.map_some, List.lookup_cons]
      by_cases h : b = a
      · simp [h]
      · have hab : (a == b) = false := beq_false_of_ne (Ne.symm h)
        simp [h, hab, ih, Function.comp_def, Nat.add_assoc, Nat.add_comm 1]

theorem lookup_placesOf [DecidableEq α] (a : α) : (placesOf f xs).lookup a =
    (xs.findIdx? fun x => f x = some a).map fun i => UInt32.ofNat (i + 1) := by
  rw [placesOf, lookup_filterMap_zipIdx (fun i => UInt32.ofNat (i + 1)), List.findIdx?_map]
  rfl

theorem placesOf_concat : placesOf f (xs ++ [x]) =
    placesOf f xs ++ (f x).toList.map (·, UInt32.ofNat (xs.length + 1)) := by
  simp only [placesOf, List.map_append, List.zipIdx_append, List.filterMap_append]
  cases hf : f x <;> simp [hf]

theorem placesOf_set {i : Nat} (hi : i < xs.length) (hx : f x = f xs[i]) :
    placesOf f (xs.set i x) = placesOf f xs := by
  have hset : (xs.map f).set i (f xs[i]) = xs.map f := by
    rw [← List.map_set, List.set_getElem_self]
  rw [placesOf, placesOf, List.map_set, hx, hset]

end Places

end TypedIR
