import TypedIR.Proofs.Registry.Trees

namespace TypedIR

def braced (fields : List String) (packed : Bool) : String :=
  let inner := if fields.isEmpty then "" else s!" {commaList fields} "
  if packed then "<\x7b" ++ inner ++ "\x7d>" else "\x7b" ++ inner ++ "\x7d"

namespace TypeTree

mutual

def text : TypeTree → String
  | void => "void"
  | int bits => s!"i{bits}"
  | float kind => kind.spelling
  | pointer space => if space = 0 then "ptr" else s!"ptr addrspace({space})"
  | array elem count => s!"[{count} x {elem.text}]"
  | vector elem count => s!"<{count} x {elem.text}>"
  | struct fields packed => braced (texts fields) packed
  | named name => "%" ++ name
  | fn result params variadic =>
    let tail := if variadic then ["..."] else []
    s!"{result.text} ({commaList (texts params ++ tail)})"

def texts : List TypeTree → List String
  | [] => []
  | T :: rest => T.text :: texts rest

end

theorem texts_eq_map (Ts : List TypeTree) : texts Ts = Ts.map text := by
  induction Ts with
  | nil => rfl
  | cons T Ts ih => rw [texts, List.map_cons, ih]

end TypeTree

theorem fieldList_eq_braced (text : TypeRef → String) (fields : List TypeRef) (packed : Bool) :
    TypeDesc.fieldList text fields packed = braced (fields.map text) packed := by
  simp only [TypeDesc.fieldList, braced, List.isEmpty_map]

theorem map_text_eq {part : TypeRef → Option TypeTree} {text : TypeRef → String} {ts : List TypeRef}
    {Ts : List TypeTree} (hTs : ts.mapM part = some Ts)
    (h : ∀ t ∈ ts, ∀ T, part t = some T → text t = T.text) : ts.map text = Ts.map TypeTree.text := by
  rw [mapM_eq_some_iff] at hTs
  induction hTs with
  | nil => rfl
  | cons hT _ ih =>
    rw [List.map_cons, List.map_cons, h _ List.mem_cons_self _ hT,
      ih fun t ht => h t (List.mem_cons_of_mem _ ht)]

theorem TypeDesc.text_eq {part : TypeRef → Option TypeTree} {text : TypeRef → String} {d : TypeDesc}
    {T : TypeTree} (hT : d.tree? part = some T)
    (h : ∀ p ∈ d.components, ∀ S, part p = some S → text p = S.text) : d.text text = T.text := by
  cases T with
  | void => rw [tree?_eq_void_iff.1 hT, TypeDesc.text, TypeTree.text]
  | int bits => rw [tree?_eq_int_iff.1 hT, TypeDesc.text, TypeTree.text]
  | float kind => rw [tree?_eq_float_iff.1 hT, TypeDesc.text, TypeTree.text]
  | pointer space => rw [tree?_eq_pointer_iff.1 hT, TypeDesc.text, TypeTree.text]
  | array S n =>
    obtain ⟨p, hp, rfl⟩ := tree?_eq_array_iff.1 hT
    rw [TypeDesc.text, TypeTree.text, h p List.mem_cons_self S hp]
  | vector S n =>
    obtain ⟨p, hp, rfl⟩ := tree?_eq_vector_iff.1 hT
    rw [TypeDesc.text, TypeTree.text, h p List.mem_cons_self S hp]
  | struct Ss packed =>
    obtain ⟨fields, hf, rfl⟩ := tree?_eq_struct_iff.1 hT
    rw [TypeDesc.text, TypeTree.text, fieldList_eq_braced, map_text_eq hf h, TypeTree.texts_eq_map]
  | fn S Ss variadic =>
    obtain ⟨result, params, hr, hp, rfl⟩ := tree?_eq_fn_iff.1 hT
    have hparams := map_text_eq hp fun p hp => h p (List.mem_cons_of_mem result hp)
    rw [TypeDesc.text, TypeTree.text, h result List.mem_cons_self S hr, hparams, TypeTree.texts_eq_map]
  | named name =>
    obtain ⟨body, rfl⟩ := tree?_eq_named_iff.1 hT
    rw [TypeDesc.text, TypeTree.text]

namespace TypeRegistry

variable {r : TypeRegistry} {t : TypeRef} {d : TypeDesc} {T : TypeTree}

theorem owns_of_tree? (h : r.tree? t = some T) : r.owns t := by
  cases hd : r.lookup t with
  | none => cases hi : t.id <;> simp [tree?, hi, treeWithin, hd] at h
  | some d => exact owns_iff.2 ⟨d, hd⟩

theorem Canonical.textWithin_eq (h : r.Canonical) {depth : Nat} (hT : r.tree? t = some T)
    (ht : t.id ≤ depth) : r.textWithin depth t = T.text := by
  induction depth using Nat.strongRecOn generalizing t T with
  | ind depth ih =>
    obtain ⟨d, hd⟩ := owns_iff.1 (owns_of_tree? hT)
    have hpos := id_pos_of_lookup hd
    obtain ⟨n, rfl⟩ := Nat.exists_eq_succ_of_ne_zero (n := depth) (by omega)
    rw [h.tree?_eq hd] at hT
    rw [textWithin, hd]
    refine TypeDesc.text_eq hT fun p hp S hS => ?_
    have hlt := h.descends t d hd p hp
    exact ih n (by omega) hS (by omega)

theorem Canonical.text_eq (h : r.Canonical) (hT : r.tree? t = some T) : r.text t = T.text :=
  h.textWithin_eq hT (Nat.le_refl _)

theorem Canonical.map_text_eq (h : r.Canonical) {ts : List TypeRef} {Ts : List TypeTree}
    (hTs : ts.mapM r.tree? = some Ts) : ts.map r.text = Ts.map TypeTree.text :=
  TypedIR.map_text_eq hTs fun _ _ _ => h.text_eq

theorem Canonical.tree?_of_grows {r' : TypeRegistry} (h : r.Canonical) (h' : r'.Canonical)
    (hg : r.Grows r') (hT : r.tree? t = some T) : r'.tree? t = some T := by
  obtain ⟨n, hn⟩ : ∃ n, t.id = n := ⟨_, rfl⟩
  induction n using Nat.strongRecOn generalizing t T with
  | ind n ih =>
    obtain ⟨d, hd⟩ := owns_iff.1 (owns_of_tree? hT)
    obtain ⟨e, he, hde⟩ := hg.lookup t d hd
    have hsame : e.tree? r'.tree? = d.tree? r'.tree? := by
      cases hde with
      | refl => rfl
      | body => rfl
    have hparts : ∀ p ∈ d.components, r'.tree? p = r.tree? p := by
      intro p hp
      have hlt := h.descends t d hd p hp
      have ho := h.closed t d hd p (TypeDesc.components_sublist_parts p hp)
      obtain ⟨S, hS⟩ := Option.isSome_iff_exists.1 (h.isSome_tree? ho)
      rw [hS, ih p.id (hn ▸ hlt) hS rfl]
    rw [h'.tree?_eq he, hsame, TypeDesc.tree?_congr hparts, ← h.tree?_eq hd, hT]

theorem Canonical.mapM_tree?_of_grows {r' : TypeRegistry} (h : r.Canonical) (h' : r'.Canonical)
    (hg : r.Grows r') {ts : List TypeRef} {Ts : List TypeTree} (hTs : ts.mapM r.tree? = some Ts) :
    ts.mapM r'.tree? = some Ts := by
  rw [mapM_eq_some_iff] at hTs ⊢
  exact hTs.imp fun _ _ hT => h.tree?_of_grows h' hg hT

end TypeRegistry

end TypedIR
