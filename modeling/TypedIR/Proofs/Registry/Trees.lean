import Mathlib.Data.List.Forall2
import TypedIR.Proofs.Registry.Invariant

namespace TypedIR

/-- A type with all that it is made of. A named struct is its name. -/
inductive TypeTree
  | void
  | int (bits : Nat)
  | float (kind : FloatKind)
  | pointer (space : Nat)
  | array (elem : TypeTree) (count : UInt64)
  | vector (elem : TypeTree) (count : UInt64)
  | struct (fields : List TypeTree) (packed : Bool)
  | named (name : String)
  | fn (result : TypeTree) (params : List TypeTree) (variadic : Bool)

section

variable {α β : Type} {f g : α → Option β} {as as' : List α} {bs : List β}

theorem mapM_eq_some_iff : as.mapM f = some bs ↔ List.Forall₂ (fun a b => f a = some b) as bs := by
  induction as generalizing bs with
  | nil => simp [eq_comm]
  | cons a as ih =>
    rw [List.forall₂_cons_left_iff]
    cases ha : f a with
    | none => simp [List.mapM_cons, ha]
    | some b => simp [List.mapM_cons, ha, ← ih, Option.bind_eq_some_iff, eq_comm (a := bs)]

theorem exists_of_mem_mapM {b : β} (h : as.mapM f = some bs) (hb : b ∈ bs) : ∃ a ∈ as, f a = some b := by
  rw [mapM_eq_some_iff] at h
  induction h with
  | nil => cases hb
  | cons ha _ ih =>
    rcases List.mem_cons.1 hb with rfl | hb
    · exact ⟨_, List.mem_cons_self, ha⟩
    · obtain ⟨a, hmem, ha⟩ := ih hb
      exact ⟨a, List.mem_cons_of_mem _ hmem, ha⟩

theorem mapM_congr (h : ∀ a ∈ as, f a = g a) : as.mapM f = as.mapM g := by
  induction as with
  | nil => rfl
  | cons a as ih =>
    rw [List.mapM_cons, List.mapM_cons, h a List.mem_cons_self,
      ih fun b hb => h b (List.mem_cons_of_mem a hb)]

theorem isSome_mapM (h : ∀ a ∈ as, (f a).isSome) : (as.mapM f).isSome := by
  induction as with
  | nil => rfl
  | cons a as ih =>
    obtain ⟨b, hb⟩ := Option.isSome_iff_exists.1 (h a List.mem_cons_self)
    obtain ⟨bs, hbs⟩ := Option.isSome_iff_exists.1 (ih fun c hc => h c (List.mem_cons_of_mem a hc))
    simp [List.mapM_cons, hb, hbs]

theorem eq_of_mapM_eq (has : as.mapM f = some bs) (has' : as'.mapM f = some bs)
    (h : ∀ a ∈ as, ∀ a' ∈ as', ∀ b, f a = some b → f a' = some b → a = a') : as = as' := by
  rw [mapM_eq_some_iff] at has has'
  induction has generalizing as' with
  | nil => exact (List.forall₂_nil_right_iff.1 has').symm
  | @cons a b as bs ha _ ih =>
    obtain ⟨a', rest, ha', hrest, rfl⟩ := List.forall₂_cons_right_iff.1 has'
    rw [h a List.mem_cons_self a' List.mem_cons_self b ha ha',
      ih hrest fun c hc c' hc' => h c (List.mem_cons_of_mem a hc) c' (List.mem_cons_of_mem a' hc')]

end

namespace TypeDesc

variable {part part' : TypeRef → Option TypeTree} {d e : TypeDesc}

def tree? (part : TypeRef → Option TypeTree) : TypeDesc → Option TypeTree
  | void => some .void
  | int bits => some (.int bits)
  | float kind => some (.float kind)
  | pointer space => some (.pointer space)
  | array elem count => return .array (← part elem) count
  | vector elem count => return .vector (← part elem) count
  | struct fields packed => return .struct (← fields.mapM part) packed
  | named name _ => some (.named name)
  | fn result params variadic => return .fn (← part result) (← params.mapM part) variadic

theorem tree?_congr (h : ∀ p ∈ d.components, part p = part' p) : d.tree? part = d.tree? part' := by
  cases d with
  | array elem count | vector elem count => simp [tree?, h elem (by simp [components, parts])]
  | struct fields packed =>
    have hfields : fields.mapM part = fields.mapM part' := mapM_congr h
    simp only [tree?, hfields]
  | fn result params variadic =>
    have hparams := mapM_congr fun p hp => h p (List.mem_cons_of_mem result hp)
    simp only [tree?, h result List.mem_cons_self, hparams]
  | _ => rfl

theorem isSome_tree? (h : ∀ p ∈ d.components, (part p).isSome) : (d.tree? part).isSome := by
  cases d with
  | array elem count | vector elem count =>
    obtain ⟨T, hT⟩ := Option.isSome_iff_exists.1 (h elem (by simp [components, parts]))
    simp [tree?, hT]
  | struct fields packed =>
    have hfields : (fields.mapM part).isSome := isSome_mapM h
    obtain ⟨Ts, hTs⟩ := Option.isSome_iff_exists.1 hfields
    simp [tree?, hTs]
  | fn result params variadic =>
    obtain ⟨T, hT⟩ := Option.isSome_iff_exists.1 (h result List.mem_cons_self)
    obtain ⟨Ts, hTs⟩ := Option.isSome_iff_exists.1
      (isSome_mapM fun p hp => h p (List.mem_cons_of_mem result hp))
    simp [tree?, hT, hTs]
  | _ => rfl

theorem tree?_eq_void_iff : d.tree? part = some .void ↔ d = .void := by
  cases d <;> simp [tree?, Option.bind_eq_some_iff]

theorem tree?_eq_int_iff {bits : Nat} : d.tree? part = some (.int bits) ↔ d = .int bits := by
  cases d <;> simp [tree?, Option.bind_eq_some_iff]

theorem tree?_eq_float_iff {kind : FloatKind} :
    d.tree? part = some (.float kind) ↔ d = .float kind := by
  cases d <;> simp [tree?, Option.bind_eq_some_iff]

theorem tree?_eq_pointer_iff {space : Nat} :
    d.tree? part = some (.pointer space) ↔ d = .pointer space := by
  cases d <;> simp [tree?, Option.bind_eq_some_iff]

theorem tree?_eq_array_iff {S : TypeTree} {n : UInt64} :
    d.tree? part = some (.array S n) ↔ ∃ elem, part elem = some S ∧ d = .array elem n := by
  cases d <;> simp [tree?, Option.bind_eq_some_iff]

theorem tree?_eq_vector_iff {S : TypeTree} {n : UInt64} :
    d.tree? part = some (.vector S n) ↔ ∃ elem, part elem = some S ∧ d = .vector elem n := by
  cases d <;> simp [tree?, Option.bind_eq_some_iff]

theorem tree?_eq_struct_iff {Ss : List TypeTree} {p : Bool} :
    d.tree? part = some (.struct Ss p) ↔
      ∃ fields, fields.mapM part = some Ss ∧ d = .struct fields p := by
  cases d <;> simp [tree?, Option.bind_eq_some_iff]

theorem tree?_eq_fn_iff {S : TypeTree} {Ss : List TypeTree} {v : Bool} :
    d.tree? part = some (.fn S Ss v) ↔ ∃ result params, part result = some S ∧
      params.mapM part = some Ss ∧ d = .fn result params v := by
  cases d <;> simp [tree?, Option.bind_eq_some_iff]

theorem tree?_eq_named_iff {name : String} :
    d.tree? part = some (.named name) ↔ ∃ body, d = .named name body := by
  cases d <;> simp [tree?, Option.bind_eq_some_iff]

theorem identity_eq_of_tree?_eq {T : TypeTree} (hd : d.tree? part = some T)
    (he : e.tree? part = some T)
    (h : ∀ p ∈ d.components, ∀ q ∈ e.components, ∀ S, part p = some S → part q = some S → p = q) :
    d.identity = e.identity := by
  cases T with
  | void => rw [tree?_eq_void_iff.1 hd, tree?_eq_void_iff.1 he]
  | int bits => rw [tree?_eq_int_iff.1 hd, tree?_eq_int_iff.1 he]
  | float kind => rw [tree?_eq_float_iff.1 hd, tree?_eq_float_iff.1 he]
  | pointer space => rw [tree?_eq_pointer_iff.1 hd, tree?_eq_pointer_iff.1 he]
  | array S n =>
    obtain ⟨p, hp, rfl⟩ := tree?_eq_array_iff.1 hd
    obtain ⟨q, hq, rfl⟩ := tree?_eq_array_iff.1 he
    rw [h p List.mem_cons_self q List.mem_cons_self S hp hq]
  | vector S n =>
    obtain ⟨p, hp, rfl⟩ := tree?_eq_vector_iff.1 hd
    obtain ⟨q, hq, rfl⟩ := tree?_eq_vector_iff.1 he
    rw [h p List.mem_cons_self q List.mem_cons_self S hp hq]
  | struct Ss packed =>
    obtain ⟨fields, hf, rfl⟩ := tree?_eq_struct_iff.1 hd
    obtain ⟨fields', hf', rfl⟩ := tree?_eq_struct_iff.1 he
    rw [eq_of_mapM_eq hf hf' h]
  | fn S Ss variadic =>
    obtain ⟨result, params, hr, hp, rfl⟩ := tree?_eq_fn_iff.1 hd
    obtain ⟨result', params', hr', hp', rfl⟩ := tree?_eq_fn_iff.1 he
    rw [h result List.mem_cons_self result' List.mem_cons_self S hr hr',
      eq_of_mapM_eq hp hp' fun p hp q hq =>
        h p (List.mem_cons_of_mem result hp) q (List.mem_cons_of_mem result' hq)]
  | named name =>
    obtain ⟨body, rfl⟩ := tree?_eq_named_iff.1 hd
    obtain ⟨body', rfl⟩ := tree?_eq_named_iff.1 he
    rfl

end TypeDesc

namespace TypeRegistry

variable {r : TypeRegistry} {s t : TypeRef} {d : TypeDesc}

def treeWithin (r : TypeRegistry) : Nat → TypeRef → Option TypeTree
  | 0, _ => none
  | depth + 1, t => (r.lookup t).bind fun d => d.tree? (r.treeWithin depth)

/-- The type that a handle stands for. Its place bounds its depth: components come before it. -/
def tree? (r : TypeRegistry) (t : TypeRef) : Option TypeTree := r.treeWithin t.id t

theorem id_pos_of_lookup (h : r.lookup t = some d) : 0 < t.id := by
  obtain ⟨position, rfl, -⟩ := lookup_eq_some_iff.1 h
  exact Nat.succ_pos position

theorem Canonical.treeWithin_eq (h : r.Canonical) {depth : Nat} (hd : r.lookup t = some d)
    (ht : t.id ≤ depth) : r.treeWithin depth t = d.tree? r.tree? := by
  induction depth using Nat.strongRecOn generalizing t d with
  | ind depth ih =>
    have hpos := id_pos_of_lookup hd
    obtain ⟨n, rfl⟩ := Nat.exists_eq_succ_of_ne_zero (n := depth) (by omega)
    rw [treeWithin, hd, Option.bind_some]
    refine TypeDesc.tree?_congr fun p hp => ?_
    have hlt := h.descends t d hd p hp
    obtain ⟨e, he⟩ := owns_iff.1 (h.closed t d hd p (TypeDesc.components_sublist_parts p hp))
    rw [tree?, ih n (by omega) he (by omega), ih p.id (by omega) he (Nat.le_refl _)]

theorem Canonical.tree?_eq (h : r.Canonical) (hd : r.lookup t = some d) :
    r.tree? t = d.tree? r.tree? := h.treeWithin_eq hd (Nat.le_refl _)

theorem Canonical.isSome_tree? (h : r.Canonical) (ht : r.owns t) : (r.tree? t).isSome := by
  obtain ⟨n, hn⟩ : ∃ n, t.id = n := ⟨_, rfl⟩
  induction n using Nat.strongRecOn generalizing t with
  | ind n ih =>
    obtain ⟨d, hd⟩ := owns_iff.1 ht
    rw [h.tree?_eq hd]
    refine TypeDesc.isSome_tree? fun p hp => ?_
    have hlt := h.descends t d hd p hp
    exact ih p.id (hn ▸ hlt) (h.closed t d hd p (TypeDesc.components_sublist_parts p hp)) rfl

theorem Canonical.exists_trees (h : r.Canonical) {ps : List TypeRef} (hps : ∀ p ∈ ps, r.owns p) :
    ∃ Ts, ps.mapM r.tree? = some Ts :=
  Option.isSome_iff_exists.1 (isSome_mapM fun p hp => h.isSome_tree? (hps p hp))

theorem Canonical.tree?_fn {result : TypeRef} {params : List TypeRef} {variadic : Bool}
    (h : r.Canonical) (ht : r.lookup t = some (.fn result params variadic)) :
    ∃ R Ps, r.tree? result = some R ∧ params.mapM r.tree? = some Ps ∧
      r.tree? t = some (.fn R Ps variadic) := by
  have hparts : ∀ p ∈ result :: params, r.owns p := h.closed t _ ht
  obtain ⟨R, hR⟩ := Option.isSome_iff_exists.1 (h.isSome_tree? (hparts result List.mem_cons_self))
  obtain ⟨Ps, hPs⟩ := h.exists_trees fun p hp => hparts p (List.mem_cons_of_mem result hp)
  refine ⟨R, Ps, hR, hPs, ?_⟩
  rw [h.tree?_eq ht]
  exact TypeDesc.tree?_eq_fn_iff.2 ⟨result, params, hR, hPs, rfl⟩

theorem Canonical.exists_fn_iff (h : r.Canonical) (ho : r.owns t) :
    (∃ result params variadic, r.lookup t = some (.fn result params variadic)) ↔
      ∃ R Ps variadic, r.tree? t = some (.fn R Ps variadic) := by
  constructor
  · rintro ⟨result, params, variadic, hd⟩
    obtain ⟨R, Ps, -, -, hT⟩ := h.tree?_fn hd
    exact ⟨R, Ps, variadic, hT⟩
  · rintro ⟨R, Ps, variadic, hT⟩
    obtain ⟨d, hd⟩ := owns_iff.1 ho
    rw [h.tree?_eq hd] at hT
    obtain ⟨result, params, -, -, rfl⟩ := TypeDesc.tree?_eq_fn_iff.1 hT
    exact ⟨result, params, variadic, hd⟩

theorem Canonical.eq_of_tree?_eq (h : r.Canonical) {T : TypeTree} (hs : r.tree? s = some T)
    (ht : r.tree? t = some T) (hso : r.owns s) (hto : r.owns t) : s = t := by
  -- By induction on the place: components that stand for the same tree are the same, so nothing
  -- tells the types apart, and no two types are told apart by nothing.
  obtain ⟨n, hn⟩ : ∃ n, s.id = n := ⟨_, rfl⟩
  induction n using Nat.strongRecOn generalizing s t T with
  | ind n ih =>
    obtain ⟨d, hd⟩ := owns_iff.1 hso
    obtain ⟨e, he⟩ := owns_iff.1 hto
    rw [h.tree?_eq hd] at hs
    rw [h.tree?_eq he] at ht
    refine h.distinct s t d e hd he ?_
    refine TypeDesc.identity_eq_of_tree?_eq hs ht fun p hp q hq S hpS hqS => ?_
    have hlt := h.descends s d hd p hp
    exact ih p.id (hn ▸ hlt) hpS hqS (h.closed s d hd p (TypeDesc.components_sublist_parts p hp))
      (h.closed t e he q (TypeDesc.components_sublist_parts q hq)) rfl

theorem Canonical.eq_iff_tree?_eq (h : r.Canonical) (hs : r.owns s) (ht : r.owns t) :
    s = t ↔ r.tree? s = r.tree? t := by
  constructor
  · rintro rfl
    rfl
  · intro heq
    obtain ⟨T, hT⟩ := Option.isSome_iff_exists.1 (h.isSome_tree? hs)
    exact h.eq_of_tree?_eq hT (heq ▸ hT) hs ht

end TypeRegistry

end TypedIR
