import TypedIR.Proofs.Naming.Temps
import TypedIR.Proofs.Registry.Outcomes

namespace TypedIR

namespace Assembly

section Sorting

variable {α β : Type} {xs xs' : List α} {ys : List β} {key : α → String} {key' : β → String}

theorem map_byText {f : α → β} (h : ∀ x, key' (f x) = key x) :
    (byText key xs).map f = byText key' (xs.map f) := by
  refine List.map_mergeSort fun a _ b _ => ?_
  rw [h a, h b]

theorem pairwise_byText (key : α → String) (xs : List α) :
    (byText key xs).Pairwise fun a b => key a ≤ key b := by
  refine (List.pairwise_mergeSort (fun a b c hab hbc => ?_) (fun a b => ?_) xs).imp of_decide_eq_true
  · exact decide_eq_true (String.le_trans (of_decide_eq_true hab) (of_decide_eq_true hbc))
  · simpa using String.le_total (key a) (key b)

theorem byText_eq_of_perm (h : xs.Perm xs') (hn : (xs.map key).Nodup) : byText key xs = byText key xs' := by
  have hxs := List.mergeSort_perm xs fun a b => key a ≤ key b
  have hxs' := List.mergeSort_perm xs' fun a b => key a ≤ key b
  refine List.Perm.eq_of_pairwise ?_ (pairwise_byText key xs) (pairwise_byText key xs')
    (hxs.trans (h.trans hxs'.symm))
  intro a b ha hb hab hba
  exact List.inj_on_of_nodup_map hn (hxs.mem_iff.1 ha) (h.mem_iff.2 (hxs'.mem_iff.1 hb))
    (String.le_antisymm hab hba)

theorem map_byText_eq_of_perm {line : α → String} {line' : β → String}
    (h : (xs.map fun x => (key x, line x)).Perm (ys.map fun y => (key' y, line' y)))
    (hn : (xs.map key).Nodup) : (byText key xs).map line = (byText key' ys).map line' := by
  have hn : ((xs.map fun x => (key x, line x)).map Prod.fst).Nodup := by rwa [List.map_map]
  have hsorted := byText_eq_of_perm h hn
  rw [← map_byText fun _ => rfl, ← map_byText fun _ => rfl] at hsorted
  simpa [Function.comp_def] using congrArg (List.map Prod.snd) hsorted

end Sorting

end Assembly

namespace TypeRegistry

variable {r : TypeRegistry} {t : TypeRef}

theorem mem_namedStructs : t ∈ r.namedStructs ↔ ∃ name body, r.lookup t = some (.named name body) := by
  simp only [namedStructs, List.mem_map, List.mem_filter, lookup_eq_some_iff]
  constructor
  · rintro ⟨⟨d, position⟩, ⟨hd, hn⟩, rfl⟩
    cases d with
    | named name body => exact ⟨name, body, position, rfl, List.mem_zipIdx_iff_getElem?.1 hd⟩
    | _ => cases hn
  · rintro ⟨name, body, position, rfl, hd⟩
    exact ⟨(.named name body, position), ⟨List.mem_zipIdx_iff_getElem?.2 hd, rfl⟩, rfl⟩

theorem nodup_namedStructs (r : TypeRegistry) : r.namedStructs.Nodup := by
  have hplaces : ((r.arena.zipIdx.filter (·.1.isNamed)).map Prod.snd).Nodup := by
    refine List.Nodup.sublist (List.filter_sublist.map Prod.snd) ?_
    rw [List.zipIdx_map_snd]
    exact List.nodup_range'
  have hhandles := hplaces.map (f := r.handle) fun i j h => by simpa [handle] using h
  rwa [List.map_map] at hhandles

end TypeRegistry

namespace Assembly

open TypeRegistry

def structLine (B : Bodies) (name : String) : String :=
  let type := "%" ++ name
  let body := match B name with
    | some (fields, packed) => braced (fields.map TypeTree.text) packed
    | none => "opaque"
  s!"{type} = type {body}\n"

section Structs

variable {e : Env} {B : Bodies} {t : TypeRef} {name : String} {body : Option (List TypeRef × Bool)}

theorem type_named (h : e.context.types.Canonical) (ht : e.context.types.lookup t = some (.named name body)) :
    e.type t = "%" ++ name := by
  have htree : e.context.types.tree? t = some (.named name) := h.tree?_eq ht
  rw [Env.type, h.text_eq htree, TypeTree.text]

theorem namedStruct_eq (h : e.context.types.HasBodies B)
    (ht : e.context.types.lookup t = some (.named name body)) : e.namedStruct t = structLine B name := by
  have hc := h.settled.canonical
  have hb := h.bodies t name body ht
  rw [Env.namedStruct, structLine, type_named hc ht, bodyText, ht, ← hb]
  cases body with
  | none => rfl
  | some b =>
    obtain ⟨fields, packed⟩ := b
    obtain ⟨Ts, hTs⟩ : ∃ Ts, fields.mapM e.context.types.tree? = some Ts :=
      hc.exists_trees (hc.closed t _ ht)
    simp [bodyTree?, hTs, fieldList_eq_braced, hc.map_text_eq hTs]

theorem mem_structRows (h : e.context.types.HasBodies B) {row : String × String} :
    row ∈ (e.context.types.namedStructs.map fun t => (e.type t, e.namedStruct t)) ↔
      ∃ name, e.context.types.Knows name ∧ ("%" ++ name, structLine B name) = row := by
  simp only [List.mem_map, mem_namedStructs]
  constructor
  · rintro ⟨t, ⟨name, body, ht⟩, rfl⟩
    exact ⟨name, ⟨t, body, ht⟩, by rw [type_named h.settled.canonical ht, namedStruct_eq h ht]⟩
  · rintro ⟨name, ⟨t, body, ht⟩, rfl⟩
    exact ⟨t, ⟨name, body, ht⟩, by rw [type_named h.settled.canonical ht, namedStruct_eq h ht]⟩

theorem nodup_structKeys (h : e.context.types.Canonical) : (e.context.types.namedStructs.map e.type).Nodup := by
  refine List.Nodup.map_on (fun s hs t ht heq => ?_) (nodup_namedStructs _)
  obtain ⟨name, body, hs⟩ := mem_namedStructs.1 hs
  obtain ⟨name', body', ht⟩ := mem_namedStructs.1 ht
  rw [type_named h hs, type_named h ht] at heq
  obtain rfl := percent_inj heq
  exact h.distinct s t _ _ hs ht rfl

theorem structLines_eq (h : e.context.types.HasBodies B) {names : List String} (hn : names.Nodup)
    (hk : ∀ name, e.context.types.Knows name ↔ name ∈ names) :
    (byText e.type e.context.types.namedStructs).map e.namedStruct =
      (byText ("%" ++ ·) names).map (structLine B) := by
  have hkeys := nodup_structKeys h.settled.canonical
  have hrows : (names.map fun name => ("%" ++ name, structLine B name)).Nodup :=
    hn.map fun _ _ heq => percent_inj (congrArg Prod.fst heq)
  refine map_byText_eq_of_perm ((List.perm_ext_iff_of_nodup ?_ hrows).2 fun row => ?_) hkeys
  · exact List.Nodup.of_map Prod.fst (by rwa [List.map_map])
  · simp only [mem_structRows h, hk, List.mem_map]

end Structs

end Assembly

structure Prototype where
  name : String
  signature : TypeSpec
  linkage : Linkage

namespace Prototype

def line (p : Prototype) : String :=
  match p.signature.plain? with
  | some (.fn result params variadic) =>
    let tail := if variadic then ["..."] else []
    let head := s!"{p.linkage.spelling} {result.text} @{p.name}"
    let signature := head ++ s!"({commaList (params.map TypeTree.text ++ tail)})"
    s!"declare {signature}\n"
  | _ => ""

structure DeclaredBy (p : Prototype) (r : TypeRegistry) (f : Func) : Prop where
  name : f.name = p.name
  linkage : f.linkage = p.linkage
  bodiless : f.isDeclaration
  signature : ∃ result params, r.tree? f.retType = some result ∧
    (f.params.map (·.type)).mapM r.tree? = some params ∧
    p.signature.plain? = some (.fn result params f.variadic)

variable {p : Prototype} {f : Func} {e : Assembly.Env}

theorem DeclaredBy.function_eq (h : p.DeclaredBy e.context.types f) (hc : e.context.types.Canonical) :
    e.function f = p.line := by
  obtain ⟨result, params, hr, hp, hs⟩ := h.signature
  have hparams : (f.params.map fun x => e.context.types.text x.type) = params.map TypeTree.text := by
    have htexts := hc.map_text_eq hp
    rwa [List.map_map] at htexts
  rw [Assembly.Env.function, if_pos h.bodiless, Assembly.Env.signature, line, hs]
  simp only [h.bodiless, h.name, h.linkage, Assembly.Env.type, hc.text_eq hr, if_true, hparams]

theorem DeclaredBy.mono {r r' : TypeRegistry} (h : p.DeclaredBy r f) (hc : r.Canonical) (hc' : r'.Canonical)
    (hg : r.Grows r') : p.DeclaredBy r' f := by
  obtain ⟨result, params, hr, hp, hs⟩ := h.signature
  exact ⟨h.name, h.linkage, h.bodiless, result, params, hc.tree?_of_grows hc' hg hr,
    hc.mapM_tree?_of_grows hc' hg hp, hs⟩

variable {ps : List Prototype} {fs : List Func}

theorem functionRows_eq (h : List.Forall₂ (DeclaredBy · e.context.types) ps fs)
    (hc : e.context.types.Canonical) :
    (fs.map fun f => (f.name, e.function f)) = ps.map fun p => (p.name, p.line) := by
  induction h with
  | nil => rfl
  | cons hf _ ih => rw [List.map_cons, List.map_cons, ih, hf.name, hf.function_eq hc]

theorem functionLines_eq (h : List.Forall₂ (DeclaredBy · e.context.types) ps fs)
    (hc : e.context.types.Canonical) (hn : (ps.map (·.name)).Nodup) :
    (Assembly.byText (·.name) fs).map e.function = (Assembly.byText (·.name) ps).map line := by
  have hrows := functionRows_eq h hc
  refine Assembly.map_byText_eq_of_perm (.of_eq hrows) ?_
  have hnames : fs.map (·.name) = ps.map (·.name) := by
    simpa [Function.comp_def] using congrArg (List.map Prod.fst) hrows
  exact hnames ▸ hn

theorem forall_isDeclaration {r : TypeRegistry} (h : List.Forall₂ (DeclaredBy · r) ps fs) :
    ∀ f ∈ fs, f.isDeclaration := by
  induction h with
  | nil => simp
  | cons hf _ ih => exact List.forall_mem_cons.2 ⟨hf.bodiless, ih⟩

end Prototype

end TypedIR
