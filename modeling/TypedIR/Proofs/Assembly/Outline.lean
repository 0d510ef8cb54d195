import Mathlib.Data.List.Dedup
import Mathlib.Data.List.Induction
import TypedIR.Proofs.Assembly.Rows

namespace TypedIR

structure StructBody where
  name : String
  fields : List TypeSpec
  packed : Bool

def TypeSpec.name? : TypeSpec → Option String
  | named name => some name
  | _ => none

theorem TypeSpec.name?_eq_some_iff {s : TypeSpec} {name : String} :
    s.name? = some name ↔ s = .named name := by
  cases s <;> simp [name?]

/-- What is asked for, in order. -/
structure Outline where
  structs : List String := []
  bodies : List StructBody := []
  prototypes : List Prototype := []

def TypeRequest.giveBody (b : StructBody) : TypeRequest Unit := do
  let t ← named b.name
  let fields ← resolveAll b.fields
  setBody t fields b.packed

namespace World

variable {α : Type}

def request? (w : World) (m : Nat) (q : TypeRequest α) : Option (α × World) :=
  match w.requestType (w.module m).context q with
  | (.ok a, w') => some (a, w')
  | (.error _, _) => none

def nameStruct (m : Nat) (w : World) (name : String) : Option World :=
  (w.request? m (.named name)).map Prod.snd

def giveBody (m : Nat) (w : World) (b : StructBody) : Option World :=
  (w.request? m (.giveBody b)).map Prod.snd

def declareFunc? (w : World) (m : Nat) (name : String) (signature : TypeRef) (linkage : Linkage) :
    Option World :=
  match DeclareM.func m name signature linkage w with
  | .ok _ w' => some w'
  | .error .. => none

def declare (m : Nat) (w : World) (p : Prototype) : Option World := do
  let (t, w) ← w.request? m (.resolve p.signature)
  w.declareFunc? m p.name t p.linkage

def fresh (w : World) (limit : Nat) (traces : Bool) (name : String) : World :=
  ((w.addContext limit traces).2.addModule (w.contexts.length + 1) name).2

end World

namespace Outline

/-- The calls in order: structs, then bodies, then functions. Nothing if one of them is refused. -/
def run (o : Outline) (m : Nat) (w : World) : Option World := do
  let w ← o.structs.foldlM (World.nameStruct m) w
  let w ← o.bodies.foldlM (World.giveBody m) w
  o.prototypes.foldlM (World.declare m) w

def text? (o : Outline) (w : World) (limit : Nat) (traces : Bool) (name : String) : Option String :=
  (o.run w.modules.length (w.fresh limit traces name)).map (·.text w.modules.length .canonical)

/-- The same calls, with structs and functions in some other order. -/
structure Rearranges (o o' : Outline) : Prop where
  structs : o.structs.Perm o'.structs
  bodies : o.bodies = o'.bodies
  prototypes : o.prototypes.Perm o'.prototypes

/-- No handles are asked for, no struct gets two bodies, and no name is declared twice. -/
structure Proper (o : Outline) : Prop where
  fields : ∀ b ∈ o.bodies, ∀ s ∈ b.fields, s.Plain
  signatures : ∀ p ∈ o.prototypes, p.signature.Plain
  bodies : (o.bodies.map (·.name)).Nodup
  prototypes : (o.prototypes.map (·.name)).Nodup

def names (o : Outline) : List String :=
  let inside (ss : List TypeSpec) := ss.filterMap TypeSpec.name?
  (o.structs ++ o.bodies.flatMap (fun b => b.name :: inside (TypeSpec.inOrderAll b.fields)) ++
    o.prototypes.flatMap fun p => inside p.signature.inOrder).dedup

theorem nodup_names (o : Outline) : o.names.Nodup := List.nodup_dedup _

theorem mem_names {o : Outline} {name : String} : name ∈ o.names ↔
    name ∈ o.structs ∨ (∃ b ∈ o.bodies, name = b.name ∨ .named name ∈ TypeSpec.inOrderAll b.fields) ∨
      ∃ p ∈ o.prototypes, .named name ∈ p.signature.inOrder := by
  have hinside (ss : List TypeSpec) : name ∈ ss.filterMap TypeSpec.name? ↔ .named name ∈ ss := by
    simp [List.mem_filterMap, TypeSpec.name?_eq_some_iff]
  simp only [names, List.mem_dedup, List.mem_append, List.mem_flatMap, List.mem_cons, hinside, or_assoc]

end Outline

def StructBody.content? (b : StructBody) : Option (List TypeTree × Bool) :=
  return (← b.fields.mapM TypeSpec.plain?, b.packed)

def Bodies.of (bs : List StructBody) : Bodies :=
  bs.foldl (fun B b => Function.update B b.name b.content?) fun _ => none

/-- The text in the end: structs by their names, then functions by theirs. -/
def Outline.canonical (o : Outline) : String :=
  String.join ((Assembly.byText ("%" ++ ·) o.names).map (Assembly.structLine (.of o.bodies))) ++
    String.join ((Assembly.byText (·.name) o.prototypes).map Prototype.line)

def StructBody.Allowed (maxBits : Nat) (B : Bodies) (b : StructBody) : Prop :=
  b.name.isEmpty = false ∧ (∀ p ∈ TypeSpec.inOrderAll b.fields, p.Allowed maxBits B) ∧
    ∃ Ts, b.fields.mapM TypeSpec.plain? = some Ts ∧ ∀ T ∈ Ts, T.isSized B

def Prototype.Allowed (maxBits : Nat) (B : Bodies) (p : Prototype) : Prop :=
  (∀ s ∈ p.signature.inOrder, s.Allowed maxBits B) ∧ p.name.isEmpty = false ∧
    ∃ result params variadic, p.signature.plain? = some (.fn result params variadic)

/-- Does every call succeed? A body may need those before it, a function needs all of them. -/
structure Outline.Allowed (maxBits : Nat) (o : Outline) : Prop where
  structs : ∀ name ∈ o.structs, name.isEmpty = false
  bodies : ∀ before b, before ++ [b] <+: o.bodies → b.Allowed maxBits (.of before)
  prototypes : ∀ p ∈ o.prototypes, p.Allowed maxBits (.of o.bodies)

theorem Bodies.of_concat (bs : List StructBody) (b : StructBody) :
    of (bs ++ [b]) = Function.update (of bs) b.name b.content? := by
  rw [of, of, List.foldl_concat]

theorem Bodies.of_eq_none {bs : List StructBody} {name : String} (h : name ∉ bs.map (·.name)) :
    of bs name = none := by
  induction bs using List.reverseRecOn with
  | nil => rfl
  | append_singleton bs b ih =>
    simp only [List.map_append, List.map_cons, List.map_nil, List.mem_append, List.mem_singleton, not_or] at h
    rw [of_concat, Function.update_of_ne h.2, ih h.1]

namespace Outline.Rearranges

variable {maxBits : Nat} {o o' : Outline}

theorem symm (h : o.Rearranges o') : o'.Rearranges o := ⟨h.structs.symm, h.bodies.symm, h.prototypes.symm⟩

theorem proper (h : o.Rearranges o') (hp : o.Proper) : o'.Proper where
  fields := h.bodies ▸ hp.fields
  signatures p hmem := hp.signatures p (h.prototypes.mem_iff.2 hmem)
  bodies := h.bodies ▸ hp.bodies
  prototypes := (h.prototypes.map _).nodup_iff.1 hp.prototypes

theorem allowed (h : o.Rearranges o') (ha : o.Allowed maxBits) : o'.Allowed maxBits where
  structs name hmem := ha.structs name (h.structs.mem_iff.2 hmem)
  bodies := h.bodies ▸ ha.bodies
  prototypes p hmem := h.bodies ▸ ha.prototypes p (h.prototypes.mem_iff.2 hmem)

theorem allowed_iff (h : o.Rearranges o') : o.Allowed maxBits ↔ o'.Allowed maxBits :=
  ⟨h.allowed, h.symm.allowed⟩

theorem canonical_eq (h : o.Rearranges o') (hp : o.Proper) : o.canonical = o'.canonical := by
  have hnames : o.names.Perm o'.names := by
    refine (List.perm_ext_iff_of_nodup o.nodup_names o'.nodup_names).2 fun name => ?_
    simp only [mem_names, h.structs.mem_iff, h.bodies, h.prototypes.mem_iff]
  have hkeys : (o.names.map ("%" ++ ·)).Nodup :=
    o.nodup_names.map fun _ _ heq => Assembly.percent_inj heq
  rw [canonical, canonical, Assembly.byText_eq_of_perm hnames hkeys,
    Assembly.byText_eq_of_perm h.prototypes hp.prototypes, h.bodies]

end Outline.Rearranges

namespace TypeRequest

open TypeRegistry

variable {r r' r'' : TypeRegistry} {B : Bodies} {s : TypeSpec} {t : TypeRef} {name : String} {b : StructBody}

theorem settles_fields {r₁ : TypeRegistry} {fields : List TypeRef} (h : r.HasBodies B)
    (hplain : ∀ s ∈ b.fields, s.Plain) (hB : B b.name = none) (ht : named b.name r = .ok t r₁)
    (hfields : resolveAll b.fields r₁ = .ok fields r') :
    Settles r B (.named b.name :: TypeSpec.inOrderAll b.fields) r' ∧
      r'.lookup t = some (.named b.name none) ∧
      ∃ Ts, fields.mapM r'.tree? = some Ts ∧ b.fields.mapM TypeSpec.plain? = some Ts := by
  obtain ⟨hs₁, body, hd⟩ := settles_named h ht
  obtain ⟨hs, hTs⟩ := settles_resolveAll hs₁.hasBodies hplain hfields
  have hd := lookup_of_adds hs.adds hd
  have hbody := isSome_bodyTree? hs.hasBodies.settled.canonical hd
  rw [hs.hasBodies.bodies t b.name body hd, hB] at hbody
  -- Asking for the fields gives no struct a body.
  have hopaque : body = none := by simpa using hbody.symm
  exact ⟨hs₁.trans hs, hopaque ▸ hd, hTs⟩

theorem exists_giveBody_iff (h : r.HasBodies B) (hplain : ∀ s ∈ b.fields, s.Plain) (hB : B b.name = none) :
    (∃ u r', giveBody b r = .ok u r') ↔ b.Allowed r.maxBits B := by
  refine exists_bind_iff (exists_named_iff h.settled.live) fun t r₁ ht => ?_
  have hs₁ := (settles_named h ht).1
  have hresolve := exists_resolveAll_iff hs₁.hasBodies fun s hs _ hr => exists_resolve_iff hr (hplain s hs)
  rw [maxBits_of_adds hs₁.adds] at hresolve
  refine exists_bind_iff hresolve fun fields r₂ hfields => ?_
  obtain ⟨hs, hd, Ts, hTs, hTs'⟩ := settles_fields h hplain hB ht hfields
  simp [hs.hasBodies.setBody_iff hd hTs, hTs']

theorem of_giveBody (h : r.HasBodies B) (hplain : ∀ s ∈ b.fields, s.Plain) (hB : B b.name = none)
    (hq : giveBody b r = .ok () r') :
    r.Grows r' ∧ r'.maxBits = r.maxBits ∧ r'.HasBodies (Function.update B b.name b.content?) ∧
      ∀ n, r'.Knows n ↔ r.Knows n ∨ n = b.name ∨ .named n ∈ TypeSpec.inOrderAll b.fields := by
  obtain ⟨t, r₁, ht, hq⟩ := of_bind_eq_ok hq
  obtain ⟨fields, r₂, hfields, hq⟩ := of_bind_eq_ok hq
  obtain ⟨hs, hd, Ts, hTs, hTs'⟩ := settles_fields h hplain hB ht hfields
  obtain ⟨hsized, rfl⟩ := (hs.hasBodies.setBody_iff hd hTs).1 hq
  have hcontent : b.content? = some (Ts, b.packed) := by simp [StructBody.content?, hTs']
  have hg := grows_replace hd (.body b.name (fields, b.packed))
  have hmax : r₂.maxBits = r.maxBits := maxBits_of_adds hs.adds
  refine ⟨(grows_of_adds hs.adds).trans hg, hmax, ?_, ?_⟩
  · rw [hcontent]
    exact hs.hasBodies.replace hd hTs hsized
  · intro n
    rw [knows_replace_iff hd, hs.knows, List.mem_cons, TypeSpec.named.injEq]

end TypeRequest

end TypedIR
