import Mathlib
import TypedIR.Proofs.Assembly.Outline
import TypedIR.Proofs.Soundness.Declarations

/-! Canonical text and the order of calls. Which handles come of an outline depends on the order of its calls,
but whether they succeed, and the canonical text in the end, do not. -/

namespace TypedIR

/-- There is an answer just under the condition, and something is so of it. -/
structure Yields {α : Type} (x : Option α) (cond : Prop) (post : α → Prop) : Prop where
  exists_iff : (∃ a, x = some a) ↔ cond
  of_eq : ∀ a, x = some a → post a

namespace Yields

variable {α β : Type} {x : Option α} {P Q : Prop} {post : α → Prop} {post' : β → Prop}

theorem bind {f : α → Option β} (h : Yields x P post) (hf : ∀ a, post a → Yields (f a) Q post') :
    Yields (x >>= f) (P ∧ Q) post' := by
  cases x with
  | none =>
    have hP : ¬ P := fun hP => nomatch h.exists_iff.2 hP
    exact ⟨by simp [hP], by simp⟩
  | some a =>
    have hfa := hf a (h.of_eq a rfl)
    have hP : P := h.exists_iff.1 ⟨a, rfl⟩
    exact ⟨by simpa [hP] using hfa.exists_iff, by simpa using hfa.of_eq⟩

theorem map {f : α → β} (h : Yields x P post) (hf : ∀ a, post a → post' (f a)) :
    Yields (x.map f) P post' := by
  cases x with
  | none => exact ⟨by simpa using h.exists_iff, by simp⟩
  | some a => exact ⟨by simpa using h.exists_iff, by simpa using hf a (h.of_eq a rfl)⟩

theorem imp {post' : α → Prop} (h : Yields x P post) (hp : ∀ a, post a → post' a) :
    Yields x P post' :=
  ⟨h.exists_iff, fun a ha => hp a (h.of_eq a ha)⟩

theorem eq {y : Option α} {post' : α → Prop} (h : Yields x P post) (h' : Yields y P post')
    (heq : ∀ a b, post a → post' b → a = b) : x = y := by
  have hxy := h.exists_iff.trans h'.exists_iff.symm
  cases x with
  | none => cases y with
    | none => rfl
    | some b => exact nomatch hxy.2 ⟨b, rfl⟩
  | some a =>
    obtain ⟨b, rfl⟩ := hxy.1 ⟨a, rfl⟩
    rw [heq a b (h.of_eq a rfl) (h'.of_eq b rfl)]

theorem foldlM (xs : List α) {step : β → α → Option β} {b : β} {cond : List α → α → Prop}
    {I : List α → β → Prop} (hb : I [] b)
    (h : ∀ before x, before ++ [x] <+: xs → ∀ b, I before b →
      Yields (step b x) (cond before x) (I (before ++ [x]))) :
    Yields (xs.foldlM step b) (∀ before x, before ++ [x] <+: xs → cond before x) (I xs) := by
  induction xs using List.reverseRecOn with
  | nil => exact ⟨by simp, fun a ha => Option.some.inj ha ▸ hb⟩
  | append_singleton xs x ih =>
    have hxs := ih fun before x hpre => h before x (hpre.trans (List.prefix_append xs _))
    have hlast : Yields (xs.foldlM step b >>= fun b => step b x) _ (I (xs ++ [x])) :=
      hxs.bind fun b hb => h xs x (List.prefix_refl _) b hb
    have hsplit : (xs ++ [x]).foldlM step b = xs.foldlM step b >>= fun b => step b x := by
      simp [List.foldlM_append]
    rw [hsplit]
    refine ⟨hlast.exists_iff.trans ⟨?_, fun hall => ⟨?_, ?_⟩⟩, hlast.of_eq⟩
    · rintro ⟨hbefore, hx⟩ before y hpre
      rcases List.prefix_concat_iff.1 hpre with heq | hpre
      · obtain ⟨rfl, hy⟩ := List.append_inj' heq rfl
        obtain rfl := List.singleton_inj.1 hy
        exact hx
      · exact hbefore before y hpre
    · exact fun before y hpre => hall before y (hpre.trans (List.prefix_append xs _))
    · exact hall xs x (List.prefix_refl _)

end Yields

theorem forall_prefix_iff {α : Type} {xs : List α} {P : α → Prop} :
    (∀ before x, before ++ [x] <+: xs → P x) ↔ ∀ x ∈ xs, P x := by
  constructor
  · intro h x hx
    obtain ⟨before, after, rfl⟩ := List.append_of_mem hx
    exact h before x ⟨after, by simp⟩
  · exact fun h before x hpre => h x (hpre.subset (by simp))

theorem not_mem_before {α β : Type} {f : α → β} {xs before : List α} {x : α} (hn : (xs.map f).Nodup)
    (hpre : before ++ [x] <+: xs) : f x ∉ before.map f := by
  have hn := hn.sublist (hpre.sublist.map f)
  rw [List.map_append, List.nodup_append] at hn
  exact fun hmem => hn.2.2 _ hmem _ (by simp) rfl

namespace World

variable {w w' : World} {m maxBits : Nat} {o o' : Outline}

/-- A module after the calls of an outline, and the types of its context. -/
structure Holds (w : World) (m maxBits : Nat) (o : Outline) : Prop where
  maxBits : (w.contextOf m).types.maxBits = maxBits
  hasBodies : (w.contextOf m).types.HasBodies (.of o.bodies)
  knows : ∀ name, (w.contextOf m).types.Knows name ↔ name ∈ o.names
  funcs : List.Forall₂ (Prototype.DeclaredBy · (w.contextOf m).types) o.prototypes (w.module m).funcs
  globals : (w.module m).globals = []
  symbols : (w.module m).symbols.map Prod.fst = o.prototypes.map (·.name)

namespace Holds

variable (h : w.Holds m maxBits o)
include h

theorem live : (w.contextOf m).isDisposed = false := h.hasBodies.settled.live

theorem lookup_eq_none {name : String} (hnew : name ∉ o.prototypes.map (·.name)) :
    (w.module m).symbols.lookup name = none := by
  rw [← h.symbols] at hnew
  rw [List.lookup_eq_none_iff]
  intro e he
  rw [bne_iff_ne]
  exact fun heq => hnew (heq ▸ List.mem_map_of_mem he)

theorem retype (hm : w'.module m = w.module m) (hp : o'.prototypes = o.prototypes)
    (hmax : (w'.contextOf m).types.maxBits = maxBits)
    (hg : (w.contextOf m).types.Grows (w'.contextOf m).types)
    (hb : (w'.contextOf m).types.HasBodies (.of o'.bodies))
    (hk : ∀ name, (w'.contextOf m).types.Knows name ↔ name ∈ o'.names) : w'.Holds m maxBits o' where
  maxBits := hmax
  hasBodies := hb
  knows := hk
  funcs := by
    rw [hm, hp]
    exact h.funcs.imp fun p f hf => hf.mono h.hasBodies.settled.canonical hb.settled.canonical hg
  globals := hm ▸ h.globals
  symbols := by rw [hm, hp, h.symbols]

end Holds

theorem yields_request? {α : Type} {q : TypeRequest α} {P : Prop} (hl : (w.contextOf m).isDisposed = false)
    (hq : (∃ a r', q (w.contextOf m).types = .ok a r') ↔ P) : Yields (w.request? m q) P fun x =>
      q (w.contextOf m).types = .ok x.1 (x.2.contextOf m).types ∧ x.2.module m = w.module m := by
  have hvalid := valid_of_live hl
  have hc : w.context (w.module m).context = w.contextOf m := rfl
  rw [request?, requestType, hc]
  cases he : q (w.contextOf m).types with
  | error e r' => exact ⟨by simpa [he] using hq, by simp⟩
  | ok a r' =>
    refine ⟨by simpa [he] using hq, fun x hx => ?_⟩
    obtain rfl := Option.some.inj hx
    let c : Context := { w.contextOf m with types := r' }
    have hm : (w.setContext (w.module m).context c).module m = w.module m :=
      module_congr (modules_setContext _ _ _) m
    have hc : (w.setContext (w.module m).context c).contextOf m = c := by
      rw [contextOf, hm, context_setContext, if_pos ⟨rfl, hvalid⟩]
    exact ⟨(congrArg (fun c => EStateM.Result.ok a c.types) hc).symm, hm⟩

open TypeRegistry TypeRequest

namespace Holds

variable (h : w.Holds m maxBits o)
include h

theorem yields_nameStruct (name : String) : Yields (w.nameStruct m name) (name.isEmpty = false)
    (Holds · m maxBits { o with structs := o.structs ++ [name] }) := by
  refine (yields_request? h.live (exists_named_iff h.live)).map fun x ⟨hq, hm⟩ => ?_
  obtain ⟨hs, -⟩ := settles_named h.hasBodies hq
  refine h.retype hm rfl ?_ (grows_of_adds hs.adds) hs.hasBodies fun n => ?_
  · rw [maxBits_of_adds hs.adds, h.maxBits]
  · simp only [hs.knows, h.knows, Outline.mem_names, List.mem_append, List.mem_singleton,
      TypeSpec.named.injEq]
    exact or_right_comm

theorem yields_giveBody {b : StructBody} (hplain : ∀ s ∈ b.fields, s.Plain)
    (hnew : b.name ∉ o.bodies.map (·.name)) : Yields (w.giveBody m b) (b.Allowed maxBits (.of o.bodies))
      (Holds · m maxBits { o with bodies := o.bodies ++ [b] }) := by
  have hB := Bodies.of_eq_none hnew
  have hgive := exists_giveBody_iff h.hasBodies hplain hB
  rw [h.maxBits] at hgive
  refine (yields_request? h.live hgive).map fun x ⟨hq, hm⟩ => ?_
  obtain ⟨hg, hmax, hb, hk⟩ := of_giveBody h.hasBodies hplain hB hq
  refine h.retype hm rfl (hmax.trans h.maxBits) hg (Bodies.of_concat o.bodies b ▸ hb) fun n => ?_
  simp only [hk, h.knows, Outline.mem_names, List.mem_append, List.mem_singleton]
  grind

end Holds

theorem yields_declareFunc {B : Bodies} {name : String} {t : TypeRef} {linkage : Linkage}
    (hb : (w.contextOf m).types.HasBodies B) (hs : (w.module m).symbols.lookup name = none) :
    Yields (w.declareFunc? m name t linkage)
      (name.isEmpty = false ∧ ∃ result params variadic,
        (w.contextOf m).types.lookup t = some (.fn result params variadic))
      fun w' => Settles (w.contextOf m).types B [.pointer 0] (w'.contextOf m).types ∧
        ∃ f : Func, f.name = name ∧ f.linkage = linkage ∧ f.isDeclaration ∧
          (w.contextOf m).types.lookup t =
            some (.fn f.retType (f.params.map (·.type)) f.variadic) ∧
          w'.module m = { w.module m with
            funcs := (w.module m).funcs ++ [f]
            symbols := (w.module m).symbols ++ [(name, .func (w.module m).funcs.length)] } := by
  have hl := hb.settled.live
  have haddress := (exists_make_iff (d := .pointer 0) hl).2 trivial
  constructor
  · rw [← DeclareM.exists_func_iff linkage hl hs haddress, declareFunc?]
    cases DeclareM.func m name t linkage w <;> simp
  · intro w' hw
    rw [declareFunc?] at hw
    cases hx : DeclareM.func m name t linkage w with
    | error e _ => simp [hx] at hw
    | ok f w₁ =>
      obtain rfl : w₁ = w' := by simpa [hx] using hw
      obtain ⟨d, -, hd, -, rfl⟩ := (DeclareM.func_meets name t linkage).of_eq_ok hx
      cases hd with
      | found hs' => simp [hs] at hs'
      | made hn _ ht hq =>
        rw [contextOf_declared hl rfl, module_declared (lt_of_live hl), if_pos rfl, Module.newFunc_eq]
        refine ⟨(settles_own (s := .pointer 0) hb rfl (by simp) hq).1, _, rfl, rfl, rfl, ?_, rfl⟩
        simpa [Function.comp_def] using ht

namespace Holds

theorem declared {p : Prototype} {f : Func} (h : w.Holds m maxBits o)
    (hs : Settles (w.contextOf m).types (.of o.bodies) (p.signature.inOrder ++ [.pointer 0])
      (w'.contextOf m).types) (hf : p.DeclaredBy (w'.contextOf m).types f)
    (hm : w'.module m = { w.module m with
      funcs := (w.module m).funcs ++ [f]
      symbols := (w.module m).symbols ++ [(p.name, .func (w.module m).funcs.length)] }) :
    w'.Holds m maxBits { o with prototypes := o.prototypes ++ [p] } where
  maxBits := by rw [maxBits_of_adds hs.adds, h.maxBits]
  hasBodies := hs.hasBodies
  knows n := by
    simp only [hs.knows, h.knows, Outline.mem_names, List.mem_append, List.mem_singleton]
    grind
  funcs := by
    rw [hm]
    refine List.rel_append (h.funcs.imp fun q g hq => ?_) (.cons hf .nil)
    exact hq.mono h.hasBodies.settled.canonical hs.hasBodies.settled.canonical (grows_of_adds hs.adds)
  globals := by rw [hm, h.globals]
  symbols := by
    rw [hm]
    simp [h.symbols]

theorem yields_declare (h : w.Holds m maxBits o) {p : Prototype} (hplain : p.signature.Plain)
    (hnew : p.name ∉ o.prototypes.map (·.name)) : Yields (w.declare m p) (p.Allowed maxBits (.of o.bodies))
      (Holds · m maxBits { o with prototypes := o.prototypes ++ [p] }) := by
  have hresolve := exists_resolve_iff h.hasBodies hplain
  rw [h.maxBits] at hresolve
  refine (yields_request? h.live hresolve).bind ?_
  rintro ⟨t, w₁⟩ ⟨hq, hm⟩
  obtain ⟨hs, ho, hT⟩ := settles_resolve h.hasBodies hplain hq
  have hc := hs.hasBodies.settled.canonical
  have hfn := hc.exists_fn_iff ho
  rw [hT] at hfn
  rw [← hfn]
  refine (yields_declareFunc hs.hasBodies (hm ▸ h.lookup_eq_none hnew)).imp ?_
  rintro w₂ ⟨hs', f, hname, hlinkage, hbodiless, hd, hm'⟩
  obtain ⟨R, Ps, hR, hPs, htree⟩ := hc.tree?_fn hd
  have hf : p.DeclaredBy (w₁.contextOf m).types f :=
    ⟨hname, hlinkage, hbodiless, R, Ps, hR, hPs, hT ▸ htree⟩
  have hf' := hf.mono hc hs'.hasBodies.settled.canonical (grows_of_adds hs'.adds)
  exact h.declared (hs.trans hs') hf' (hm ▸ hm')

end Holds

theorem module_fresh (w : World) (limit : Nat) (traces : Bool) (name : String) :
    (w.fresh limit traces name).module w.modules.length =
      { context := w.contexts.length + 1, name, serial := 1 } := by
  have hnew := context_addContext w limit traces (w.contexts.length + 1)
  rw [if_pos rfl] at hnew
  have hmodule := module_addModule (w.addContext limit traces).2 (w.contexts.length + 1) name w.modules.length
  rw [hnew] at hmodule
  exact hmodule.trans (if_pos rfl)

theorem types_fresh (w : World) (limit : Nat) (traces : Bool) (name : String) :
    ((w.fresh limit traces name).contextOf w.modules.length).types =
      .empty (w.contexts.length + 1) limit := by
  have hnew := context_addContext w limit traces (w.contexts.length + 1)
  rw [if_pos rfl] at hnew
  have hvalid := valid_of_live (w := (w.addContext limit traces).2) (congrArg Context.isDisposed hnew)
  rw [contextOf, module_fresh, fresh, context_addModule, context_setContext, if_pos ⟨rfl, hvalid⟩, hnew]
  rfl

theorem holds_fresh (w : World) (limit : Nat) (traces : Bool) (name : String) :
    (w.fresh limit traces name).Holds w.modules.length (min limit maxIntegerBits) {} := by
  have htypes := types_fresh w limit traces name
  have hunknown (n : String) : ¬ (TypeRegistry.empty (w.contexts.length + 1) limit).Knows n := by
    rintro ⟨t, body, ht⟩
    simp [lookup_empty] at ht
  constructor
  · rw [htypes]
    rfl
  · rw [htypes]
    refine ⟨⟨rfl, canonical_empty _ _, ?_⟩, founded_empty _ _, ?_, fun _ _ => rfl⟩
    · simp [lookup_empty]
    · simp [lookup_empty]
  · intro n
    simp [htypes, hunknown, Outline.mem_names]
  · rw [module_fresh]
    exact .nil
  · rw [module_fresh]
  · rw [module_fresh]
    rfl

end World

theorem Outline.yields_run {w : World} {m maxBits : Nat} {o : Outline} (h : o.Proper)
    (hw : w.Holds m maxBits {}) : Yields (o.run m w) (o.Allowed maxBits) (World.Holds · m maxBits o) := by
  -- Three rounds; the invariant of each is the outline up to the call.
  have hstructs :=
    Yields.foldlM o.structs (I := fun structs (w : World) => w.Holds m maxBits ⟨structs, [], []⟩) hw
      fun _ name _ w hw => hw.yields_nameStruct name
  have hbodies (w : World) (hw : w.Holds m maxBits ⟨o.structs, [], []⟩) :=
    Yields.foldlM o.bodies (I := fun bodies (w : World) => w.Holds m maxBits ⟨o.structs, bodies, []⟩) hw
      fun _ b hpre w hw => hw.yields_giveBody (h.fields b (hpre.subset (by simp)))
        (not_mem_before h.bodies hpre)
  have hprototypes (w : World) (hw : w.Holds m maxBits ⟨o.structs, o.bodies, []⟩) :=
    Yields.foldlM o.prototypes (I := fun ps (w : World) => w.Holds m maxBits ⟨o.structs, o.bodies, ps⟩) hw
      fun _ p hpre w hw => hw.yields_declare (h.signatures p (hpre.subset (by simp)))
        (not_mem_before h.prototypes hpre)
  have hrun := hstructs.bind fun w hw => (hbodies w hw).bind hprototypes
  refine ⟨hrun.exists_iff.trans ⟨fun ⟨hs, hb, hp⟩ => ?_, fun ha => ?_⟩, hrun.of_eq⟩
  · exact ⟨forall_prefix_iff.1 hs, hb, forall_prefix_iff.1 hp⟩
  · exact ⟨forall_prefix_iff.2 ha.structs, ha.bodies, forall_prefix_iff.2 ha.prototypes⟩

namespace World.Holds

open Assembly

variable {w : World} {m maxBits : Nat} {o : Outline}

theorem text_eq_canonical (h : w.Holds m maxBits o) (hp : o.Proper) : w.text m .canonical = o.canonical := by
  have hall := Prototype.forall_isDeclaration h.funcs
  have hdecls : (w.module m).funcs.filter (·.isDeclaration) = (w.module m).funcs :=
    List.filter_eq_self.2 hall
  have hdefs : (w.module m).funcs.filter (!·.isDeclaration) = [] := by simpa using hall
  have hstructs := structLines_eq (e := w.assemblyEnv m) h.hasBodies o.nodup_names h.knows
  have hlines := Prototype.functionLines_eq (e := w.assemblyEnv m) h.funcs h.hasBodies.settled.canonical
    hp.prototypes
  have hlive : ¬ (w.contextOf m).isDisposed = true := by simp [h.live]
  rw [Outline.canonical, ← hlines, ← hstructs]
  simp only [text, if_neg hlive, canonicalText, assemblyEnv, hdecls, hdefs, h.globals]
  simp

end World.Holds

namespace Outline

open TypeRegistry

variable {o o' : Outline} {limit : Nat}

theorem yields_text? (h : o.Proper) (w : World) (limit : Nat) (traces : Bool) (name : String) :
    Yields (o.text? w limit traces name) (o.Allowed (min limit maxIntegerBits)) (· = o.canonical) :=
  (yields_run h (w.holds_fresh limit traces name)).map fun _ hw => hw.text_eq_canonical h

/-- Canonical text does not depend on the order in which structs are named and functions are declared. When the
calls are allowed, each order of them leads to the one text that the outline tells, in any new module of any
new context; else no order of them succeeds. -/
theorem text_eq_of_rearranges (h : o.Proper) (ho : o.Rearranges o') (w w' : World) (limit : Nat)
    (traces traces' : Bool) (name name' : String) :
    (∀ text, o.text? w limit traces name = some text ↔
        o.Allowed (min limit maxIntegerBits) ∧ text = o.canonical) ∧
      o'.text? w' limit traces' name' = o.text? w limit traces name := by
  have hy := yields_text? h w limit traces name
  have hy' := yields_text? (ho.proper h) w' limit traces' name'
  rw [← ho.allowed_iff, ← ho.canonical_eq h] at hy'
  refine ⟨fun text => ⟨fun ht => ⟨hy.exists_iff.1 ⟨text, ht⟩, hy.of_eq text ht⟩, ?_⟩, ?_⟩
  · rintro ⟨ha, rfl⟩
    obtain ⟨text, ht⟩ := hy.exists_iff.2 ha
    exact hy.of_eq text ht ▸ ht
  · exact hy'.eq hy fun text text' ht ht' => ht.trans ht'.symm

def cells : Outline where
  structs := ["list", "cell"]
  bodies := [⟨"cell", [.int 32, .pointer 0], false⟩]
  prototypes := [⟨"push", .fn [.void, .pointer 0, .named "cell"] false, .exported⟩,
    ⟨"log", .fn [.int 32, .pointer 0] true, .imported⟩]

def cellsReversed : Outline :=
  { cells with structs := cells.structs.reverse, prototypes := cells.prototypes.reverse }

def numbers (w : World) (struct func : String) : Option Nat × Option Nat × Option Nat :=
  (((w.contextOf 0).types.lookupNamed struct).map (·.id), (w.module 0).funcNamed? func,
    ((w.module 0).funcs.find? (·.name = func)).map (·.serial))

theorem proper_cells : cells.Proper where
  fields := by simp [cells, TypeSpec.Plain, TypeSpec.inOrder]
  signatures := by simp [cells, TypeSpec.Plain, TypeSpec.inOrder, TypeSpec.inOrderAll]
  bodies := by decide
  prototypes := by decide

theorem rearranges_cells : cells.Rearranges cellsReversed where
  structs := (List.reverse_perm _).symm
  bodies := rfl
  prototypes := (List.reverse_perm _).symm

theorem text_cells :
    (cells.Proper ∧ cells.Rearranges cellsReversed) ∧
      cells.text? {} 64 false "m" = some
        ("%cell = type \x7b i32, ptr \x7d\n%list = type opaque\n" ++
          "declare import i32 @log(ptr, ...)\ndeclare export void @push(ptr, %cell)\n") ∧
      cellsReversed.text? {} 64 false "m" = cells.text? {} 64 false "m" ∧
      (cells.run 0 (World.fresh {} 64 false "m")).map (numbers · "cell" "log") =
        some (some 2, some 1, some 2) ∧
      (cellsReversed.run 0 (World.fresh {} 64 false "m")).map (numbers · "cell" "log") =
        some (some 1, some 0, some 1) := by
  have h := text_eq_of_rearranges proper_cells rearranges_cells {} {} 64 false false "m" "m"
  exact ⟨⟨proper_cells, rearranges_cells⟩, by cbv, h.2, by cbv, by cbv⟩

end Outline

end TypedIR
