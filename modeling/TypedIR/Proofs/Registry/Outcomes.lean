import TypedIR.Proofs.Registry.Bodies

namespace TypedIR

open Relation (ReflTransGen)

namespace TypeSpec

def Plain (s : TypeSpec) : Prop := ∀ p ∈ s.inOrder, ∀ t, p ≠ .handle t

def plain? (s : TypeSpec) : Option TypeTree := s.tree? fun _ => none

def Allowed (maxBits : Nat) (B : Bodies) (s : TypeSpec) : Prop :=
  ∃ T, s.plain? = some T ∧ T.Allowed maxBits B

variable {s p : TypeSpec} {ss : List TypeSpec}

theorem mem_inOrderAll : p ∈ inOrderAll ss ↔ ∃ s ∈ ss, p ∈ s.inOrder := by
  induction ss with
  | nil => simp [inOrderAll]
  | cons s ss ih => simp [inOrderAll, ih]

theorem mem_inOrder : p ∈ s.inOrder ↔ p = s ∨ ∃ q ∈ s.asked, p ∈ q.inOrder := by
  rw [inOrder_eq, List.mem_append, mem_inOrderAll, List.mem_singleton, or_comm]

theorem Plain.asked (h : s.Plain) : ∀ p ∈ s.asked, p.Plain :=
  fun p hp q hq => h q (mem_inOrder.2 (.inr ⟨p, hp, hq⟩))

theorem length_trees? {part : TypeRef → Option TypeTree} {Ts : List TypeTree}
    (h : trees? part ss = some Ts) : Ts.length = ss.length := by
  rw [trees?_eq_mapM, mapM_eq_some_iff] at h
  exact h.length_eq.symm

section Congr

variable {part part' : TypeRef → Option TypeTree}

theorem trees?_congr (h : ∀ p ∈ ss, p.tree? part = p.tree? part') : trees? part ss = trees? part' ss := by
  rw [trees?_eq_mapM, trees?_eq_mapM, mapM_congr h]

theorem element?_eq_none (part : TypeRef → Option TypeTree) (f : TypeTree → TypeTree)
    (h : ss.length ≠ 1) :
    (do let [elem] ← trees? part ss | none
        return f elem : Option TypeTree) = none := by
  match hTs : trees? part ss with
  | some [T] => exact absurd (length_trees? hTs).symm h
  | none | some [] | some (_ :: _ :: _) => rfl

theorem element?_congr (f : TypeTree → TypeTree)
    (h : ∀ p ∈ if ss.length = 1 then ss else [], p.tree? part = p.tree? part') :
    (do let [elem] ← trees? part ss | none
        return f elem : Option TypeTree) = do
      let [elem] ← trees? part' ss | none
      return f elem := by
  by_cases hone : ss.length = 1
  · rw [if_pos hone] at h
    rw [trees?_congr h]
  · rw [element?_eq_none part f hone, element?_eq_none part' f hone]

end Congr

theorem Plain.tree?_eq (h : s.Plain) (part : TypeRef → Option TypeTree) : s.tree? part = s.plain? := by
  induction s using asked_induction with
  | h s ih =>
    have hparts (p : TypeSpec) (hp : p ∈ s.asked) : p.tree? part = p.tree? fun _ => none :=
      ih p hp (h.asked p hp)
    cases s with
    | array parts count => exact element?_congr (.array · count) hparts
    | vector parts count => exact element?_congr (.vector · count) hparts
    | struct parts packed =>
      have hparts : trees? part parts = trees? (fun _ => none) parts := trees?_congr hparts
      rw [plain?, tree?, tree?, hparts]
    | fn parts variadic =>
      have hparts : trees? part parts = trees? (fun _ => none) parts := trees?_congr hparts
      rw [plain?, tree?, tree?, hparts]
    | handle t => exact absurd rfl (h (.handle t) (mem_inOrder.2 (.inl rfl)) t)
    | _ => rfl

end TypeSpec

namespace TypeRequest

open TypeRegistry

variable {r r' : TypeRegistry} {B : Bodies} {s p : TypeSpec} {ss : List TypeSpec} {t : TypeRef}
  {ts : List TypeRef} {d : TypeDesc} {name : String}

theorem exists_make_iff (hl : r.disposed = false) : (∃ t r', make d r = .ok t r') ↔ r.Admits d := by
  rw [← check_eq_ok_iff]
  constructor
  · rintro ⟨t, r', h⟩
    exact check_of_make h
  · intro h
    exact ⟨_, _, by rw [make, hl, h]; rfl⟩

theorem exists_named_iff (hl : r.disposed = false) :
    (∃ t r', named name r = .ok t r') ↔ name.isEmpty = false := by
  constructor
  · rintro ⟨t, r', h⟩
    exact (of_named_eq_ok h).2.1
  · intro h
    cases ht : r.lookupNamed name with
    | none => exact ⟨_, _, by simp [named, hl, h, ht]; exact ⟨rfl, rfl⟩⟩
    | some t => exact ⟨t, r, by simp [named, hl, h, ht]⟩

theorem exists_own_iff_of_make (h : r.HasBodies B) (hn : d.isNamed = false) (hown : s.own ts = make d)
    (hT : s.plain? = d.tree? r.tree?) (hsome : (d.tree? r.tree?).isSome) :
    (∃ t r', s.own ts r = .ok t r') ↔ s.Allowed r.maxBits B := by
  obtain ⟨T, hd⟩ := Option.isSome_iff_exists.1 hsome
  rw [hown, exists_make_iff h.settled.live, h.admits_iff hn hd]
  simp [TypeSpec.Allowed, hT, hd]

theorem exists_own_iff_of_throw {e : TypeError} (hown : s.own ts = throw e) (hT : s.plain? = none) :
    (∃ t r', s.own ts r = .ok t r') ↔ s.Allowed r.maxBits B := by
  simp [TypeSpec.Allowed, hown, hT, throw_eq_error]

theorem exists_own_iff_of_element (desc : TypeRef → TypeDesc) {parts : List TypeSpec}
    {tree : TypeTree → TypeTree} (h : r.HasBodies B) (hs : s.Plain)
    (hts : List.Forall₂ r.Has (if parts.length = 1 then parts else []) ts)
    (htree : s.tree? r.tree? = do
      let [S] ← TypeSpec.trees? r.tree? parts | none
      return tree S)
    (hown : ∀ elem rest, s.own (elem :: rest) = make (desc elem))
    (hnone : s.own [] = throw .elementCount) (hn : ∀ elem, (desc elem).isNamed = false)
    (hd : ∀ elem, (desc elem).tree? r.tree? = do return tree (← r.tree? elem)) :
    (∃ t r', s.own ts r = .ok t r') ↔ s.Allowed r.maxBits B := by
  by_cases hone : parts.length = 1
  · rw [if_pos hone] at hts
    obtain ⟨p, rfl⟩ := List.length_eq_one_iff.1 hone
    obtain ⟨elem, rest, hp, hrest, rfl⟩ := List.forall₂_cons_left_iff.1 hts
    obtain rfl := List.forall₂_nil_left_iff.1 hrest
    obtain ⟨S, hS⟩ := Option.isSome_iff_exists.1 (h.settled.canonical.isSome_tree? hp.1)
    refine exists_own_iff_of_make h (hn elem) (hown elem []) ?_ (by simp [hd, hS])
    rw [← hs.tree?_eq r.tree?, htree, hd, hS]
    simp [TypeSpec.trees?, hp.2, hS]
  · rw [if_neg hone] at hts
    obtain rfl := List.forall₂_nil_left_iff.1 hts
    refine exists_own_iff_of_throw hnone ?_
    rw [← hs.tree?_eq r.tree?, htree, TypeSpec.element?_eq_none r.tree? tree hone]

theorem exists_own_iff (h : r.HasBodies B) (hs : s.Plain) (hts : List.Forall₂ r.Has s.asked ts) :
    (∃ t r', s.own ts r = .ok t r') ↔ s.Allowed r.maxBits B := by
  have hc := h.settled.canonical
  obtain ⟨howns, htrees⟩ := (forall₂_has_iff hc).1 hts
  cases s with
  | void => exact exists_own_iff_of_make (d := .void) h rfl rfl rfl rfl
  | int bits => exact exists_own_iff_of_make (d := .int bits) h rfl rfl rfl rfl
  | float kind => exact exists_own_iff_of_make (d := .float kind) h rfl rfl rfl rfl
  | pointer space => exact exists_own_iff_of_make (d := .pointer space) h rfl rfl rfl rfl
  | array parts count =>
    exact exists_own_iff_of_element (.array · count) h hs hts rfl (fun _ _ => rfl) rfl (fun _ => rfl)
      fun _ => rfl
  | vector parts count =>
    exact exists_own_iff_of_element (.vector · count) h hs hts rfl (fun _ _ => rfl) rfl (fun _ => rfl)
      fun _ => rfl
  | struct parts packed =>
    have htrees : TypeSpec.trees? r.tree? parts = ts.mapM r.tree? := htrees
    refine exists_own_iff_of_make (d := .struct ts packed) h rfl rfl ?_ ?_
    · rw [← hs.tree?_eq r.tree?, TypeSpec.tree?, htrees, TypeDesc.tree?]
    · exact TypeDesc.isSome_tree? fun p hp => hc.isSome_tree? (howns p hp)
  | fn parts variadic =>
    have htrees : TypeSpec.trees? r.tree? parts = ts.mapM r.tree? := htrees
    cases ts with
    | nil =>
      refine exists_own_iff_of_throw rfl ?_
      rw [← hs.tree?_eq r.tree?, TypeSpec.tree?, htrees]
      rfl
    | cons result params =>
      refine exists_own_iff_of_make (d := .fn result params variadic) h rfl rfl ?_ ?_
      · rw [← hs.tree?_eq r.tree?, TypeSpec.tree?, htrees, TypeDesc.tree?, List.mapM_cons]
        cases r.tree? result with
        | none => rfl
        | some S => cases params.mapM r.tree? <;> rfl
      · exact TypeDesc.isSome_tree? fun p hp => hc.isSome_tree? (howns p hp)
  | named name =>
    refine (exists_named_iff h.settled.live).trans ?_
    cases hn : name.isEmpty <;>
      simp [TypeSpec.Allowed, TypeSpec.plain?, TypeSpec.tree?, hn, TypeTree.Allowed]
  | handle t => exact absurd rfl (hs (.handle t) (TypeSpec.mem_inOrder.2 (.inl rfl)) t)
  | malformed => exact exists_own_iff_of_throw rfl rfl

theorem exists_bind_iff {α β : Type} {x : TypeRequest α} {f : α → TypeRequest β} {P Q : Prop}
    (hx : (∃ a r', x r = .ok a r') ↔ P)
    (hf : ∀ a r', x r = .ok a r' → ((∃ b r'', f a r' = .ok b r'') ↔ Q)) :
    (∃ b r', (x >>= f) r = .ok b r') ↔ P ∧ Q := by
  constructor
  · rintro ⟨b, r'', hq⟩
    obtain ⟨a, r', ha, hb⟩ := of_bind_eq_ok hq
    exact ⟨hx.1 ⟨a, r', ha⟩, (hf a r' ha).1 ⟨b, r'', hb⟩⟩
  · rintro ⟨hP, hQ⟩
    obtain ⟨a, r', ha⟩ := hx.2 hP
    obtain ⟨b, r'', hb⟩ := (hf a r' ha).2 hQ
    exact ⟨b, r'', by simp [Bind.bind, EStateM.bind, ha, hb]⟩

theorem forall₂_has_of_resolveAll (hr : r.Settled) (hq : resolveAll ss r = .ok ts r') :
    r'.Settled ∧ List.Forall₂ r'.Has ss ts := by
  have hadds := adds_of_eq_ok (inherited_onlyAdds.resolveAll ss) hq
  have hr' : r'.Settled := by
    clear hq
    induction hadds with
    | refl => exact hr
    | tail _ ha ih => exact (Step.adds ha).settled ih
  have hagain := (inherited_repeatable.resolveAll ss).again hq .refl hr'.canonical
  exact ⟨hr', (resolveAll_eq_ok_iff.1 hagain).imp fun p t => (hr'.answers_iff_has p t).1⟩

theorem exists_resolveAll_iff (h : r.HasBodies B) (hss : ∀ s ∈ ss, ∀ {r}, r.HasBodies B →
      ((∃ t r', resolve s r = .ok t r') ↔ ∀ p ∈ s.inOrder, p.Allowed r.maxBits B)) :
    (∃ ts r', resolveAll ss r = .ok ts r') ↔ ∀ p ∈ TypeSpec.inOrderAll ss, p.Allowed r.maxBits B := by
  induction ss generalizing r with
  | nil => simpa [resolveAll, TypeSpec.inOrderAll] using ⟨_, r, rfl⟩
  | cons s ss ih =>
    have hrest {r : TypeRegistry} (hr : r.HasBodies B) :=
      ih hr fun p hp _ hr => hss p (List.mem_cons_of_mem s hp) hr
    rw [TypeSpec.inOrderAll, List.forall_mem_append, ← hss s List.mem_cons_self h, resolveAll]
    refine exists_bind_iff Iff.rfl fun t r₁ h₁ => ?_
    have hadds := adds_of_eq_ok (inherited_onlyAdds.resolve s) h₁
    have hcons : (∃ ts r', (resolveAll ss >>= fun ts => pure (t :: ts)) r₁ = .ok ts r') ↔ _ ∧ True :=
      exists_bind_iff Iff.rfl fun ts r₂ _ => iff_of_true ⟨t :: ts, r₂, rfl⟩ trivial
    rw [← maxBits_of_adds hadds, ← hrest (h.adds hadds)]
    exact hcons.trans (iff_of_eq (and_true _))

theorem exists_resolve_iff (h : r.HasBodies B) (hs : s.Plain) :
    (∃ t r', resolve s r = .ok t r') ↔ ∀ p ∈ s.inOrder, p.Allowed r.maxBits B := by
  induction s using TypeSpec.asked_induction generalizing r with
  | h s ih =>
    have hparts := exists_resolveAll_iff h fun p hp _ hr => ih p hp hr (hs.asked p hp)
    rw [s.inOrder_eq, List.forall_mem_append, List.forall_mem_singleton, ← hparts]
    have hbind (t : TypeRef) (r' : TypeRegistry) :
        resolve s r = .ok t r' ↔ (resolveAll s.asked >>= s.own) r = .ok t r' := by
      simp [s.resolve_eq, Bind.bind, EStateM.bind, live, h.settled.live]
    simp only [hbind]
    refine exists_bind_iff Iff.rfl fun ts r₁ h₁ => ?_
    have hadds := adds_of_eq_ok (inherited_onlyAdds.resolveAll s.asked) h₁
    rw [← maxBits_of_adds hadds]
    exact exists_own_iff (h.adds hadds) hs (forall₂_has_of_resolveAll h.settled h₁).2

theorem eq_of_tree?_eq_named {part : TypeRef → Option TypeTree} (hp : ∀ t, p ≠ .handle t)
    (hT : p.tree? part = some (.named name)) : p = .named name := by
  cases p with
  | named n =>
    cases hn : n.isEmpty <;> simp_all [TypeSpec.tree?]
  | handle t => exact absurd rfl (hp t)
  | array parts _ | vector parts _ =>
    obtain ⟨Ts, -, hT⟩ := Option.bind_eq_some_iff.1 hT
    split at hT <;> simp at hT
  | struct parts _ => simp [TypeSpec.tree?, Option.bind_eq_some_iff] at hT
  | fn parts _ =>
    obtain ⟨Ts, -, hT⟩ := Option.bind_eq_some_iff.1 hT
    split at hT <;> simp at hT
  | _ => simp [TypeSpec.tree?] at hT

theorem Leaves.knows_iff (h : Leaves r r' ss) (hr' : r'.Settled) (hss : ∀ p ∈ ss, ∀ t, p ≠ .handle t) :
    r'.Knows name ↔ r.Knows name ∨ .named name ∈ ss := by
  constructor
  · rintro ⟨t, body, hd⟩
    rcases h.made t (owns_iff.2 ⟨_, hd⟩) with ho | ⟨p, hp, ha⟩
    · obtain ⟨e, he⟩ := owns_iff.1 ho
      obtain rfl := Option.some.inj ((lookup_of_adds h.runs he).symm.trans hd)
      exact .inl ⟨t, body, he⟩
    · have htree := ((hr'.answers_iff_has p t).1 ha).2
      rw [hr'.canonical.tree?_eq hd] at htree
      exact .inr (eq_of_tree?_eq_named (hss p hp) htree ▸ hp)
  · rintro (hk | hmem)
    · exact hk.of_grows (grows_of_adds h.runs)
    · obtain ⟨t, ht⟩ := h.answers _ hmem
      obtain ⟨T, hT, d, hd, hdT⟩ := (has_iff hr'.canonical).1 ((hr'.answers_iff_has _ t).1 ht)
      cases hn : name.isEmpty with
      | true => simp [TypeSpec.tree?, hn] at hT
      | false =>
        obtain rfl : .named name = T := by simpa [TypeSpec.tree?, hn] using hT
        obtain ⟨body, rfl⟩ := TypeDesc.tree?_eq_named_iff.1 hdT
        exact ⟨t, body, hd⟩

/-- What is left when plain specs were answered: the bodies as they were, and the structs that are named. -/
structure Settles (r : TypeRegistry) (B : Bodies) (asked : List TypeSpec) (r' : TypeRegistry) : Prop where
  adds : ReflTransGen Adds r r'
  hasBodies : r'.HasBodies B
  knows : ∀ name, r'.Knows name ↔ r.Knows name ∨ .named name ∈ asked

theorem Settles.of_leaves (h : r.HasBodies B) (hl : Leaves r r' ss) (hss : ∀ p ∈ ss, ∀ t, p ≠ .handle t) :
    Settles r B ss r' :=
  have hb := h.adds hl.runs
  ⟨hl.runs, hb, fun _ => hl.knows_iff hb.settled hss⟩

theorem Settles.trans {ss ss' : List TypeSpec} (h : Settles r B ss r') (h' : Settles r' B ss' r'') :
    Settles r B (ss ++ ss') r'' where
  adds := h.adds.trans h'.adds
  hasBodies := h'.hasBodies
  knows name := by rw [h'.knows, h.knows, List.mem_append, or_assoc]

theorem settles_resolve (h : r.HasBodies B) (hs : s.Plain) (hq : resolve s r = .ok t r') :
    Settles r B s.inOrder r' ∧ r'.owns t ∧ r'.tree? t = s.plain? := by
  have hl := (tracked_resolve s).answered h.settled.canonical hq
  have hb := h.adds hl.runs
  have hagain := (inherited_repeatable.resolve s).again hq .refl hb.settled.canonical
  obtain ⟨ho, hT⟩ := (hb.settled.answers_iff_has s t).1 hagain
  exact ⟨.of_leaves h hl hs, ho, (hT.symm.trans (hs.tree?_eq _))⟩

theorem settles_own (h : r.HasBodies B) (hs : s.asked = []) (hn : ∀ t, s ≠ .handle t)
    (hq : s.own [] r = .ok t r') : Settles r B [s] r' ∧ r'.owns t ∧ r'.tree? t = s.plain? := by
  have hin : s.inOrder = [s] := by rw [s.inOrder_eq, hs, TypeSpec.inOrderAll, List.nil_append]
  have hplain : s.Plain := by simpa [TypeSpec.Plain, hin] using hn
  have hparts : resolveAll s.asked r = .ok [] r := by rw [hs]; rfl
  exact hin ▸ settles_resolve h hplain ((resolve_eq_own h.settled.live hparts).trans hq)

theorem settles_named (h : r.HasBodies B) (hq : named name r = .ok t r') :
    Settles r B [.named name] r' ∧ ∃ body, r'.lookup t = some (.named name body) :=
  ⟨(settles_own (s := .named name) h rfl (by simp) hq).1, (of_named_eq_ok hq).2.2⟩

theorem settles_resolveAll (h : r.HasBodies B) (hss : ∀ s ∈ ss, s.Plain)
    (hq : resolveAll ss r = .ok ts r') : Settles r B (TypeSpec.inOrderAll ss) r' ∧
      ∃ Ts, ts.mapM r'.tree? = some Ts ∧ ss.mapM TypeSpec.plain? = some Ts := by
  have hl := (Tracked.resolveAll fun s _ => tracked_resolve s).answered h.settled.canonical hq
  have hc := (h.adds hl.runs).settled.canonical
  refine ⟨.of_leaves h hl fun p hp => ?_, ?_⟩
  · obtain ⟨s, hs, hps⟩ := TypeSpec.mem_inOrderAll.1 hp
    exact hss s hs p hps
  · obtain ⟨howns, htrees⟩ := (forall₂_has_iff hc).1 (forall₂_has_of_resolveAll h.settled hq).2
    obtain ⟨Ts, hTs⟩ := hc.exists_trees howns
    have hplain : ss.mapM TypeSpec.plain? = TypeSpec.trees? r'.tree? ss := by
      rw [TypeSpec.trees?_eq_mapM]
      exact mapM_congr fun s hs => ((hss s hs).tree?_eq _).symm
    exact ⟨Ts, hTs, hplain.trans (htrees.trans hTs)⟩

end TypeRequest

end TypedIR
