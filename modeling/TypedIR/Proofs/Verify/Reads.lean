import Mathlib
import TypedIR.Proofs.Typing.Judgment
import TypedIR.Proofs.Typing.Operands
import TypedIR.Proofs.Verify.Walk

/-! Reads in verified modules. A definition that dominates a use lies on every walk to it, so every
read finds its temporary given; only the phis of an entry block define temporaries that are never
given a value, since no edge leads there. -/

namespace TypedIR

theorem span_eq_filter {α : Type} {q : α → Bool} {xs : List α}
    (h : ∀ n x, xs[n]? = some x → q x → ∀ y ∈ xs.take n, q y) :
    xs.takeWhile q = xs.filter q ∧ xs.dropWhile q = xs.filter (!q ·) := by
  induction xs with
  | nil => simp
  | cons x xs ih =>
    by_cases hx : q x
    · have htail : ∀ n y, xs[n]? = some y → q y → ∀ z ∈ xs.take n, q z := fun n y hn hy z hz =>
        h (n + 1) y (by simpa using hn) hy z (by simp [hz])
      simpa [hx] using ih htail
    · have hnone : ∀ y ∈ xs, ¬ q y := by
        intro y hy hq
        obtain ⟨n, hn⟩ := List.mem_iff_getElem?.1 hy
        exact hx (h (n + 1) y (by simpa using hn) hq x (by simp))
      have hf : xs.filter q = [] := List.filter_eq_nil_iff.2 hnone
      have hg : xs.filter (!q ·) = xs := List.filter_eq_self.2 fun y hy => by simpa using hnone y hy
      simp [hx, hf, hg]

namespace World

variable {w : World} {m : Nat} {f g : FuncRef} {a b c e : BlockRef} {x : Block} {id : Nat}
  {p : List BlockRef} {source : Option BlockRef}

namespace BlockShape

theorem phis_eq (h : w.BlockShape f x) : x.phis = x.instrs.filter (·.op = .phi) :=
  (span_eq_filter fun n i hn hi j hj => by
    exact decide_eq_true ((h.instrs n i hn).phi (of_decide_eq_true hi) j hj)).1

theorem body_eq (h : w.BlockShape f x) : x.body = x.instrs.filter (fun i => !decide (i.op = .phi)) :=
  (span_eq_filter fun n i hn hi j hj => by
    exact decide_eq_true ((h.instrs n i hn).phi (of_decide_eq_true hi) j hj)).2

end BlockShape

theorem give_mem_visit_iff (hx : w.block? c = some x) :
    .give g id ∈ w.visit source c ↔ c.func = g ∧
      ((∃ i ∈ x.phis, i.operandsFrom source ≠ [] ∧ i.result = some id) ∨
        ∃ i ∈ x.body, i.result = some id) := by
  simp only [visit, hx, Block.entering, Block.running, List.mem_append, List.mem_flatMap,
    Event.give_not_mem_reads, Event.mem_gives, and_false, exists_false, false_or, List.mem_filter,
    Bool.not_eq_true', List.isEmpty_eq_false_iff]
  grind

theorem func_eq_of_give_mem_visit (h : .give g id ∈ w.visit source c) : c.func = g := by
  cases hx : w.block? c with
  | none => simp [visit, hx] at h
  | some x => exact ((give_mem_visit_iff hx).1 h).1

theorem func_of_entryRef (he : w.entryRef? f = some e) : e.func = f := by
  obtain ⟨⟨ref, x⟩, hx, rfl⟩ := Option.map_eq_some_iff.1 he
  exact (mem_blocksOf.1 (List.mem_of_mem_head? hx)).1

def IsEntryPhi (w : World) (f : FuncRef) (s : Site) : Prop :=
  s.instr.op = .phi ∧ w.entryRef? f = some s.ref

namespace Verified

variable (h : w.Verified m)
include h

theorem length_incoming {i : Instr} {s : Site} (hf : f ∈ w.funcRefs m) (hs : s ∈ w.sites f)
    (hi : s.instr = i) (hop : i.op = .phi) : i.incoming.length = i.operands.length := by
  have hok := (checkInstr_eq_ok_iff.1 (h.typing f hf s hs)).2.2
  rw [hi] at hok
  simp only [Instr.checkRule, hop, Opcode.category] at hok
  exact (Instr.checkPhi_iff.1 hok).2.1

theorem entry_not_mem_succs (hf : f ∈ w.funcRefs m) (he : w.entryRef? f = some e) :
    e ∉ (w.flowGraph m).succs a := by
  intro hs
  have hp := (isFunctional_flowGraph w m).mem_preds_iff.2 hs
  simp [(h.shape f hf).entry e he] at hp

theorem operandsFrom_ne_nil (hf : c.func ∈ w.funcRefs m) (hx : w.block? c = some x) {i : Instr}
    (hi : i ∈ x.phis) (hc : c ∈ (w.flowGraph m).succs a) : i.operandsFrom (some a) ≠ [] := by
  have hblock := mem_blocksOf.2 ⟨rfl, hx⟩
  have hphis := ((h.shape _ hf).blocks c x hblock).phis_eq
  obtain ⟨hmem, hop⟩ := List.mem_filter.1 (hphis ▸ hi)
  have hedges := h.phis _ hf c x hblock i hi
  obtain ⟨k, hk⟩ := List.mem_iff_getElem?.1
    (hedges.covered a ((isFunctional_flowGraph w m).mem_preds_iff.2 hc))
  obtain ⟨n, hn⟩ := List.mem_iff_getElem?.1 hmem
  have hlen := h.length_incoming (s := ⟨c, x, n, i⟩) hf (mem_sites.2 ⟨rfl, hx, hn⟩) rfl
    (of_decide_eq_true hop)
  have hlt : k < i.operands.length := hlen ▸ (List.getElem?_eq_some_iff.1 hk).1
  exact List.ne_nil_of_mem (Instr.mem_operandsFrom.2 ⟨k, hk, List.getElem?_eq_getElem hlt⟩)

theorem blockShape (hf : c.func ∈ w.funcRefs m) (hx : w.block? c = some x) : w.BlockShape c.func x :=
  (h.shape _ hf).blocks c x (mem_blocksOf.2 ⟨rfl, hx⟩)

theorem give_mem_visit_entry (hf : f ∈ w.funcRefs m) (he : e.func = f) :
    .give f id ∈ w.visit none e ↔
      ∃ s ∈ w.sites f, s.ref = e ∧ s.instr.result = some id ∧ s.instr.op ≠ .phi := by
  subst he
  cases hx : w.block? e with
  | none =>
    simp only [visit, hx, List.not_mem_nil, false_iff]
    rintro ⟨s, hs, rfl, _⟩
    simp [(mem_sites.1 hs).2.1] at hx
  | some x =>
    rw [give_mem_visit_iff hx, (h.blockShape hf hx).body_eq]
    simp only [Instr.operandsFrom, ne_eq, not_true_eq_false, false_and, and_false, exists_false,
      false_or, true_and, List.mem_filter, Bool.not_eq_true', decide_eq_false_iff_not]
    constructor
    · rintro ⟨i, ⟨hi, hop⟩, hr⟩
      obtain ⟨n, hn⟩ := List.mem_iff_getElem?.1 hi
      exact ⟨⟨e, x, n, i⟩, mem_sites.2 ⟨rfl, hx, hn⟩, rfl, hr, hop⟩
    · rintro ⟨s, hs, rfl, hr, hop⟩
      obtain ⟨_, hb, hi⟩ := mem_sites.1 hs
      obtain rfl : x = s.block := by simpa [hx] using hb
      exact ⟨s.instr, ⟨List.mem_of_getElem? hi, hop⟩, hr⟩

theorem give_mem_visit_edge (hf : f ∈ w.funcRefs m) (hc : c ∈ (w.flowGraph m).succs a) :
    .give f id ∈ w.visit (some a) c ↔
      ∃ s ∈ w.sites f, s.ref = c ∧ s.instr.result = some id := by
  constructor
  · intro hg
    obtain rfl := func_eq_of_give_mem_visit hg
    cases hx : w.block? c with
    | none => simp [visit, hx] at hg
    | some x =>
      obtain ⟨i, hi, hr⟩ : ∃ i ∈ x.instrs, i.result = some id := by
        rcases ((give_mem_visit_iff hx).1 hg).2 with ⟨i, hi, _, hr⟩ | ⟨i, hi, hr⟩
        · exact ⟨i, (List.takeWhile_sublist _).subset hi, hr⟩
        · exact ⟨i, (List.dropWhile_sublist _).subset hi, hr⟩
      obtain ⟨n, hn⟩ := List.mem_iff_getElem?.1 hi
      exact ⟨⟨c, x, n, i⟩, mem_sites.2 ⟨rfl, hx, hn⟩, rfl, hr⟩
  · rintro ⟨s, hs, rfl, hr⟩
    obtain ⟨rfl, hx, hi⟩ := mem_sites.1 hs
    have hshape := h.blockShape hf hx
    have hmem := List.mem_of_getElem? hi
    rw [give_mem_visit_iff hx]
    refine ⟨rfl, ?_⟩
    by_cases hop : s.instr.op = .phi
    · have hphi : s.instr ∈ s.block.phis := by
        rw [hshape.phis_eq]
        exact List.mem_filter.2 ⟨hmem, decide_eq_true hop⟩
      exact .inl ⟨s.instr, hphi, h.operandsFrom_ne_nil hf hx hphi hc, hr⟩
    · refine .inr ⟨s.instr, ?_, hr⟩
      rw [hshape.body_eq]
      exact List.mem_filter.2 ⟨hmem, by simpa using hop⟩

theorem give_mem_events_iff (hf : f ∈ w.funcRefs m) (hp : w.FlowPath m f b p) :
    .give f id ∈ w.events none p ↔
      ∃ s ∈ w.sites f, s.ref ∈ p ∧ s.instr.result = some id ∧ ¬ w.IsEntryPhi f s := by
  obtain ⟨e, he, hp⟩ := hp
  induction hp with
  | refl =>
    simp only [events, List.append_nil, h.give_mem_visit_entry hf (func_of_entryRef he),
      List.mem_singleton, IsEntryPhi, he, Option.some.injEq]
    refine exists_congr fun s => and_congr_right fun _ => ?_
    grind
  | @step b c p hp hc ih =>
    rw [events_concat, hp.getLast?, List.mem_append, ih]
    simp only [Option.some_or, h.give_mem_visit_edge hf hc, List.mem_append, List.mem_singleton]
    have hce : c ≠ e := fun hce => h.entry_not_mem_succs hf he (hce ▸ hc)
    constructor
    · rintro (⟨s, hs, hsp, hr, hn⟩ | ⟨s, hs, rfl, hr⟩)
      · exact ⟨s, hs, .inl hsp, hr, hn⟩
      · exact ⟨s, hs, .inr rfl, hr, fun hn => hce (Option.some.inj (hn.2.symm.trans he))⟩
    · rintro ⟨s, hs, hsp | rfl, hr, hn⟩
      · exact .inl ⟨s, hs, hsp, hr, hn⟩
      · exact .inr ⟨s, hs, rfl, hr⟩

end Verified

structure IsRead (w : World) (m : Nat) (f : FuncRef) (use : Site) (k : Nat) (v : Value) : Prop where
  operand : use.instr.operands[k]? = some v
  kind : v.kind = .result
  reached : ∃ p, w.FlowPath m f use.ref p
  source : use.instr.op = .phi →
    ∃ a p, use.instr.incoming[k]? = some (some a) ∧ w.FlowPath m f a p

/-- No result of a phi of the entry block is read on any walk. -/
def EntryPhisUnread (w : World) (m : Nat) (f : FuncRef) : Prop :=
  ∀ use ∈ w.sites f, ∀ k v, w.IsRead m f use k v →
    ∀ s ∈ w.sites f, s.instr.result = some v.id → ¬ w.IsEntryPhi f s

/-- A walk that gets into blocks of another function finds given what they read. -/
def StrayReadsGiven (w : World) (m : Nat) (f : FuncRef) : Prop :=
  ∀ a c p, w.FlowPath m f a p → c ∈ (w.flowGraph m).succs a → c.func ≠ f →
    w.ReadsGiven (w.events none p) (w.visit (some a) c)

namespace Verified

variable (h : w.Verified m)
include h

theorem exists_definition (hf : f ∈ w.funcRefs m) {use : Site} (hu : use ∈ w.sites f) {k : Nat}
    {v : Value} (hv : use.instr.operands[k]? = some v) (hk : v.kind = .result) :
    v.scope = (w.func f).serial ∧ ∃ s ∈ w.sites f, s.instr.result = some v.id ∧
      ((w.domTree (w.flowGraph m) f).contains use.ref →
        isDominated (w.domTree (w.flowGraph m) f) s use k) := by
  obtain ⟨ho, hd⟩ := (h.dominance f hf).uses use hu k v hv
  obtain ⟨s, hs, hdom⟩ := hd hk
  obtain ⟨hs, hr⟩ := (definition?_eq_some_iff (h.dominance f hf).nodup).1 hs
  have hnames : (w.func f).Names v := by
    have := (checkOperand_iff.1 ho).2
    rwa [Value.Known, hk] at this
  exact ⟨hnames.scope, s, hs, hr, hdom⟩

theorem eq_of_result_eq (hf : f ∈ w.funcRefs m) {s t : Site} (hs : s ∈ w.sites f)
    (ht : t ∈ w.sites f) (hsr : s.instr.result = some id) (htr : t.instr.result = some id) :
    s = t := by
  have hn := (h.dominance f hf).nodup
  have hd := (definition?_eq_some_iff hn).2 ⟨hs, hsr⟩
  rw [(definition?_eq_some_iff hn).2 ⟨ht, htr⟩] at hd
  exact (Option.some.inj hd).symm

theorem not_isEntryPhi (hf : f ∈ w.funcRefs m) (hp : w.FlowPath m f b p)
    (hg : .give f id ∈ w.events none p) {s : Site} (hs : s ∈ w.sites f)
    (hr : s.instr.result = some id) : ¬ w.IsEntryPhi f s := by
  obtain ⟨t, ht, _, htr, hn⟩ := (h.give_mem_events_iff hf hp).1 hg
  exact h.eq_of_result_eq hf hs ht hr htr ▸ hn

end Verified

namespace Verified

variable (h : w.Verified m)
include h

theorem give_mem_events (hf : f ∈ w.funcRefs m) (ha : w.Arrival m f p source c) {s : Site}
    (hs : s ∈ w.sites f) (hr : s.instr.result = some id) (hn : ¬ w.IsEntryPhi f s)
    (hp : s.ref ∈ p) : .give f id ∈ w.events none p := by
  cases ha with
  | entry he => simp at hp
  | edge hpath hc => exact (h.give_mem_events_iff hf hpath).2 ⟨s, hs, hp, hr, hn⟩

theorem isGiven_phi (hf : f ∈ w.funcRefs m) (hunread : w.EntryPhisUnread m f) {use : Site}
    (hu : use ∈ w.sites f) (hop : use.instr.op = .phi) (hp : w.FlowPath m f a p)
    (hc : use.ref ∈ (w.flowGraph m).succs a) {v : Value}
    (hv : v ∈ use.instr.operandsFrom (some a)) : w.IsGiven f (w.events none p) v := by
  intro hk
  obtain ⟨k, hinc, hvk⟩ := Instr.mem_operandsFrom.1 hv
  obtain ⟨hscope, s, hs, hr, hd⟩ := h.exists_definition hf hu hvk hk
  have hreached : ∃ p, w.FlowPath m f use.ref p := ⟨_, hp.step hc⟩
  have hread : w.IsRead m f use k v := ⟨hvk, hk, hreached, fun _ => ⟨a, p, hinc, hp⟩⟩
  have hdom := hd (contains_domTree_iff.2 hreached)
  have hcon : (w.domTree (w.flowGraph m) f).contains a := contains_domTree_iff.2 ⟨p, hp⟩
  simp only [isDominated, hop, if_true, hinc, Option.join_some, hcon, Bool.not_true,
    Bool.false_or] at hdom
  exact ⟨hscope, (h.give_mem_events_iff hf hp).2
    ⟨s, hs, (dominates_domTree_iff.1 hdom).2 p hp, hr, hunread use hu k v hread s hs hr⟩⟩

theorem give_mem_entering (hf : f ∈ w.funcRefs m) {s : Site} (hs : s ∈ w.sites f)
    (hphi : s.instr.op = .phi) (hr : s.instr.result = some id) (hn : ¬ w.IsEntryPhi f s)
    (ha : w.Arrival m f p source s.ref) : .give f id ∈ s.block.entering f source := by
  obtain ⟨rfl, hx, hi⟩ := mem_sites.1 hs
  have hmem : s.instr ∈ s.block.phis := by
    rw [(h.blockShape hf hx).phis_eq]
    exact List.mem_filter.2 ⟨List.mem_of_getElem? hi, decide_eq_true hphi⟩
  cases ha with
  | entry he => exact absurd ⟨hphi, he⟩ hn
  | edge hp hc =>
    have hne := h.operandsFrom_ne_nil hf hx hmem hc
    simp only [Block.entering, List.mem_append, List.mem_flatMap, List.mem_filter, Event.mem_gives]
    exact .inr ⟨s.instr, ⟨hmem, by simpa using hne⟩, trivial, hr⟩

theorem give_mem_running (hf : f ∈ w.funcRefs m) {s : Site} (hs : s ∈ w.sites f)
    (hphi : s.instr.op ≠ .phi) (hr : s.instr.result = some id) {n : Nat}
    (hlt : s.index < s.block.phis.length + n) :
    .give f id ∈ Block.running f (s.block.body.take n) := by
  obtain ⟨rfl, hx, hi⟩ := mem_sites.1 hs
  have hge : s.block.phis.length ≤ s.index := by
    apply Nat.le_of_not_lt
    intro hlt
    rw [← s.block.phis_append_body, List.getElem?_append_left hlt] at hi
    have hmem := List.mem_of_getElem? hi
    rw [(h.blockShape hf hx).phis_eq, List.mem_filter] at hmem
    exact hphi (of_decide_eq_true hmem.2)
  have hbody : (s.block.body.take n)[s.index - s.block.phis.length]? = some s.instr := by
    rw [List.getElem?_take_of_lt (by omega), Block.getElem?_body, Nat.add_sub_cancel' hge, hi]
  simp only [Block.running, List.mem_flatMap, List.mem_append, Event.mem_gives]
  exact ⟨s.instr, List.mem_of_getElem? hbody, .inr ⟨trivial, hr⟩⟩

theorem isGiven_body (hf : f ∈ w.funcRefs m) (hunread : w.EntryPhisUnread m f) {use : Site}
    (hu : use ∈ w.sites f) (hop : use.instr.op ≠ .phi) (ha : w.Arrival m f p source use.ref)
    {n : Nat} (hn : use.index = use.block.phis.length + n) {v : Value}
    (hv : v ∈ use.instr.operands) :
    w.IsGiven f (w.events none p ++ use.block.entering f source ++
      Block.running f (use.block.body.take n)) v := by
  intro hk
  obtain ⟨k, hvk⟩ := List.mem_iff_getElem?.1 hv
  obtain ⟨hscope, s, hs, hr, hd⟩ := h.exists_definition hf hu hvk hk
  have hreached : ∃ p, w.FlowPath m f use.ref p := ⟨_, ha.flowPath⟩
  have hentry : ¬ w.IsEntryPhi f s :=
    hunread use hu k v ⟨hvk, hk, hreached, fun hphi => absurd hphi hop⟩ s hs hr
  have hdom := hd (contains_domTree_iff.2 hreached)
  simp only [isDominated, hop, if_false] at hdom
  refine ⟨hscope, ?_⟩
  simp only [List.mem_append]
  -- The definition comes before the use in its block, or it is in a block that all walks go through.
  by_cases hsu : s.ref = use.ref
  · have hlt : s.index < use.index := by simpa [hsu] using hdom
    have hb : use.block = s.block := by
      have hx := (mem_sites.1 hu).2.1
      rw [← hsu, (mem_sites.1 hs).2.1] at hx
      exact (Option.some.inj hx).symm
    rw [hb] at hn ⊢
    by_cases hphi : s.instr.op = .phi
    · exact .inl (.inr (h.give_mem_entering hf hs hphi hr hentry (hsu ▸ ha)))
    · exact .inr (h.give_mem_running hf hs hphi hr (hn ▸ hlt))
  · simp only [hsu, if_false] at hdom
    have hmem := (dominates_domTree_iff.1 hdom).2 _ ha.flowPath
    have hp : s.ref ∈ p := by simpa [hsu] using hmem
    exact .inl (.inl (h.give_mem_events hf ha hs hr hentry hp))

theorem readsGiven_visit (hf : f ∈ w.funcRefs m) (hunread : w.EntryPhisUnread m f)
    (ha : w.Arrival m f p source c) (hc : c.func = f) :
    w.ReadsGiven (w.events none p) (w.visit source c) := by
  subst hc
  cases hx : w.block? c with
  | none => simp [visit, hx]
  | some x =>
    have hshape := h.blockShape hf hx
    rw [World.readsGiven_visit hx]
    constructor
    · intro i hi v hv
      rw [hshape.phis_eq, List.mem_filter, decide_eq_true_eq] at hi
      obtain ⟨n, hn⟩ := List.mem_iff_getElem?.1 hi.1
      cases ha with
      | entry he => simp [Instr.operandsFrom] at hv
      | edge hp hc =>
        have hu : ⟨c, x, n, i⟩ ∈ w.sites c.func := mem_sites.2 ⟨rfl, hx, hn⟩
        exact h.isGiven_phi hf hunread hu hi.2 hp hc hv
    · intro n i hn v hv
      have hi := List.mem_of_getElem? hn
      rw [hshape.body_eq, List.mem_filter, Bool.not_eq_true', decide_eq_false_iff_not] at hi
      rw [Block.getElem?_body] at hn
      have hu : ⟨c, x, _, i⟩ ∈ w.sites c.func := mem_sites.2 ⟨rfl, hx, hn⟩
      exact h.isGiven_body hf hunread hu hi.2 ha rfl hv

theorem entryPhisUnread (hf : f ∈ w.funcRefs m)
    (hall : ∀ p source c, w.Arrival m f p source c →
      w.ReadsGiven (w.events none p) (w.visit source c)) : w.EntryPhisUnread m f := by
  intro use hu k v hread s hs hr
  obtain ⟨rfl, hx, hi⟩ := mem_sites.1 hu
  have hshape := h.blockShape hf hx
  have hmem := List.mem_of_getElem? hi
  by_cases hop : use.instr.op = .phi
  · obtain ⟨a, p, hinc, hp⟩ := hread.source hop
    have hphi : use.instr ∈ use.block.phis := by
      rw [hshape.phis_eq]
      exact List.mem_filter.2 ⟨hmem, decide_eq_true hop⟩
    obtain ⟨q, hq, he⟩ := (h.phis _ hf _ _ (mem_blocksOf.2 ⟨rfl, hx⟩) _ hphi).preds _
      (List.mem_of_getElem? hinc)
    obtain rfl := Option.some.inj he
    have hc := (isFunctional_flowGraph w m).mem_preds_iff.1 hq
    have hgiven := ((World.readsGiven_visit hx).1 (hall p (some a) use.ref (.edge hp hc))).1 _ hphi v
      (Instr.mem_operandsFrom.2 ⟨k, hinc, hread.operand⟩)
    exact h.not_isEntryPhi hf hp (hgiven hread.kind).2 hs hr
  · obtain ⟨p, hp⟩ := hread.reached
    obtain ⟨q, source, rfl, ha⟩ := hp.exists_arrival
    have hbody : use.instr ∈ use.block.body := by
      rw [hshape.body_eq]
      exact List.mem_filter.2 ⟨hmem, by simpa using hop⟩
    obtain ⟨n, hn⟩ := List.mem_iff_getElem?.1 hbody
    have hgiven := ((World.readsGiven_visit hx).1 (hall q source use.ref ha)).2 n _ hn v
      (List.mem_of_getElem? hread.operand) hread.kind
    apply h.not_isEntryPhi hf hp _ hs hr
    rw [ha.events_concat, visit, hx]
    simp only [List.mem_append] at hgiven ⊢
    rcases hgiven.2 with (hg | hg) | hg
    · exact .inl hg
    · exact .inr (.inl hg)
    · obtain ⟨i, hi, hg⟩ := List.mem_flatMap.1 hg
      exact .inr (.inr (List.mem_flatMap.2 ⟨i, List.mem_of_mem_take hi, hg⟩))

end Verified

theorem BlocksInPlace.strayReadsGiven (hw : w.BlocksInPlace) : w.StrayReadsGiven m f :=
  fun _ _ _ hp hc hne => absurd (hw.func_eq (hp.step hc)) hne

/-- In a verified module the reads of a function find their temporaries given on every walk, just
when nothing reads a phi of its entry and walks find given what blocks of other functions read. -/
theorem readsGiven_iff_of_verify {certificate : Certificate} (h : w.verify m = .ok certificate)
    (hf : f ∈ w.funcRefs m) :
    (∀ b p, w.FlowPath m f b p → w.ReadsGiven [] (w.events none p)) ↔
      w.EntryPhisUnread m f ∧ w.StrayReadsGiven m f := by
  have hv := (verify_eq_ok_iff.1 h).1
  rw [forall_readsGiven_iff]
  constructor
  · exact fun hall => ⟨hv.entryPhisUnread hf hall, fun a c p hp hc _ => hall _ _ _ (.edge hp hc)⟩
  · rintro ⟨hunread, hstray⟩ p source c ha
    by_cases hc : c.func = f
    · exact hv.readsGiven_visit hf hunread ha hc
    · cases ha with
      | entry he => exact absurd (func_of_entryRef he) hc
      | edge hp hs => exact hstray _ _ _ hp hs hc

def oneBlock (temps : List Temp) (instrs : List Instr) : World where
  contexts := [{
    widthLimit := 64, traces := false, modulesMade := 1, funcsMade := 1
    types := ⟨1, 64, false, [.int 32, .fn ⟨1, 1⟩ [] false, .pointer 0, .void]⟩ }]
  modules := [{
    context := 1, name := "m", serial := 1, symbols := [("f", .func 0)]
    funcs := [{
      name := "f", type := ⟨1, 2⟩, retType := ⟨1, 1⟩, serial := 1, moduleSerial := 1
      refType := ⟨1, 3⟩, temps
      blocks := BlockList.empty.push ⟨"entry", some ⟨0, 0⟩, instrs⟩ }] }]

def loadsSlot : World := oneBlock [⟨⟨1, 3⟩, "slot"⟩, ⟨⟨1, 1⟩, "x"⟩]
  [{ op := .alloca, type := ⟨1, 3⟩, result := some 0, typeOperand := ⟨1, 1⟩ },
    { op := .load, type := ⟨1, 1⟩, result := some 1, operands := [.result ⟨1, 3⟩ 0 1] },
    { op := .ret, type := ⟨1, 4⟩, operands := [.result ⟨1, 1⟩ 1 1] }]

def returnsPhi : World := oneBlock [⟨⟨1, 1⟩, "p"⟩]
  [{ op := .phi, type := ⟨1, 1⟩, result := some 0 },
    { op := .ret, type := ⟨1, 4⟩, operands := [.result ⟨1, 1⟩ 0 1] }]

theorem verify_loadsSlot : loadsSlot.verify 0 = .ok (loadsSlot.certificate 0) :=
  verify_eq_ok_iff.2 ⟨violations_eq_nil_iff.1 (by cbv), rfl⟩

theorem verify_returnsPhi : returnsPhi.verify 0 = .ok (returnsPhi.certificate 0) :=
  verify_eq_ok_iff.2 ⟨violations_eq_nil_iff.1 (by cbv), rfl⟩

theorem readsGiven_loadsSlot : loadsSlot.verify 0 = .ok (loadsSlot.certificate 0) ∧
    ∀ b p, loadsSlot.FlowPath 0 ⟨0, 0⟩ b p → loadsSlot.ReadsGiven [] (loadsSlot.events none p) := by
  refine ⟨verify_loadsSlot, (readsGiven_iff_of_verify verify_loadsSlot (by decide)).2 ?_⟩
  constructor
  · intro use _ k v _ s hs _ hphi
    have hops : ∀ s ∈ loadsSlot.sites ⟨0, 0⟩, s.instr.op ≠ .phi := by decide
    exact hops s hs hphi.1
  · intro a c p _ hc
    have hnone : ∀ e ∈ (loadsSlot.flowGraph 0).edges, e.2 = [] := by decide
    have hp := (isFunctional_flowGraph loadsSlot 0).mem_preds_iff.2 hc
    obtain ⟨bs, he, hb⟩ := FlowGraph.mem_preds.1 hp
    obtain rfl : bs = [] := hnone _ he
    simp at hb

theorem not_readsGiven_of_verify : ¬ ∀ (w : World) (m : Nat) (c : Certificate) (f : FuncRef),
    w.verify m = .ok c → f ∈ w.funcRefs m →
      ∀ b p, w.FlowPath m f b p → w.ReadsGiven [] (w.events none p) := by
  intro h
  have hp : returnsPhi.FlowPath 0 ⟨0, 0⟩ ⟨⟨0, 0⟩, 0⟩ [⟨⟨0, 0⟩, 0⟩] := ⟨_, rfl, .refl⟩
  have hr := h returnsPhi 0 _ ⟨0, 0⟩ verify_returnsPhi (by decide) _ _ hp
  have he : returnsPhi.events none [⟨⟨0, 0⟩, 0⟩] = [.read ⟨0, 0⟩ (.result ⟨1, 1⟩ 0 1)] := rfl
  have hgiven := (hr [] _ _ [] he).2
  simp at hgiven

end World

end TypedIR
