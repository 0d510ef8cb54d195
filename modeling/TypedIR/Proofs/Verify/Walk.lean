import TypedIR.Proofs.Verify.Silence

namespace TypedIR

/-- A value is read in a function, or a temporary of a function is given one. -/
inductive Event
  | read (func : FuncRef) (v : Value)
  | give (func : FuncRef) (id : Nat)

namespace Event

def reads (f : FuncRef) (vs : List Value) : List Event := (vs.filter (·.kind = .result)).map (.read f)

def gives (f : FuncRef) (i : Instr) : List Event := i.result.toList.map (.give f)

variable {f g : FuncRef} {vs : List Value} {i : Instr} {id : Nat}

@[simp] theorem give_not_mem_reads : give g id ∉ reads f vs := by
  simp [reads]

@[simp] theorem mem_gives : give g id ∈ gives f i ↔ f = g ∧ i.result = some id := by
  simp [gives]
  grind

end Event

def Instr.operandsFrom (i : Instr) (source : Option BlockRef) : List Value :=
  match source with
  | none => []
  | some p => ((i.incoming.zip i.operands).filter (·.1 = some p)).map Prod.snd

theorem Instr.mem_operandsFrom {i : Instr} {p : BlockRef} {v : Value} :
    v ∈ i.operandsFrom (some p) ↔
      ∃ k : Nat, i.incoming[k]? = some (some p) ∧ i.operands[k]? = some v := by
  simp only [operandsFrom, List.mem_map, List.mem_filter, Prod.exists, decide_eq_true_eq]
  constructor
  · rintro ⟨_, v, ⟨h, rfl⟩, rfl⟩
    obtain ⟨k, hk⟩ := List.mem_iff_getElem?.1 h
    exact ⟨k, List.getElem?_zip_eq_some.1 hk⟩
  · rintro ⟨k, hk⟩
    exact ⟨_, v, ⟨List.mem_of_getElem? (List.getElem?_zip_eq_some.2 hk), rfl⟩, rfl⟩

namespace Block

def body (b : Block) : List Instr := b.instrs.dropWhile (·.op = .phi)

theorem phis_append_body (b : Block) : b.phis ++ b.body = b.instrs :=
  List.takeWhile_append_dropWhile

theorem getElem?_body (b : Block) (n : Nat) : b.body[n]? = b.instrs[b.phis.length + n]? := by
  rw [← b.phis_append_body, List.getElem?_append_right (by omega), Nat.add_sub_cancel_left]

/-- Entering a block from another: all phis read, then those that have an operand for that edge get
their values. -/
def entering (f : FuncRef) (source : Option BlockRef) (b : Block) : List Event :=
  b.phis.flatMap (fun i => Event.reads f (i.operandsFrom source))
    ++ (b.phis.filter fun i => !(i.operandsFrom source).isEmpty).flatMap (Event.gives f)

def running (f : FuncRef) (is : List Instr) : List Event :=
  is.flatMap fun i => Event.reads f i.operands ++ Event.gives f i

end Block

namespace World

def visit (w : World) (source : Option BlockRef) (b : BlockRef) : List Event :=
  match w.block? b with
  | none => []
  | some x => x.entering b.func source ++ Block.running b.func x.body

/-- Everything that happens on a walk through some blocks, the first of them entered from `source`. -/
def events (w : World) : Option BlockRef → List BlockRef → List Event
  | _, [] => []
  | source, b :: bs => w.visit source b ++ w.events (some b) bs

/-- Every read names a temporary that was given a value before, here or in what is known. -/
def ReadsGiven (w : World) (known es : List Event) : Prop :=
  ∀ before f v after, es = before ++ .read f v :: after →
    v.scope = (w.func f).serial ∧ .give f v.id ∈ known ++ before

inductive Arrival (w : World) (m : Nat) (f : FuncRef) :
    List BlockRef → Option BlockRef → BlockRef → Prop
  | entry {c} : w.entryRef? f = some c → Arrival w m f [] none c
  | edge {a c p} : w.FlowPath m f a p → c ∈ (w.flowGraph m).succs a → Arrival w m f p (some a) c

variable {w : World} {f : FuncRef} {known : List Event} {id : Nat}

@[simp] theorem readsGiven_nil : w.ReadsGiven known [] := by
  intro before f v after h
  simp at h

theorem readsGiven_append {xs ys : List Event} : w.ReadsGiven known (xs ++ ys) ↔
    w.ReadsGiven known xs ∧ w.ReadsGiven (known ++ xs) ys := by
  constructor
  · intro h
    constructor
    · intro before f v after he
      exact h before f v (after ++ ys) (by simp [he])
    · intro before f v after he
      simpa using h (xs ++ before) f v after (by simp [he])
  · rintro ⟨hx, hy⟩ before f v after he
    rcases List.append_eq_append_iff.1 he with ⟨zs, rfl, hz⟩ | ⟨zs, rfl, hz⟩
    · simpa using hy zs f v after hz
    · cases zs with
      | nil => simpa using hy [] f v after (by simpa using hz.symm)
      | cons z zs =>
        obtain ⟨rfl, rfl⟩ := List.cons.inj hz
        exact hx before f v zs rfl

theorem readsGiven_flatMap {α : Type} {xs : List α} {g : α → List Event} :
    w.ReadsGiven known (xs.flatMap g) ↔
      ∀ n x, xs[n]? = some x → w.ReadsGiven (known ++ (xs.take n).flatMap g) (g x) := by
  induction xs generalizing known with
  | nil => simp
  | cons x xs ih =>
    rw [List.flatMap_cons, readsGiven_append, ih]
    constructor
    · rintro ⟨hx, h⟩ n y hn
      cases n with
      | zero =>
        obtain rfl : x = y := by simpa using hn
        simpa using hx
      | succ n => simpa using h n y (by simpa using hn)
    · intro h
      refine ⟨by simpa using h 0 x rfl, fun n y hn => ?_⟩
      simpa using h (n + 1) y (by simpa using hn)

theorem readsGiven_reads {vs : List Value} : w.ReadsGiven known (Event.reads f vs) ↔
    ∀ v ∈ vs, v.kind = .result → v.scope = (w.func f).serial ∧ .give f v.id ∈ known := by
  constructor
  · intro h v hv hk
    have hm : Event.read f v ∈ Event.reads f vs := by simp [Event.reads, hv, hk]
    obtain ⟨xs, ys, he⟩ := List.append_of_mem hm
    obtain ⟨hs, hg⟩ := h xs f v ys he
    refine ⟨hs, (List.mem_append.1 hg).resolve_right fun hx => ?_⟩
    exact Event.give_not_mem_reads (he ▸ List.mem_append_left _ hx)
  · intro h before g v after he
    have hm : Event.read g v ∈ Event.reads f vs := by simp [he]
    obtain ⟨v, hv, he⟩ := List.mem_map.1 hm
    obtain ⟨rfl, rfl⟩ := Event.read.inj he
    obtain ⟨hv, hk⟩ := List.mem_filter.1 hv
    obtain ⟨hs, hg⟩ := h v hv (of_decide_eq_true hk)
    exact ⟨hs, List.mem_append_left _ hg⟩

theorem readsGiven_gives {i : Instr} : w.ReadsGiven known (Event.gives f i) := by
  intro before g v after he
  have hm : Event.read g v ∈ Event.gives f i := by simp [he]
  simp [Event.gives] at hm

def IsGiven (w : World) (f : FuncRef) (known : List Event) (v : Value) : Prop :=
  v.kind = .result → v.scope = (w.func f).serial ∧ .give f v.id ∈ known

theorem readsGiven_entering {x : Block} {source : Option BlockRef} :
    w.ReadsGiven known (x.entering f source) ↔
      ∀ i ∈ x.phis, ∀ v ∈ i.operandsFrom source, w.IsGiven f known v := by
  have hgives : ∀ k (is : List Instr), w.ReadsGiven k (is.flatMap (Event.gives f)) := fun _ _ =>
    readsGiven_flatMap.2 fun _ _ _ => readsGiven_gives
  rw [Block.entering, readsGiven_append, readsGiven_flatMap]
  simp only [hgives, and_true, readsGiven_reads, List.mem_append, List.mem_flatMap,
    Event.give_not_mem_reads, and_false, exists_false, or_false, IsGiven]
  constructor
  · intro h i hi
    obtain ⟨n, hn⟩ := List.mem_iff_getElem?.1 hi
    exact h n i hn
  · exact fun h n i hn => h i (List.mem_of_getElem? hn)

theorem readsGiven_running {is : List Instr} : w.ReadsGiven known (Block.running f is) ↔
    ∀ n i, is[n]? = some i → ∀ v ∈ i.operands,
      w.IsGiven f (known ++ Block.running f (is.take n)) v := by
  simp only [Block.running, readsGiven_flatMap, readsGiven_append, readsGiven_gives, and_true,
    readsGiven_reads, IsGiven]

theorem readsGiven_visit {c : BlockRef} {x : Block} {source : Option BlockRef}
    (hx : w.block? c = some x) : w.ReadsGiven known (w.visit source c) ↔
      (∀ i ∈ x.phis, ∀ v ∈ i.operandsFrom source, w.IsGiven c.func known v) ∧
        ∀ n i, x.body[n]? = some i → ∀ v ∈ i.operands, w.IsGiven c.func
          (known ++ x.entering c.func source ++ Block.running c.func (x.body.take n)) v := by
  simp only [visit, hx, readsGiven_append, readsGiven_entering, readsGiven_running]

variable {m : Nat} {a b c : BlockRef} {p : List BlockRef} {source : Option BlockRef}

theorem events_concat {bs : List BlockRef} : w.events source (bs ++ [c]) =
    w.events source bs ++ w.visit (bs.getLast?.or source) c := by
  induction bs generalizing source with
  | nil => simp [events]
  | cons b bs ih =>
    cases bs with
    | nil => simp [events]
    | cons a as =>
      obtain ⟨z, hz⟩ : ∃ z, (a :: as).getLast? = some z := ⟨_, List.getLast?_eq_some_getLast (by simp)⟩
      rw [List.cons_append, events, ih, List.getLast?_cons_cons, hz]
      simp [events]

theorem FlowPath.step (hp : w.FlowPath m f a p) (hc : c ∈ (w.flowGraph m).succs a) :
    w.FlowPath m f c (p ++ [c]) := by
  obtain ⟨e, he, hp⟩ := hp
  exact ⟨e, he, hp.step hc⟩

namespace Arrival

theorem flowPath (h : w.Arrival m f p source c) : w.FlowPath m f c (p ++ [c]) := by
  cases h with
  | entry he => exact ⟨c, he, .refl⟩
  | edge hp hc => exact hp.step hc

theorem events_concat (h : w.Arrival m f p source c) :
    w.events none (p ++ [c]) = w.events none p ++ w.visit source c := by
  rw [World.events_concat]
  cases h with
  | entry he => rfl
  | edge hp hc =>
    obtain ⟨e, he, hp⟩ := hp
    rw [hp.getLast?, Option.some_or]

end Arrival

theorem FlowPath.exists_arrival (hp : w.FlowPath m f b p) :
    ∃ q source, p = q ++ [b] ∧ w.Arrival m f q source b := by
  obtain ⟨e, he, hp⟩ := hp
  cases hp with
  | refl => exact ⟨[], none, rfl, .entry he⟩
  | step hp hb => exact ⟨_, _, rfl, .edge ⟨e, he, hp⟩ hb⟩

theorem forall_readsGiven_iff : (∀ b p, w.FlowPath m f b p → w.ReadsGiven [] (w.events none p)) ↔
    ∀ p source c, w.Arrival m f p source c →
      w.ReadsGiven (w.events none p) (w.visit source c) := by
  constructor
  · intro h p source c ha
    have hr := h c _ ha.flowPath
    rw [ha.events_concat, readsGiven_append] at hr
    exact hr.2
  · rintro h b p ⟨e, he, hp⟩
    induction hp with
    | refl => simpa [events] using h [] none e (.entry he)
    | @step b c p hp hc ih =>
      have ha : w.Arrival m f p (some b) c := .edge ⟨e, he, hp⟩ hc
      rw [ha.events_concat, readsGiven_append]
      exact ⟨ih, h _ _ _ ha⟩

end World

end TypedIR
