import TypedIR.Proofs.Verify.Silence

/-! Accesses that can go wrong. A position may lie beyond the end of a list, and the type or the
block that something names may not be there; an access that does not ask first is then a fault. With
such accesses verification is written out once more, in `Unguarded`, to show that it meets no
fault. -/

namespace TypedIR

inductive Fault
  | outOfRange (index size : Nat)
  | noType (type : TypeRef)
  | noBlock (block : Option BlockRef)
  deriving DecidableEq

abbrev Access := Except Fault

/-- A pointer that is null or leads to a block. -/
def World.NullOrBlock (w : World) (b : Option BlockRef) : Prop := ∀ c ∈ b, (w.block? c).isSome

instance (w : World) (b : Option BlockRef) : Decidable (w.NullOrBlock b) :=
  inferInstanceAs (Decidable (∀ c ∈ b, (w.block? c).isSome))

namespace Unguarded

variable {α β ε : Type}

def read {m : Type → Type} [Monad m] [MonadExceptOf Fault m] (xs : List α) (n : Nat) : m α :=
  match xs[n]? with
  | some x => pure x
  | none => throw (.outOfRange n xs.length)

def back (xs : List α) : Access α := read xs (xs.length - 1)

def desc (types : TypeRegistry) (t : TypeRef) : Access TypeDesc :=
  match types.lookup t with
  | some d => .ok d
  | none => .error (.noType t)

def block (w : World) (b : Option BlockRef) : Access Block :=
  match b.bind w.block? with
  | some x => .ok x
  | none => .error (.noBlock b)

def isBlockOf (w : World) (f : FuncRef) (b : Option BlockRef) : Access Bool :=
  match b with
  | none => pure false
  | some _ => return (← block w b).parent == some f

theorem pure_eq_ok {a : α} : (pure a : Access α) = .ok a := rfl

theorem bind_of_eq_ok {x : Access α} {f : α → Access β} {a : α} (h : x = .ok a) :
    x >>= f = f a := by
  rw [h]
  rfl

theorem read_of_getElem? {m : Type → Type} [Monad m] [MonadExceptOf Fault m] {xs : List α} {n : Nat}
    {x : α} (h : xs[n]? = some x) : read xs n = (pure x : m α) := by
  rw [read, h]

theorem back_of_getLast? {xs : List α} {x : α} (h : xs.getLast? = some x) : back xs = .ok x :=
  read_of_getElem? (List.getLast?_eq_getElem? ▸ h)

theorem desc_of_lookup {types : TypeRegistry} {t : TypeRef} {d : TypeDesc}
    (h : types.lookup t = some d) : desc types t = .ok d := by
  rw [desc, h]

section Blocks

variable {w : World} {f : FuncRef}

theorem block_of_block? {b : BlockRef} {x : Block} (h : w.block? b = some x) :
    block w (some b) = .ok x := by
  rw [block, Option.bind_some, h]

theorem isBlockOf_eq {b : Option BlockRef} (h : w.NullOrBlock b) :
    isBlockOf w f b = .ok (w.isBlockOf f b) := by
  cases b with
  | none => rfl
  | some c =>
    obtain ⟨x, hx⟩ := Option.isSome_iff_exists.1 (h c rfl)
    simp only [isBlockOf, block_of_block? hx, World.isBlockOf, World.parent?, hx, Option.bind_some]
    rfl

end Blocks

/-- What the visits to the entries of a list find. -/
def loop (visit : α → Access (List β)) : List α → Access (List β)
  | [] => pure []
  | x :: xs => return (← visit x) ++ (← loop visit xs)

def loopAt (visit : Nat → α → Access (List β)) (xs : List α) : Access (List β) :=
  loop (fun n => do visit n (← read xs n)) (List.range xs.length)

theorem loop_eq {visit : α → Access (List β)} {find : α → List β} {xs : List α}
    (h : ∀ x ∈ xs, visit x = .ok (find x)) : loop visit xs = .ok (xs.flatMap find) := by
  induction xs with
  | nil => rfl
  | cons x xs ih =>
    rw [List.forall_mem_cons] at h
    rw [loop, h.1, ih h.2]
    rfl

theorem loop_map {γ : Type} {visit : β → Access (List γ)} {g : α → β} {xs : List α} :
    loop visit (xs.map g) = loop (fun x => visit (g x)) xs := by
  induction xs with
  | nil => rfl
  | cons x xs ih => rw [List.map_cons, loop, loop, ih]

theorem loop_range_eq {visit : Nat → Access (List β)} {find : Nat → α → List β} {xs : List α}
    (h : ∀ n x, xs[n]? = some x → visit n = .ok (find n x)) :
    loop visit (List.range xs.length) = .ok (findAt xs find) := by
  have hpositions : List.range xs.length = xs.zipIdx.map Prod.snd := by
    rw [List.zipIdx_map_snd, List.range_eq_range']
  rw [hpositions, loop_map, findAt]
  exact loop_eq fun e he => h e.2 e.1 (List.mem_zipIdx_iff_getElem?.1 he)

theorem loopAt_eq {visit : Nat → α → Access (List β)} {find : Nat → α → List β} {xs : List α}
    (h : ∀ n x, xs[n]? = some x → visit n x = .ok (find n x)) :
    loopAt visit xs = .ok (findAt xs find) := by
  refine loop_range_eq fun n x hx => ?_
  rw [read_of_getElem? hx, pure_bind]
  exact h n x hx

theorem findAt_eq_flatMap {find : α → List β} {xs : List α} :
    findAt xs (fun _ x => find x) = xs.flatMap find := by
  have hentries : xs.zipIdx.map Prod.fst = xs := List.zipIdx_map_fst 0 xs
  rw [findAt, ← List.flatMap_map Prod.fst find, hentries]

theorem anyM_eq {p : α → Access Bool} {q : α → Bool} {xs : List α}
    (h : ∀ x ∈ xs, p x = .ok (q x)) : xs.anyM p = .ok (xs.any q) := by
  induction xs with
  | nil => rfl
  | cons x xs ih =>
    rw [List.forall_mem_cons] at h
    rw [List.anyM, h.1, List.any_cons]
    cases q x with
    | true => rfl
    | false => exact ih h.2

def verdict (x : Except ε α) : ExceptT ε Access α := ExceptT.mk (.ok x)

section Verdicts

variable {e : ε} {a : α} {x y : Except ε α}

@[simp] theorem verdict_pure : verdict (pure a : Except ε α) = pure a := rfl

@[simp] theorem verdict_throw : verdict (throw e : Except ε α) = throw e := rfl

@[simp] theorem verdict_bind {f : α → Except ε β} :
    verdict (x >>= f) = verdict x >>= fun a => verdict (f a) := by
  cases x <;> rfl

@[simp] theorem verdict_ite {c : Prop} [Decidable c] :
    verdict (if c then x else y) = if c then verdict x else verdict y := by
  split <;> rfl

@[simp] theorem throw_bind {f : α → ExceptT ε Access β} :
    (throw e : ExceptT ε Access α) >>= f = throw e := rfl

@[simp] theorem ok_bind {f : α → ExceptT ε Access β} :
    (liftM (.ok a : Access α) : ExceptT ε Access α) >>= f = f a := rfl

theorem of_drop_eq_cons {xs rest : List α} {n : Nat} {x : α} (h : xs.drop n = x :: rest) :
    xs[n]? = some x ∧ xs.drop (n + 1) = rest := by
  constructor
  · rw [← List.head?_drop, h, List.head?_cons]
  · rw [← List.tail_drop, h, List.tail_cons]

theorem forM_range'_eq {xs : List α} {p : Nat → ExceptT ε Access Unit}
    {g : Nat → List α → Except ε Unit} (hnil : ∀ n, g n [] = .ok ())
    (hcons : ∀ n x rest, xs[n]? = some x →
      (do p n; verdict (g (n + 1) rest)) = verdict (g n (x :: rest)))
    {ys : List α} {n : Nat} (h : xs.drop n = ys) :
    (List.range' n ys.length).forM p = verdict (g n ys) := by
  induction ys generalizing n with
  | nil =>
    rw [hnil]
    rfl
  | cons y ys ih =>
    obtain ⟨hy, hys⟩ := of_drop_eq_cons h
    rw [List.length_cons, List.range'_succ, List.forM, ih hys]
    exact hcons n y ys hy

end Verdicts

end Unguarded

end TypedIR
