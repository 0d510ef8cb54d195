import TypedIR.Proofs.Soundness.Reachable

namespace TypedIR

inductive FuncEdit
  | name (name : String)
  | type (t : TypeRef)
  | retType (t : TypeRef)
  | linkage (l : Linkage)
  | temps (ts : List Temp)
  | label (block : Nat) (label : String)
  | instrs (block : Nat) (is : List Instr)
  | addBlock (label : String)
  | newTemp (type : TypeRef) (name : String)

namespace FuncEdit

def apply (self : FuncRef) (f : Func) : FuncEdit → Func
  | name s => { f with name := s }
  | type t => { f with type := t }
  | retType t => { f with retType := t }
  | linkage l => { f with linkage := l }
  | temps ts => { f with temps := ts }
  | label block s => { f with blocks := f.blocks.modify block ({ · with label := s }) }
  | instrs block is => { f with blocks := f.blocks.modify block ({ · with instrs := is }) }
  | addBlock s => (f.addBlock self s).2
  | newTemp t s => (f.newTemp t s).2

variable {self : FuncRef} {fn : Func} {id : Nat} {x : Block}

theorem keeps_apply (e : FuncEdit) (self : FuncRef) (fn : Func) : fn.Keeps (e.apply self fn) := by
  have hmodify (block : Nat) (g : Block → Block) :
      fn.Keeps { fn with blocks := fn.blocks.modify block g } :=
    ⟨rfl, rfl, rfl, by simp [BlockList.modify, Function.comp_def]⟩
  cases e with
  | label block label => exact hmodify block _
  | instrs block instrs => exact hmodify block _
  | addBlock label => exact (World.grows_addBlock fn self label).toKeeps
  | newTemp type name => exact (fn.grows_newTemp type name).toKeeps
  | _ => exact ⟨rfl, rfl, rfl, List.prefix_rfl⟩

theorem parent_of_get? (e : FuncEdit)
    (hp : ∀ id x, fn.blocks.get? id = some x → x.parent = some self)
    (h : (e.apply self fn).blocks.get? id = some x) : x.parent = some self := by
  have hmodify (block : Nat) (g : Block → Block) (hg : ∀ b, (g b).parent = b.parent)
      (h : (fn.blocks.modify block g).get? id = some x) : x.parent = some self := by
    rw [BlockList.get?_modify] at h
    split at h
    · obtain ⟨y, hy, rfl⟩ := Option.map_eq_some_iff.1 h
      rw [hg, hp id y hy]
    · exact hp id x h
  cases e with
  | label block label => exact hmodify block ({ · with label }) (fun _ => rfl) h
  | instrs block instrs => exact hmodify block ({ · with instrs }) (fun _ => rfl) h
  | addBlock label =>
    rcases World.instrs_addBlock h with h | h
    · exact hp id x h
    · exact h.1
  | newTemp type name =>
    obtain ⟨t, uses, he, _⟩ := fn.newTemp_eq type name
    rw [apply, he] at h
    exact hp id x h
  | _ => exact hp id x h

end FuncEdit

/-- A global may be written over as a whole. -/
inductive Change
  | operation (o : Operation)
  | func (f : FuncRef) (e : FuncEdit)
  | global (m index : Nat) (g : Global)

namespace World

def change (w : World) : Change → World
  | .operation o => w.perform o
  | .func f e => w.modifyFunc f (e.apply f ·)
  | .global m index g => w.modifyGlobal m index fun _ => g

/-- The second world comes from the first one by changes, in any order. -/
inductive Leads (w : World) : World → Prop
  | refl : w.Leads w
  | change {v : World} (h : w.Leads v) (c : Change) : w.Leads (v.change c)

variable {w w' w'' : World} {m : Nat} {f : FuncRef} {fn : Func}

abbrev Keeps (w w' : World) : Prop := w.Frame (Module.Frame Func.Keeps) w'

theorem Keeps.refl (w : World) : w.Keeps w :=
  ⟨fun _ _ h => ⟨h, .refl _⟩, Nat.le_refl _, fun _ _ => .refl .refl _, Nat.le_refl _⟩

theorem Keeps.trans (h : w.Keeps w') (h' : w'.Keeps w'') : w.Keeps w'' :=
  Frame.trans (Module.Frame.trans .trans) h h'

theorem Grows.keeps (h : w.Grows w') : w.Keeps w' where
  contexts := h.contexts
  contextCount := h.contextCount
  modules k hk := by
    refine ⟨(h.modules k hk).context, (h.modules k hk).serial, fun i f hf => ?_⟩
    obtain ⟨f', hf', hff⟩ := (h.modules k hk).funcs i f hf
    exact ⟨f', hf', hff.toKeeps⟩
  moduleCount := h.moduleCount

theorem keeps_change (w : World) (c : Change) : w.Keeps (w.change c) := by
  cases c with
  | operation o => exact (advances_perform w o).grows.keeps
  | func f e => exact .setModule (.refl .refl) (.modify .refl fun fn _ => e.keeps_apply f fn)
  | global m index g =>
    exact .setModule (.refl .refl) ⟨rfl, rfl, fun _ fn hf => ⟨fn, hf, .refl fn⟩⟩

theorem Tidy.change (ht : w.Tidy) (c : Change) : (w.change c).Tidy := by
  have hold {f : FuncRef} {fn : Func} (hf : w.func? f = some fn) :
      ∀ id x, fn.blocks.get? id = some x → x.parent = some f :=
    fun id x hx => ht.blocks ⟨f, id⟩ x (by rwa [block?, func_eq hf])
  cases c with
  | operation o => exact (advances_perform w o).tidy ht
  | func f e => exact tidy_modifyFunc ht fun fn hf id x hx => e.parent_of_get? (hold hf) hx
  | global m index g => exact ht.setModule rfl fun i fn hf => hold (f := ⟨m, i⟩) hf

namespace Leads

theorem keeps (h : w.Leads w') : w.Keeps w' := by
  induction h with
  | refl => exact .refl w
  | change _ c ih => exact ih.trans (keeps_change _ c)

theorem tidy (h : w.Leads w') (ht : w.Tidy) : w'.Tidy := by
  induction h with
  | refl => exact ht
  | change _ c ih => exact ih.change c

end Leads

theorem Reachable.leads (h : w.Reachable) : Leads {} w := by
  induction h with
  | empty => exact .refl
  | perform _ o ih => exact ih.change (.operation o)

inductive ChangedBy (allowed : World → Change → Prop) : World → Prop
  | empty : ChangedBy allowed {}
  | change {w : World} (h : ChangedBy allowed w) (c : Change) (hc : allowed w c) :
    ChangedBy allowed (w.change c)

variable {allowed : World → Change → Prop}

theorem ChangedBy.leads (h : w.ChangedBy allowed) : Leads {} w := by
  induction h with
  | empty => exact .refl
  | change _ c _ ih => exact ih.change c

theorem ChangedBy.tidy (h : w.ChangedBy allowed) : w.Tidy := h.leads.tidy tidy_empty

theorem Reachable.changedBy (h : w.Reachable) (ho : ∀ w o, allowed w (.operation o)) :
    w.ChangedBy allowed := by
  induction h with
  | empty => exact .empty
  | perform _ o ih => exact ih.change (.operation o) (ho _ o)

end World

end TypedIR
