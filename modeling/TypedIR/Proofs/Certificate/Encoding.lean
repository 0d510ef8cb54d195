import Mathlib.Data.List.Forall2
import TypedIR.Fingerprint

/-! The bytes of a fingerprint can be read back. Every part says where it ends, so equal bytes come from
modules that are alike in all that is written: where numbers are those of machine words, that is. -/

namespace TypedIR

def isWord (n : Nat) : Bool := n < 0x10000000000000000

def TypeRef.fits (t : TypeRef) : Bool := isWord t.context && isWord t.id

def Value.fits (v : Value) : Bool := v.type.fits && isWord v.id && isWord v.scope

def fitsBlock (b : Option BlockRef) : Bool := b.all fun b => isWord (b.id + 1)

def String.fits (s : String) : Bool := isWord s.length

def Predicate.fits (p : Predicate) : Bool := p.code < 0x100000000

def Linkage.fits (l : Linkage) : Bool := l.code < 0x100000000

def Instr.fits (i : Instr) : Bool :=
  i.type.fits && i.result.all (fun id => isWord (id + 1)) && i.predicate.fits
    && i.typeOperand.fits && (isWord i.operands.length && i.operands.all Value.fits)
    && (isWord i.targets.length && i.targets.all fitsBlock)
    && (isWord i.incoming.length && i.incoming.all fitsBlock)

def Block.fits (b : Block) : Bool :=
  String.fits b.label && (isWord b.instrs.length && b.instrs.all Instr.fits)

def Func.fits (f : Func) : Bool :=
  String.fits f.name && f.type.fits && f.linkage.fits
    && (isWord f.temps.length && f.temps.all (·.type.fits))
    && (isWord f.blocks.size && f.blocks.entries.all (·.2.fits))

def Global.fits (g : Global) : Bool :=
  String.fits g.name && g.type.fits && g.linkage.fits && g.init.all Value.fits

/-- Every number of the module is that of a machine word. -/
def Module.fits (m : Module) : Bool :=
  String.fits m.name && isWord m.serial && (isWord m.globals.length && m.globals.all Global.fits)
    && (isWord m.funcs.length && m.funcs.all Func.fits)

namespace Fingerprint

/-- What `e` writes at the front of a sequence tells where it ends and, up to `r`, what it stands
for. -/
def Tells {α : Type} (e : α → List UInt8) (ok : α → Bool) (r : α → α → Prop) : Prop :=
  ∀ a b xs ys, ok a → ok b → e a ++ xs = e b ++ ys → r a b ∧ xs = ys

theorem eq_of_digits_eq {k n m : Nat} (hn : n < Nat.pow 256 k) (hm : m < Nat.pow 256 k)
    (h : ∀ i < k, n / Nat.pow 256 i % 256 = m / Nat.pow 256 i % 256) : n = m := by
  induction k generalizing n m with
  | zero => exact (Nat.lt_one_iff.1 hn).trans (Nat.lt_one_iff.1 hm).symm
  | succ k ih =>
    have hsucc (i : Nat) : Nat.pow 256 (i + 1) = 256 * Nat.pow 256 i := Nat.mul_comm _ _
    have hlow : n % 256 = m % 256 := by
      have h0 : n / 1 % 256 = m / 1 % 256 := h 0 (Nat.succ_pos k)
      rwa [Nat.div_one, Nat.div_one] at h0
    have hhigh : n / 256 = m / 256 := by
      rw [hsucc] at hn hm
      refine ih (Nat.div_lt_of_lt_mul hn) (Nat.div_lt_of_lt_mul hm) fun i hi => ?_
      have hd := h (i + 1) (Nat.succ_lt_succ hi)
      rwa [hsucc, ← Nat.div_div_eq_div_mul, ← Nat.div_div_eq_div_mul] at hd
    omega

theorem tells_word : Tells word isWord Eq := by
  intro n k xs ys hn hk h
  obtain ⟨hw, hrest⟩ := List.append_inj h (by simp)
  simp only [isWord, decide_eq_true_eq] at hn hk
  refine ⟨eq_of_digits_eq (k := 8) hn hk fun i hi => ?_, hrest⟩
  have hd : (n / Nat.pow 256 i).toUInt8 = (k / Nat.pow 256 i).toUInt8 := by
    have hbyte := congrArg (·[i]?) hw
    simpa [word, hi] using hbyte
  simpa using congrArg UInt8.toNat hd

theorem tells_code : Tells code (· < 0x100000000) Eq := by
  intro n k xs ys hn hk h
  simp only [decide_eq_true_eq] at hn hk
  have hword (m : Nat) (hm : m < 0x100000000) : isWord (if m % Nat.pow 2 32 < Nat.pow 2 31 then
      m % Nat.pow 2 32 else m % Nat.pow 2 32 + (Nat.pow 2 64 - Nat.pow 2 32)) := by
    simp only [isWord, Nat.pow_eq, Nat.reducePow, decide_eq_true_eq]
    split <;> omega
  obtain ⟨he, hrest⟩ := tells_word _ _ xs ys (hword n hn) (hword k hk) h
  refine ⟨?_, hrest⟩
  simp only [Nat.pow_eq, Nat.reducePow, Nat.reduceSub] at he
  split at he <;> split at he <;> omega

theorem tells_flag : Tells flag (fun _ => true) Eq := by
  intro a b xs ys _ _ h
  have hword (c : Bool) : isWord (if c then 1 else 0) := by cases c <;> rfl
  obtain ⟨he, hrest⟩ := tells_word _ _ xs ys (hword a) (hword b) h
  cases a <;> cases b <;> simp_all

theorem tells_bytes : Tells bytes String.fits fun s t => Text.bytes s = Text.bytes t := by
  intro s t xs ys hs ht h
  simp only [bytes, List.append_assoc] at h
  obtain ⟨hn, h⟩ := tells_word _ _ _ _ hs ht h
  exact List.append_inj h (by rw [Text.length_bytes, Text.length_bytes, hn])

theorem tells_list {α : Type} {e : α → List UInt8} {ok : α → Bool} {r : α → α → Prop}
    (he : Tells e ok r) :
    Tells (list e) (fun as => isWord as.length && as.all ok) (List.Forall₂ r) := by
  have items (as bs : List α) (xs ys : List UInt8) (hl : as.length = bs.length)
      (ha : ∀ a ∈ as, ok a) (hb : ∀ b ∈ bs, ok b) (h : as.flatMap e ++ xs = bs.flatMap e ++ ys) :
      List.Forall₂ r as bs ∧ xs = ys := by
    induction as generalizing bs with
    | nil =>
      obtain rfl := List.length_eq_zero_iff.1 hl.symm
      exact ⟨.nil, h⟩
    | cons a as ih =>
      cases bs with
      | nil => simp at hl
      | cons b bs =>
        simp only [List.flatMap_cons, List.append_assoc] at h
        obtain ⟨hab, h⟩ := he a b _ _ (ha a (by simp)) (hb b (by simp)) h
        obtain ⟨hrest, hxy⟩ := ih bs (by simpa using hl) (fun x hx => ha x (by simp [hx]))
          (fun x hx => hb x (by simp [hx])) h
        exact ⟨.cons hab hrest, hxy⟩
  intro as bs xs ys ha hb h
  simp only [Bool.and_eq_true, List.all_eq_true] at ha hb
  simp only [list, List.append_assoc] at h
  obtain ⟨hl, h⟩ := tells_word _ _ _ _ ha.1 hb.1 h
  exact items as bs xs ys hl ha.2 hb.2 h

theorem tells_type : Tells type TypeRef.fits Eq := by
  rintro ⟨c, n⟩ ⟨c', n'⟩ xs ys ha hb h
  simp only [TypeRef.fits, Bool.and_eq_true] at ha hb
  simp only [type, List.append_assoc] at h
  obtain ⟨hcontext, h⟩ := tells_word _ _ _ _ ha.1 hb.1 h
  obtain ⟨hid, h⟩ := tells_word _ _ _ _ ha.2 hb.2 h
  exact ⟨by rw [hcontext, hid], h⟩

theorem tells_kind : Tells (fun k : ValueKind => word k.code) (fun _ => true) Eq := by
  intro k k' xs ys _ _ h
  have hword (k : ValueKind) : isWord k.code := by cases k <;> rfl
  obtain ⟨he, hrest⟩ := tells_word _ _ _ _ (hword k) (hword k') h
  cases k <;> cases k' <;> simp_all [ValueKind.code]

theorem tells_value : Tells value Value.fits Eq := by
  rintro ⟨k, t, n, s, b⟩ ⟨k', t', n', s', b'⟩ xs ys ha hb h
  simp only [Value.fits, Bool.and_eq_true] at ha hb
  simp only [value, List.append_assoc] at h
  obtain ⟨hkind, h⟩ := tells_kind _ _ _ _ rfl rfl h
  obtain ⟨htype, h⟩ := tells_type _ _ _ _ ha.1.1 hb.1.1 h
  obtain ⟨hid, h⟩ := tells_word _ _ _ _ ha.1.2 hb.1.2 h
  obtain ⟨hscope, h⟩ := tells_word _ _ _ _ ha.2 hb.2 h
  obtain ⟨hfunction, h⟩ := tells_flag _ _ _ _ rfl rfl h
  exact ⟨by rw [hkind, htype, hid, hscope, hfunction], h⟩

theorem tells_optional : Tells optional (fun n => n.all fun n => isWord (n + 1)) Eq := by
  intro n k xs ys hn hk h
  have hword (n : Option Nat) (hn : n.all fun n => isWord (n + 1)) :
      isWord ((n.map (· + 1)).getD 0) := by
    cases n with
    | none => rfl
    | some n => exact hn
  obtain ⟨he, hrest⟩ := tells_word _ _ _ _ (hword n hn) (hword k hk) h
  refine ⟨?_, hrest⟩
  cases n <;> cases k <;> simp_all

theorem tells_block : Tells block fitsBlock fun a b => a.map BlockRef.id = b.map BlockRef.id := by
  intro a b xs ys ha hb h
  have hfits (b : Option BlockRef) (hb : fitsBlock b) :
      (b.map BlockRef.id).all fun n => isWord (n + 1) := by
    cases b <;> exact hb
  exact tells_optional _ _ xs ys (hfits a ha) (hfits b hb) h

end Fingerprint

/-- Instructions that differ at most in where they come from and in the functions that the blocks
they name are of. -/
structure Instr.Alike (i j : Instr) : Prop where
  op : i.op = j.op
  type : i.type = j.type
  result : i.result = j.result
  predicate : i.predicate = j.predicate
  typeOperand : i.typeOperand = j.typeOperand
  operands : i.operands = j.operands
  targets : List.Forall₂ (fun a b => a.map BlockRef.id = b.map BlockRef.id) i.targets j.targets
  incoming : List.Forall₂ (fun a b => a.map BlockRef.id = b.map BlockRef.id) i.incoming j.incoming

def Block.Alike (b c : Block) : Prop := List.Forall₂ Instr.Alike b.instrs c.instrs

structure Func.Alike (f g : Func) : Prop where
  type : f.type = g.type
  linkage : f.linkage = g.linkage
  temps : f.temps.map (·.type) = g.temps.map (·.type)
  blocks : List.Forall₂ Block.Alike (f.blocks.entries.map Prod.snd) (g.blocks.entries.map Prod.snd)

structure Global.Alike (g h : Global) : Prop where
  type : g.type = h.type
  init : g.init = h.init

structure Module.Alike (m n : Module) : Prop where
  serial : m.serial = n.serial
  globals : List.Forall₂ Global.Alike m.globals n.globals
  funcs : List.Forall₂ Func.Alike m.funcs n.funcs

structure Block.ReadsAs (b c : Block) : Prop where
  label : Text.bytes b.label = Text.bytes c.label
  instrs : List.Forall₂ Instr.Alike b.instrs c.instrs

structure Func.ReadsAs (f g : Func) : Prop where
  name : Text.bytes f.name = Text.bytes g.name
  type : f.type = g.type
  linkage : f.linkage = g.linkage
  temps : f.temps.map (·.type) = g.temps.map (·.type)
  blocks : List.Forall₂ Block.ReadsAs (f.blocks.entries.map Prod.snd) (g.blocks.entries.map Prod.snd)

structure Global.ReadsAs (g h : Global) : Prop where
  name : Text.bytes g.name = Text.bytes h.name
  type : g.type = h.type
  linkage : g.linkage = h.linkage
  isConstant : g.isConstant = h.isConstant
  init : g.init = h.init

structure Module.ReadsAs (m n : Module) : Prop where
  name : Text.bytes m.name = Text.bytes n.name
  serial : m.serial = n.serial
  globals : List.Forall₂ Global.ReadsAs m.globals n.globals
  funcs : List.Forall₂ Func.ReadsAs m.funcs n.funcs

theorem Func.ReadsAs.alike {f g : Func} (h : f.ReadsAs g) : f.Alike g :=
  ⟨h.type, h.linkage, h.temps, h.blocks.imp fun _ _ hb => hb.instrs⟩

theorem Module.ReadsAs.alike {m n : Module} (h : m.ReadsAs n) : m.Alike n :=
  ⟨h.serial, h.globals.imp fun _ _ hg => ⟨hg.type, hg.init⟩, h.funcs.imp fun _ _ hf => hf.alike⟩

namespace Fingerprint

theorem tells_op : Tells (fun op : Opcode => word op.code) (fun _ => true) Eq := by
  intro op op' xs ys _ _ h
  have hword (op : Opcode) : isWord op.code := by cases op <;> decide
  obtain ⟨he, hrest⟩ := tells_word _ _ _ _ (hword op) (hword op') h
  refine ⟨?_, hrest⟩
  have := congrArg Opcode.ofCode? he
  simpa [Opcode.ofCode?_code] using this

theorem tells_instr : Tells instr Instr.fits Instr.Alike := by
  intro i j xs ys ha hb h
  simp only [Instr.fits, Bool.and_eq_true] at ha hb
  obtain ⟨⟨⟨⟨⟨⟨ha1, ha2⟩, ha3⟩, ha4⟩, ha5⟩, ha6⟩, ha7⟩ := ha
  obtain ⟨⟨⟨⟨⟨⟨hb1, hb2⟩, hb3⟩, hb4⟩, hb5⟩, hb6⟩, hb7⟩ := hb
  simp only [instr, List.append_assoc] at h
  obtain ⟨hop, h⟩ := tells_op _ _ _ _ rfl rfl h
  obtain ⟨htype, h⟩ := tells_type _ _ _ _ ha1 hb1 h
  obtain ⟨hresult, h⟩ := tells_optional _ _ _ _ ha2 hb2 h
  obtain ⟨hpredicate, h⟩ := tells_code _ _ _ _ ha3 hb3 h
  obtain ⟨htypeOperand, h⟩ := tells_type _ _ _ _ ha4 hb4 h
  obtain ⟨hoperands, h⟩ := tells_list tells_value _ _ _ _ (by simpa using ha5) (by simpa using hb5) h
  obtain ⟨htargets, h⟩ := tells_list tells_block _ _ _ _ (by simpa using ha6) (by simpa using hb6) h
  obtain ⟨hincoming, h⟩ := tells_list tells_block _ _ _ _ (by simpa using ha7) (by simpa using hb7) h
  have hpredicate : i.predicate = j.predicate := by
    simpa [Predicate.ofCode_code] using congrArg Predicate.ofCode hpredicate
  exact ⟨⟨hop, htype, hresult, hpredicate, htypeOperand, List.forall₂_eq_eq_eq ▸ hoperands, htargets,
    hincoming⟩, h⟩

theorem tells_body : Tells body Block.fits Block.ReadsAs := by
  intro b c xs ys ha hb h
  simp only [Block.fits, Bool.and_eq_true] at ha hb
  simp only [body, List.append_assoc] at h
  obtain ⟨hlabel, h⟩ := tells_bytes _ _ _ _ ha.1 hb.1 h
  obtain ⟨hinstrs, h⟩ := tells_list tells_instr _ _ _ _ (by simpa using ha.2) (by simpa using hb.2) h
  exact ⟨⟨hlabel, hinstrs⟩, h⟩

theorem tells_linkage : Tells (fun l : Linkage => code l.code) Linkage.fits Eq := by
  intro l l' xs ys hl hl' h
  obtain ⟨he, hrest⟩ := tells_code _ _ _ _ hl hl' h
  refine ⟨?_, hrest⟩
  simpa using congrArg Linkage.ofCode he

theorem tells_func : Tells func Func.fits Func.ReadsAs := by
  intro f g xs ys ha hb h
  simp only [Func.fits, Bool.and_eq_true] at ha hb
  simp only [func, List.append_assoc] at h
  obtain ⟨hname, h⟩ := tells_bytes _ _ _ _ ha.1.1.1.1 hb.1.1.1.1 h
  obtain ⟨htype, h⟩ := tells_type _ _ _ _ ha.1.1.1.2 hb.1.1.1.2 h
  obtain ⟨hlinkage, h⟩ := tells_linkage _ _ _ _ ha.1.1.2 hb.1.1.2 h
  obtain ⟨htemps, h⟩ := tells_list tells_type _ _ _ _ (by simpa using ha.1.2) (by simpa using hb.1.2) h
  obtain ⟨hblocks, h⟩ := tells_list tells_body _ _ _ _ (by simpa [BlockList.size] using ha.2)
    (by simpa [BlockList.size] using hb.2) h
  exact ⟨⟨hname, htype, hlinkage, List.forall₂_eq_eq_eq ▸ htemps, hblocks⟩, h⟩

theorem tells_init : Tells (fun v : Option Value => flag v.isSome ++ (v.map value).getD [])
    (fun v => v.all Value.fits) Eq := by
  intro v v' xs ys ha hb h
  simp only [List.append_assoc] at h
  obtain ⟨hsome, h⟩ := tells_flag _ _ _ _ rfl rfl h
  cases v with
  | none =>
    cases v' with
    | none => exact ⟨rfl, h⟩
    | some v' => simp at hsome
  | some v =>
    cases v' with
    | none => simp at hsome
    | some v' =>
      obtain ⟨hv, hrest⟩ := tells_value v v' _ _ ha hb h
      exact ⟨congrArg some hv, hrest⟩

theorem tells_global : Tells global Global.fits Global.ReadsAs := by
  intro g g' xs ys ha hb h
  simp only [Global.fits, Bool.and_eq_true] at ha hb
  simp only [global, List.append_assoc] at h
  obtain ⟨hname, h⟩ := tells_bytes _ _ _ _ ha.1.1.1 hb.1.1.1 h
  obtain ⟨htype, h⟩ := tells_type _ _ _ _ ha.1.1.2 hb.1.1.2 h
  obtain ⟨hlinkage, h⟩ := tells_linkage _ _ _ _ ha.1.2 hb.1.2 h
  obtain ⟨hconstant, h⟩ := tells_flag _ _ _ _ rfl rfl h
  obtain ⟨hinit, h⟩ := tells_init _ _ _ _ ha.2 hb.2 (by simpa only [List.append_assoc] using h)
  exact ⟨⟨hname, htype, hlinkage, hconstant, hinit⟩, h⟩

theorem tells_module : Tells Module.encoding Module.fits Module.ReadsAs := by
  intro m n xs ys hm hn h
  simp only [Module.fits, Bool.and_eq_true] at hm hn
  simp only [Module.encoding, List.append_assoc] at h
  obtain ⟨hname, h⟩ := tells_bytes _ _ _ _ hm.1.1.1 hn.1.1.1 h
  obtain ⟨hserial, h⟩ := tells_word _ _ _ _ hm.1.1.2 hn.1.1.2 h
  obtain ⟨hglobals, h⟩ := tells_list tells_global _ _ _ _ (by simpa using hm.1.2)
    (by simpa using hn.1.2) h
  obtain ⟨hfuncs, h⟩ := tells_list tells_func _ _ _ _ (by simpa using hm.2) (by simpa using hn.2) h
  exact ⟨⟨hname, hserial, hglobals, hfuncs⟩, h⟩

end Fingerprint

theorem Module.alike_of_encoding_eq {m n : Module} (hm : m.fits) (hn : n.fits)
    (h : m.encoding = n.encoding) : m.Alike n :=
  (Fingerprint.tells_module m n [] [] hm hn (by rw [h])).1.alike

namespace Fingerprint

theorem list_congr {α : Type} {e : α → List UInt8} {r : α → α → Prop} {as bs : List α}
    (he : ∀ a b, r a b → e a = e b) (h : List.Forall₂ r as bs) : list e as = list e bs := by
  have hmap : as.map e = bs.map e := by
    induction h with
    | nil => rfl
    | cons hab _ ih => rw [List.map_cons, List.map_cons, he _ _ hab, ih]
  rw [list, list, h.length_eq, List.flatMap_def, List.flatMap_def, hmap]

theorem instr_congr (i j : Instr) (h : i.Alike j) : instr i = instr j := by
  have hblock (a b : Option BlockRef) (hab : a.map BlockRef.id = b.map BlockRef.id) :
      block a = block b := congrArg optional hab
  rw [instr, instr, h.op, h.type, h.result, h.predicate, h.typeOperand, h.operands,
    list_congr hblock h.targets, list_congr hblock h.incoming]

theorem bytes_congr {s t : String} (h : Text.bytes s = Text.bytes t) : bytes s = bytes t := by
  rw [bytes, bytes, ← Text.length_bytes, ← Text.length_bytes, h]

theorem body_congr (b c : Block) (h : b.ReadsAs c) : body b = body c := by
  rw [body, body, bytes_congr h.label, list_congr instr_congr h.instrs]

theorem func_congr (f g : Func) (h : f.ReadsAs g) : func f = func g := by
  rw [func, func, bytes_congr h.name, h.type, h.linkage, h.temps, list_congr body_congr h.blocks]

theorem global_congr (g g' : Global) (h : g.ReadsAs g') : global g = global g' := by
  rw [global, global, bytes_congr h.name, h.type, h.linkage, h.isConstant, h.init]

end Fingerprint

/-- Modules are written as the same bytes just when all that a fingerprint is taken of is the same: names,
labels, linkages, types, initial values and instructions, each at its place. -/
theorem Module.encoding_eq_iff {m n : Module} (hm : m.fits) (hn : n.fits) :
    m.encoding = n.encoding ↔ m.ReadsAs n := by
  constructor
  · intro h
    exact (Fingerprint.tells_module m n [] [] hm hn (by rw [h])).1
  · intro h
    rw [encoding, encoding, Fingerprint.bytes_congr h.name, h.serial,
      Fingerprint.list_congr Fingerprint.global_congr h.globals,
      Fingerprint.list_congr Fingerprint.func_congr h.funcs]

def hop (loc : SourceLoc) (temp : String) (f : FuncRef) : Module where
  name := "m"
  serial := 1
  globals := [{ name := "g", type := ⟨1, 1⟩, init := some (.const ⟨1, 1⟩ 1 1) }]
  funcs := [{
    name := Text.ofBytes [0x00, 0xE9, 0xFF], type := ⟨1, 2⟩
    params := [⟨⟨1, 1⟩, 0⟩], temps := [⟨⟨1, 1⟩, temp⟩]
    blocks := [⟨"entry", some f, [{ op := .br, type := ⟨1, 3⟩, targets := [some ⟨f, 1⟩], loc }]⟩,
      ⟨"exit", some f, [{ op := .ret, type := ⟨1, 3⟩ }]⟩].foldl .push .empty }]

theorem Module.readsAs_hop : (hop {} "" ⟨0, 0⟩).fits ∧ (hop ⟨1, 2, 3⟩ "x" ⟨4, 0⟩).fits ∧
    (hop {} "" ⟨0, 0⟩).encoding = (hop ⟨1, 2, 3⟩ "x" ⟨4, 0⟩).encoding ∧
    (hop {} "" ⟨0, 0⟩).ReadsAs (hop ⟨1, 2, 3⟩ "x" ⟨4, 0⟩) := by
  have hm : (hop {} "" ⟨0, 0⟩).fits := by decide
  have hn : (hop ⟨1, 2, 3⟩ "x" ⟨4, 0⟩).fits := by decide
  have he : (hop {} "" ⟨0, 0⟩).encoding = (hop ⟨1, 2, 3⟩ "x" ⟨4, 0⟩).encoding := by
    decide +kernel
  exact ⟨hm, hn, he, (encoding_eq_iff hm hn).1 he⟩

end TypedIR
