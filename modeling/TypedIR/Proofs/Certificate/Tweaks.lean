import TypedIR.Proofs.Certificate.Coverage
import TypedIR.Proofs.Typing.Judgment

/-! Changes of one byte. A step of the hash loses nothing: from where it leads, the byte gives back the word
before it, and that word gives back the byte. So words that one byte told apart stay apart, whatever comes
after. -/

namespace TypedIR

/-- Lists that differ in one place, where their elements are related. -/
inductive Replaces {α : Type} (r : α → α → Prop) : List α → List α → Prop
  | head {a b : α} (h : r a b) (xs : List α) : Replaces r (a :: xs) (b :: xs)
  | tail (a : α) {xs ys : List α} (h : Replaces r xs ys) : Replaces r (a :: xs) (a :: ys)

/-- Sequences of one length that differ in exactly one byte. -/
def OneByteApart (xs ys : List UInt8) : Prop :=
  xs.length = ys.length ∧ ∃! k : Nat, xs[k]? ≠ ys[k]?

namespace Replaces

variable {α β : Type} {r : α → α → Prop} {xs ys : List α}

theorem length_eq (h : Replaces r xs ys) : xs.length = ys.length := by
  induction h with
  | head => rfl
  | tail a _ ih => rw [List.length_cons, List.length_cons, ih]

theorem append_left (zs : List α) (h : Replaces r xs ys) : Replaces r (zs ++ xs) (zs ++ ys) := by
  induction zs with
  | nil => exact h
  | cons z zs ih => exact ih.tail z

theorem append_right (h : Replaces r xs ys) (zs : List α) : Replaces r (xs ++ zs) (ys ++ zs) := by
  induction h with
  | head h xs => exact .head h (xs ++ zs)
  | tail a _ ih => exact ih.tail a

theorem map {s : β → β → Prop} {f : α → β} (hf : ∀ a ∈ xs, ∀ b, r a b → s (f a) (f b))
    (h : Replaces r xs ys) : Replaces s (xs.map f) (ys.map f) := by
  induction h with
  | head h xs => exact .head (hf _ List.mem_cons_self _ h) _
  | tail a _ ih => exact .tail _ (ih fun b hb => hf b (List.mem_cons_of_mem a hb))

theorem flatMap {s : β → β → Prop} {f : α → List β}
    (hf : ∀ a ∈ xs, ∀ b, r a b → Replaces s (f a) (f b)) (h : Replaces r xs ys) :
    Replaces s (xs.flatMap f) (ys.flatMap f) := by
  induction h with
  | head h xs => exact (hf _ List.mem_cons_self _ h).append_right _
  | tail a _ ih => exact (ih fun b hb => hf b (List.mem_cons_of_mem a hb)).append_left _

theorem of_existsUnique (hl : xs.length = ys.length) (h : ∃! k : Nat, xs[k]? ≠ ys[k]?) :
    Replaces (· ≠ ·) xs ys := by
  obtain ⟨k, hk, hunique⟩ := h
  induction xs generalizing ys k with
  | nil =>
    obtain rfl := List.length_eq_zero_iff.1 hl.symm
    exact absurd rfl hk
  | cons a xs ih =>
    obtain ⟨b, ys, rfl⟩ := List.exists_cons_of_length_eq_add_one hl.symm
    cases k with
    | zero =>
      have hrest : xs = ys := List.ext_getElem? fun i => by
        by_contra hne
        exact absurd (hunique (i + 1) hne) (Nat.succ_ne_zero i)
      exact hrest ▸ .head (fun he => hk (by simp [he])) xs
    | succ k =>
      have hab : a = b := by
        by_contra hne
        exact absurd (hunique 0 (by simpa using hne)) (Nat.zero_ne_add_one k)
      refine hab ▸ .tail a (ih (by simpa using hl) k hk fun i hi => ?_)
      exact Nat.succ.inj (hunique (i + 1) hi)

theorem existsUnique (h : Replaces (· ≠ ·) xs ys) : ∃! k : Nat, xs[k]? ≠ ys[k]? := by
  induction h with
  | head h xs =>
    refine ⟨0, by simpa using h, fun k hk => ?_⟩
    cases k with
    | zero => rfl
    | succ k => exact absurd rfl hk
  | tail a _ ih =>
    obtain ⟨k, hk, hunique⟩ := ih
    refine ⟨k + 1, hk, fun j hj => ?_⟩
    cases j with
    | zero => exact absurd rfl hj
    | succ j => exact congrArg (· + 1) (hunique j hj)

end Replaces

theorem oneByteApart_iff {xs ys : List UInt8} : OneByteApart xs ys ↔ Replaces (· ≠ ·) xs ys :=
  ⟨fun h => .of_existsUnique h.1 h.2, fun h => ⟨h.length_eq, h.existsUnique⟩⟩

namespace Fingerprint

theorem mul_prime_inj {s t : UInt64} : s * 0x100000001B3 = t * 0x100000001B3 ↔ s = t := by
  refine ⟨fun h => ?_, fun h => h ▸ rfl⟩
  -- The factor is odd, so it has an inverse.
  have hinverse : (0x100000001B3 : UInt64) * 0xCE965057AFF6957B = 1 := by decide
  have hdivide := congrArg (· * (0xCE965057AFF6957B : UInt64)) h
  simpa only [UInt64.mul_assoc, hinverse, UInt64.mul_one] using hdivide

theorem mix_inj_left {b : UInt8} {s t : UInt64} : mix s b = mix t b ↔ s = t :=
  mul_prime_inj.trans (UInt64.xor_left_inj _)

theorem mix_inj_right {s : UInt64} {a b : UInt8} : mix s a = mix s b ↔ a = b :=
  (mul_prime_inj.trans (UInt64.xor_right_inj _)).trans UInt8.toUInt64_inj

theorem foldl_mix_inj {xs : List UInt8} {s t : UInt64} : xs.foldl mix s = xs.foldl mix t ↔ s = t := by
  induction xs generalizing s t with
  | nil => rfl
  | cons a xs ih => rw [List.foldl_cons, List.foldl_cons, ih, mix_inj_left]

theorem foldl_mix_ne {xs ys : List UInt8} (h : Replaces (· ≠ ·) xs ys) (s : UInt64) :
    xs.foldl mix s ≠ ys.foldl mix s := by
  induction h generalizing s with
  | head h xs =>
    rw [List.foldl_cons, List.foldl_cons, Ne, foldl_mix_inj, mix_inj_right]
    exact h
  | tail a _ ih => exact ih (mix s a)

theorem fnv1a_ne {xs ys : List UInt8} (h : Replaces (· ≠ ·) xs ys) : fnv1a xs ≠ fnv1a ys :=
  foldl_mix_ne h _

theorem word_of_lt {n : Nat} (h : n < 256) : word n = n.toUInt8 :: List.replicate 7 0 := by
  have hhigh (i : Nat) : n / Nat.pow 256 (i + 1) = 0 := by
    refine Nat.div_eq_of_lt (Nat.lt_of_lt_of_le h ?_)
    exact Nat.le_self_pow (Nat.succ_ne_zero i) 256
  have hlow : n / Nat.pow 256 0 = n := Nat.div_one n
  simp only [word, List.range_succ_eq_map, List.range_zero, List.map_cons, List.map_map,
    Function.comp_def, Nat.succ_eq_add_one, hhigh, hlow]
  rfl

theorem replaces_word {n k : Nat} (hn : n < 256) (hk : k < 256) (h : n ≠ k) :
    Replaces (· ≠ ·) (word n) (word k) := by
  rw [word_of_lt hn, word_of_lt hk]
  refine .head (fun he => h ?_) _
  have hbyte := congrArg UInt8.toNat he
  simpa [Nat.mod_eq_of_lt hn, Nat.mod_eq_of_lt hk] using hbyte

theorem code_of_lt {n : Nat} (h : n < 256) : code n = word n := by
  have hlow : n % Nat.pow 2 32 = n := Nat.mod_eq_of_lt (Nat.lt_of_lt_of_le h (by decide))
  have hpositive : n < Nat.pow 2 31 := Nat.lt_of_lt_of_le h (by decide)
  simp only [code, hlow, if_pos hpositive]

theorem replaces_code {n k : Nat} (hn : n < 256) (hk : k < 256) (h : n ≠ k) :
    Replaces (· ≠ ·) (code n) (code k) := by
  rw [code_of_lt hn, code_of_lt hk]
  exact replaces_word hn hk h

theorem replaces_flag (b : Bool) : Replaces (· ≠ ·) (flag b) (flag !b) := by
  cases b
  · exact replaces_word (by decide) (by decide) (by decide)
  · exact replaces_word (by decide) (by decide) (by decide)

theorem replaces_bytes {s t : String} (h : OneByteApart (Text.bytes s) (Text.bytes t)) :
    Replaces (· ≠ ·) (bytes s) (bytes t) := by
  have hlen : s.length = t.length := by simpa using h.1
  rw [bytes, bytes, hlen]
  exact (oneByteApart_iff.1 h).append_left _

theorem replaces_list {α : Type} {r : α → α → Prop} {e : α → List UInt8} {as bs : List α}
    (he : ∀ a ∈ as, ∀ b, r a b → Replaces (· ≠ ·) (e a) (e b)) (h : Replaces r as bs) :
    Replaces (· ≠ ·) (list e as) (list e bs) := by
  rw [list, list, h.length_eq]
  exact (h.flatMap he).append_left _

end Fingerprint

def Linkage.declared : List Linkage := [internal, exported, imported]

/-- Another opcode, or another predicate of those that are declared. The predicate is that of a comparison,
or was a declared one. -/
inductive Instr.Tweak (i : Instr) : Instr → Prop
  | op {op : Opcode} (h : op ≠ i.op) : Tweak i { i with op }
  | predicate {p : Predicate} (hi : i.op.category = .compare ∨ i.predicate ∈ Predicate.declared)
    (hp : p ∈ Predicate.declared) (h : p ≠ i.predicate) : Tweak i { i with predicate := p }

inductive Block.Tweak (b : Block) : Block → Prop
  | label {s : String} (h : OneByteApart (Text.bytes b.label) (Text.bytes s)) :
    Tweak b { b with label := s }
  | instrs {is : List Instr} (h : Replaces Instr.Tweak b.instrs is) : Tweak b { b with instrs := is }

inductive Func.Tweak (f : Func) : Func → Prop
  | name {s : String} (h : OneByteApart (Text.bytes f.name) (Text.bytes s)) :
    Tweak f { f with name := s }
  | linkage {l : Linkage} (hf : f.linkage ∈ Linkage.declared) (hl : l ∈ Linkage.declared)
    (h : l ≠ f.linkage) : Tweak f { f with linkage := l }
  | blocks {bs : BlockList}
    (h : Replaces (fun e e' => e.1 = e'.1 ∧ e.2.Tweak e'.2) f.blocks.entries bs.entries) :
    Tweak f { f with blocks := bs }

inductive Global.Tweak (g : Global) : Global → Prop
  | name {s : String} (h : OneByteApart (Text.bytes g.name) (Text.bytes s)) :
    Tweak g { g with name := s }
  | linkage {l : Linkage} (hg : g.linkage ∈ Linkage.declared) (hl : l ∈ Linkage.declared)
    (h : l ≠ g.linkage) : Tweak g { g with linkage := l }
  | isConstant : Tweak g { g with isConstant := !g.isConstant }

/-- One change anywhere in the module. -/
inductive Module.Tweak (m : Module) : Module → Prop
  | global {gs : List Global} (h : Replaces Global.Tweak m.globals gs) : Tweak m { m with globals := gs }
  | func {fs : List Func} (h : Replaces Func.Tweak m.funcs fs) : Tweak m { m with funcs := fs }

def Instr.Compares (i : Instr) : Prop := i.op.category = .compare → i.predicate ∈ Predicate.declared

def Func.Compares (f : Func) : Prop := ∀ e ∈ f.blocks.entries, ∀ i ∈ e.2.instrs, i.Compares

theorem Predicate.code_lt_of_mem_declared {p : Predicate} (h : p ∈ declared) : p.code < 256 := by
  cases p with
  | undeclared n => simp [declared] at h
  | _ => decide

theorem Linkage.code_lt_of_mem_declared {l : Linkage} (h : l ∈ declared) : l.code < 256 := by
  cases l with
  | undeclared n => simp [declared] at h
  | _ => decide

namespace Fingerprint

theorem replaces_linkage {l l' : Linkage} (hl : l ∈ Linkage.declared) (hl' : l' ∈ Linkage.declared)
    (h : l' ≠ l) : Replaces (· ≠ ·) (code l.code) (code l'.code) := by
  refine replaces_code (Linkage.code_lt_of_mem_declared hl) (Linkage.code_lt_of_mem_declared hl') ?_
  intro he
  exact h (by simpa using congrArg Linkage.ofCode he.symm)

theorem replaces_predicate {p p' : Predicate} (hp : p ∈ Predicate.declared)
    (hp' : p' ∈ Predicate.declared) (h : p' ≠ p) : Replaces (· ≠ ·) (code p.code) (code p'.code) := by
  refine replaces_code (Predicate.code_lt_of_mem_declared hp) (Predicate.code_lt_of_mem_declared hp') ?_
  intro he
  exact h (by simpa [Predicate.ofCode_code] using congrArg Predicate.ofCode he.symm)

theorem replaces_op {op op' : Opcode} (h : op' ≠ op) : Replaces (· ≠ ·) (word op.code) (word op'.code) := by
  have hlt (op : Opcode) : op.code < 256 := by cases op <;> decide
  refine replaces_word (hlt op) (hlt op') fun he => h ?_
  simpa [Opcode.ofCode?_code] using congrArg Opcode.ofCode? he.symm

theorem replaces_instr {i j : Instr} (hi : i.Compares) (h : i.Tweak j) :
    Replaces (· ≠ ·) (instr i) (instr j) := by
  cases h with
  | op h =>
    simp only [instr, List.append_assoc]
    exact (replaces_op h).append_right _
  | predicate hp hp' h =>
    simp only [instr, List.append_assoc]
    refine .append_left _ (.append_left _ (.append_left _ (.append_right ?_ _)))
    exact replaces_predicate (hp.elim hi id) hp' h

theorem replaces_body {b c : Block} (hb : ∀ i ∈ b.instrs, i.Compares) (h : b.Tweak c) :
    Replaces (· ≠ ·) (body b) (body c) := by
  cases h with
  | label h => exact .append_right (replaces_bytes h) _
  | instrs h => exact .append_left _ (replaces_list (fun i hi _ => replaces_instr (hb i hi)) h)

theorem replaces_func {f g : Func} (hf : f.Compares) (h : f.Tweak g) :
    Replaces (· ≠ ·) (func f) (func g) := by
  cases h with
  | name h =>
    simp only [func, List.append_assoc]
    exact .append_right (replaces_bytes h) _
  | linkage hf hl h =>
    simp only [func, List.append_assoc]
    exact .append_left _ (.append_left _ (.append_right (replaces_linkage hf hl h) _))
  | blocks h =>
    have hblocks := h.map (s := fun b c => (∀ i ∈ b.instrs, i.Compares) ∧ b.Tweak c) (f := Prod.snd)
      fun e he e' h => ⟨hf e he, h.2⟩
    exact .append_left _ (replaces_list (fun b _ c h => replaces_body h.1 h.2) hblocks)

theorem replaces_global {g g' : Global} (h : g.Tweak g') : Replaces (· ≠ ·) (global g) (global g') := by
  simp only [global, List.append_assoc]
  cases h with
  | name h => exact .append_right (replaces_bytes h) _
  | linkage hg hl h =>
    exact .append_left _ (.append_left _ (.append_right (replaces_linkage hg hl h) _))
  | isConstant =>
    exact .append_left _ (.append_left _ (.append_left _ (.append_right (replaces_flag _) _)))

theorem replaces_encoding {m n : Module} (hm : ∀ f ∈ m.funcs, f.Compares) (h : m.Tweak n) :
    Replaces (· ≠ ·) m.encoding n.encoding := by
  simp only [Module.encoding, List.append_assoc]
  cases h with
  | global h =>
    have hglobals := replaces_list (fun _ _ _ hg => replaces_global hg) h
    exact .append_left _ (.append_left _ (.append_right hglobals _))
  | func h =>
    have hfuncs := replaces_list (fun f hf _ hg => replaces_func (hm f hf) hg) h
    exact .append_left _ (.append_left _ (.append_left _ hfuncs))

end Fingerprint

theorem Module.fingerprint_ne {m n : Module} (h : Replaces (· ≠ ·) m.encoding n.encoding) :
    m.fingerprint ≠ n.fingerprint := by
  rw [fingerprint, fingerprint]
  exact Fingerprint.fnv1a_ne h

namespace World

variable {w : World} {m : Nat}

theorem compares_of_checkInstr {f : FuncRef} {i : Instr} (h : w.checkInstr m f i = .ok ()) :
    i.Compares := by
  intro hop
  have hrule := (checkInstr_eq_ok_iff.1 h).2.2
  simp only [Instr.checkRule, hop] at hrule
  obtain ⟨a, b, rest, -, -, hpredicate, -⟩ := Instr.checkCompare_iff.1 hrule
  have hdeclared : i.predicate.isInt ∨ i.predicate.isFloat := by
    split at hpredicate
    · exact .inl hpredicate.2
    · exact .inr hpredicate.2
  cases hp : i.predicate with
  | undeclared n =>
    simp [hp, Predicate.isInt, Predicate.isFloat, Predicate.code, Predicate.declared] at hdeclared
  | _ => decide

theorem Verified.compares (h : w.Verified m) {f : Func} (hf : f ∈ (w.module m).funcs) : f.Compares := by
  intro ⟨id, x⟩ he i hi
  obtain ⟨k, hk⟩ := List.mem_iff_getElem?.1 hf
  obtain ⟨n, hn⟩ := List.mem_iff_getElem?.1 hi
  have hfunc : w.func ⟨m, k⟩ = f := func_eq hk
  have hblock : w.block? ⟨⟨m, k⟩, id⟩ = some x := by
    rw [block?, hfunc]
    exact BlockList.get?_eq_some_iff.2 he
  have hlt := (List.getElem?_eq_some_iff.1 hk).1
  exact compares_of_checkInstr
    (h.typing ⟨m, k⟩ (mem_funcRefs.2 ⟨rfl, hlt⟩) ⟨⟨⟨m, k⟩, id⟩, x, n, i⟩ (mem_sites.2 ⟨rfl, hblock, hn⟩))

/-- A change of one byte is noticed, whatever the hash does with the rest. One opcode, one predicate of a
comparison, one linkage, one constness, or one byte of a name or of a label is such a byte. -/
theorem notices_one_byte :
    (∀ m n : Module, OneByteApart m.encoding n.encoding → m.fingerprint ≠ n.fingerprint) ∧
      ∀ (w w' : World) (m : Nat) (c : Certificate), w.verify m = .ok c →
        (w.module m).Tweak (w'.module m) →
          OneByteApart (w.module m).encoding (w'.module m).encoding ∧ w.covers m c = true ∧
            w'.covers m c = false := by
  have hbyte (m n : Module) (h : OneByteApart m.encoding n.encoding) : m.fingerprint ≠ n.fingerprint :=
    Module.fingerprint_ne (oneByteApart_iff.1 h)
  refine ⟨hbyte, fun w w' m c hv ht => ?_⟩
  obtain ⟨hverified, rfl⟩ := verify_eq_ok_iff.1 hv
  have hapart := oneByteApart_iff.2
    (Fingerprint.replaces_encoding (fun f hf => hverified.compares hf) ht)
  have hbefore : w.covers m (w.certificate m) := by simp [covers, certificate, hverified.alive]
  refine ⟨hapart, hbefore, ?_⟩
  rw [← Bool.not_eq_true]
  intro hcovers
  obtain ⟨-, -, -, hprint⟩ := covers_iff.1 hcovers
  simp only [certificate] at hprint
  exact hbyte _ _ hapart hprint.symm

def comparing (p : Predicate) (label : String) : World where
  contexts := [{
    widthLimit := 64, traces := false, modulesMade := 1, funcsMade := 1
    types := ⟨1, 64, false, [.int 32, .int 1, .fn ⟨1, 2⟩ [⟨1, 1⟩, ⟨1, 1⟩] false, .pointer 0, .void]⟩ }]
  modules := [{
    context := 1, name := "m", serial := 1, symbols := [("f", .func 0)]
    funcs := [{
      name := "f", type := ⟨1, 3⟩, retType := ⟨1, 2⟩, params := [⟨⟨1, 1⟩, 0⟩, ⟨⟨1, 1⟩, 1⟩]
      serial := 1, moduleSerial := 1, refType := ⟨1, 4⟩
      temps := [⟨⟨1, 1⟩, ""⟩, ⟨⟨1, 1⟩, ""⟩, ⟨⟨1, 2⟩, ""⟩]
      blocks := [⟨label, some ⟨0, 0⟩, [
        { op := .icmp, type := ⟨1, 2⟩, result := some 2, predicate := p
          operands := [.param ⟨1, 1⟩ 0 1, .param ⟨1, 1⟩ 1 1] },
        { op := .ret, type := ⟨1, 5⟩, operands := [.result ⟨1, 2⟩ 2 1] }]⟩].foldl .push .empty }] }]

theorem tweak_predicate_comparing (label : String) :
    ((comparing .eq label).module 0).Tweak ((comparing .ne label).module 0) :=
  .func (.head (.blocks (.head ⟨rfl, .instrs (.head (.predicate (p := .ne) (.inl rfl) (by decide)
    (by decide)) _)⟩ [])) [])

theorem tweak_label_comparing (p : Predicate) :
    ((comparing p "a").module 0).Tweak ((comparing p (Text.ofBytes [0xE1])).module 0) := by
  have hbyte : OneByteApart (Text.bytes "a") (Text.bytes (Text.ofBytes [0xE1])) := by
    rw [Text.bytes_ofBytes]
    exact oneByteApart_iff.2 (.head (a := 0x61) (by decide) [])
  exact .func (.head (.blocks (.head ⟨rfl, .label hbyte⟩ [])) [])

theorem notices_comparing : (comparing .eq "a").verify 0 = .ok ((comparing .eq "a").certificate 0) ∧
    ((comparing .eq "a").module 0).Tweak ((comparing .ne "a").module 0) ∧
    ((comparing .eq "a").module 0).fingerprint ≠ ((comparing .ne "a").module 0).fingerprint ∧
    (comparing .eq "a").covers 0 ((comparing .eq "a").certificate 0) = true ∧
    (comparing .ne "a").covers 0 ((comparing .eq "a").certificate 0) = false ∧
    (comparing .eq (Text.ofBytes [0xE1])).covers 0 ((comparing .eq "a").certificate 0) = false := by
  have hv : (comparing .eq "a").verify 0 = .ok ((comparing .eq "a").certificate 0) :=
    verify_eq_ok_iff.2 ⟨violations_eq_nil_iff.1 (by cbv), rfl⟩
  have htweak := tweak_predicate_comparing "a"
  obtain ⟨hapart, hbefore, hafter⟩ := notices_one_byte.2 _ _ 0 _ hv htweak
  obtain ⟨-, -, hlabel⟩ := notices_one_byte.2 _ _ 0 _ hv (tweak_label_comparing .eq)
  exact ⟨hv, htweak, notices_one_byte.1 _ _ hapart, hbefore, hafter, hlabel⟩

end World

end TypedIR
