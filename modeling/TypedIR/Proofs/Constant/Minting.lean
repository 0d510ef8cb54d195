import TypedIR.Proofs.Constant.Key
import TypedIR.Proofs.Operation.Contexts
import TypedIR.Proofs.Soundness.Reachable

namespace TypedIR

namespace World

/-- The context of this number has answered with the value. -/
inductive Minted (n : Nat) (v : Value) : World → Prop
  | answer {w : World} (h : w.Reachable) (o : Operation) (ha : w.answer? o = some (n, v)) :
    Minted n v (w.perform o)
  | later {w : World} (h : Minted n v w) (o : Operation) : Minted n v (w.perform o)

variable {w w' : World} {n k : Nat} {u v : Value}

theorem Reachable.id_context (h : w.Reachable) (hk : 0 < k) (hk' : k ≤ w.contexts.length) :
    (w.context k).id = k :=
  h.context_induction (P := fun k c => c.id = k) (fun _ _ _ => rfl)
    (fun _ _ _ _ hc hs => hs.grows.id.trans hc) (fun _ _ hc => hc) k hk hk'

theorem wellFormed_nil (types : TypeRegistry) : ConstantPool.WellFormed {} types :=
  ⟨.nil, fun i k hk => by simp at hk⟩

theorem Reachable.wellFormed (h : w.Reachable) (hl : (w.context n).isDisposed = false) :
    (w.context n).constants.WellFormed (w.context n).types :=
  h.context_induction (P := fun _ c => c.constants.WellFormed c.types) (fun _ _ _ => wellFormed_nil _)
    (fun _ _ _ _ hc hs => hs.wellFormed hc) (fun _ _ _ => wellFormed_nil _)
    n (valid_of_live hl).1 (valid_of_live hl).2

theorem Minted.valid (h : Minted n v w) : 0 < n ∧ n ≤ w.contexts.length := by
  induction h with
  | answer _ o ha =>
    obtain ⟨hl, hlen, -⟩ := steps_of_answer ha
    exact hlen ▸ valid_of_live hl
  | later _ o ih => exact ⟨ih.1, Nat.le_trans ih.2 (advances_perform _ o).grows.contextCount⟩

theorem Minted.context (h : Minted n v w) : v.type.context = n := by
  induction h with
  | @answer w h o ha =>
    obtain ⟨hl, -, hs⟩ := steps_of_answer ha
    obtain ⟨hpos, hle⟩ := valid_of_live hl
    rw [((hs n).context_of_mem (by simp)), h.id_context hpos hle]
  | later _ _ ih => exact ih

theorem Minted.lookupConstant (h : Minted n v w) (hl : (w.context n).isDisposed = false) :
    v.isFunction = false ∧ ((w.context n).lookupConstant v).isSome := by
  induction h with
  | answer _ o ha => exact ((steps_of_answer ha).2.2 n).lookupConstant_of_mem (by simp)
  | @later w h o ih =>
    obtain ⟨vs, hs, -⟩ := steps_perform w o h.valid.2 hl
    obtain ⟨hf, hk⟩ := ih (hs.grows.isDisposed.symm.trans hl)
    obtain ⟨k, hk⟩ := Option.isSome_iff_exists.1 hk
    exact ⟨hf, Option.isSome_iff_exists.2 ⟨k, hs.grows.lookupConstant hk⟩⟩

theorem Reachable.minted (h : w.Reachable) (hl : (w.context n).isDisposed = false)
    (hf : v.isFunction = false) (hv : ((w.context n).lookupConstant v).isSome) : Minted n v w := by
  induction h with
  | empty => exact absurd (valid_of_live hl) (by simp; omega)
  | @perform w h o ih =>
    by_cases hn : n ≤ w.contexts.length
    · obtain ⟨vs, hs, hvs⟩ := steps_perform w o hn hl
      rcases hs.mem_of_lookupConstant hf hv with hold | hmem
      · exact .later (ih (hs.grows.isDisposed.symm.trans hl) hold) o
      · exact .answer h o ((hvs v).1 hmem)
    · obtain ⟨limit, traces, he⟩ := context_perform_of_lt (Nat.lt_of_not_le hn) (valid_of_live hl).2
      simp [he, Context.new, Context.lookupConstant, ConstantPool.lookup] at hv

theorem Reachable.minted_iff (h : w.Reachable) (hl : (w.context n).isDisposed = false) :
    Minted n v w ↔ v.isFunction = false ∧ ((w.context n).lookupConstant v).isSome :=
  ⟨fun hm => hm.lookupConstant hl, fun hv => h.minted hl hv.1 hv.2⟩

/-- A context has one constant for each type and content, for as long as it lives. -/
structure CanonicalConstants (w : World) (n : Nat) : Prop where
  content : ∀ v, Minted n v w → ((w.context n).content? v).isSome
  eq_iff : ∀ u v, Minted n u w → Minted n v w →
    (u = v ↔ u.type = v.type ∧ (w.context n).content? u = (w.context n).content? v)
  answer : ∀ t d (call : ConstantCall) v, (w.context n).types.lookup t = some d →
    w.answer? (.constant n t call) = some (n, v) → v.type = t ∧
      ((w.perform (.constant n t call)).context n).content? v = some (call.content d)
  truth : ∀ b v, w.answer? (.bool n b) = some (n, v) →
    ((w.perform (.bool n b)).context n).types.lookup v.type = some (.int 1) ∧
      ((w.perform (.bool n b)).context n).content? v = some (.int (if b then 1 else 0))
  pattern : ∀ v x, (w.context n).content? v = some (.int x) →
    ∃ width, (w.context n).types.lookup v.type = some (.int width) ∧ x < 2 ^ width
  immutable : ∀ (os : List Operation) v x, (w.context n).content? v = some x →
    ((os.foldl perform w).context n).isDisposed = false →
      ((os.foldl perform w).context n).content? v = some x
  elements : ∀ v es, Minted n v w → (w.context n).content? v = some (.aggregate es) →
    (∃ d, (w.context n).types.lookup v.type = some d ∧ d.elementTypes? = some (es.map (·.type))) ∧
      ∀ e ∈ es, Minted n e w ∧ e.id < v.id
  literal : ∀ v depth, Minted n v w → v.id ≤ depth →
    (w.context n).constants.literalWithin (w.context n).types depth v.id = (w.context n).literal v
  key : ∀ k : Constant, (w.context n).types.owns k.type →
    (w.context n).constants.internByKey n k = (w.context n).constants.intern n k

theorem Reachable.canonicalConstants (h : w.Reachable) (hl : (w.context n).isDisposed = false) :
    w.CanonicalConstants n := by
  have hw := h.wellFormed hl
  obtain ⟨hpos, hle⟩ := valid_of_live hl
  have hid : (w.context n).id = n := h.id_context hpos hle
  constructor
  · intro v hv
    obtain ⟨k, hk⟩ := Option.isSome_iff_exists.1 (hv.lookupConstant hl).2
    simp [Context.content?, hk]
  · intro u v hu hv
    obtain ⟨hfu, hku⟩ := hu.lookupConstant hl
    obtain ⟨hfv, hkv⟩ := hv.lookupConstant hl
    exact Context.eq_iff_content?_eq hw hfu hfv hku hkv
  · intro t d call v hd ha
    obtain ⟨-, constants, hq, he⟩ := of_answer_constant ha
    rw [he, context_setContext, if_pos ⟨rfl, hpos, hle⟩]
    exact Context.content?_of_request hq hd
  · intro b v ha
    obtain ⟨-, c, hc, he⟩ := of_answer_bool ha
    obtain ⟨t, constants, ht, hu, rfl⟩ := Context.of_bool hc
    rw [he, context_setContext, if_pos ⟨rfl, hpos, hle⟩]
    obtain ⟨rfl, hx⟩ := Context.content?_of_request
      (c := { w.context n with types := TypeRequest.after (TypeRequest.int 1) (w.context n).types }) hu ht
    refine ⟨ht, hx.trans ?_⟩
    cases b <;> rfl
  · exact fun v x hx => Context.lt_of_content?_eq_int hw hx
  · exact fun os v x hx hl' => ((grows_foldl w os).contexts n hle hl').2.content? hw hx
  · intro v es hv hes
    obtain ⟨ht, hes⟩ := Context.of_content?_eq_aggregate hw hes
    refine ⟨ht, fun e he => ?_⟩
    obtain ⟨hf, hk, hlt⟩ := hes e he
    exact ⟨h.minted hl hf hk, hlt⟩
  · intro v depth hv hdepth
    obtain ⟨k, hk⟩ := Option.isSome_iff_exists.1 (hv.lookupConstant hl).2
    obtain ⟨-, -, hpos, -⟩ := ConstantPool.lookup_eq_some_iff.1 hk
    rw [Context.lookupConstant, Context.id] at hk
    rw [hw.literalWithin_eq hpos hdepth, Context.literal, ConstantPool.literal, hk]
  · intro k hk
    have hkey := hw.internByKey_eq hk
    rwa [show (w.context n).types.context = n from hid] at hkey

def pairs : World :=
  [.newContext 64 false, .type 1 (.int 8), .type 1 (.struct [⟨1, 1⟩, ⟨1, 1⟩] false),
    .constant 1 ⟨1, 1⟩ (.signed (-1)), .constant 1 ⟨1, 1⟩ (.unsigned 255),
    .constant 1 ⟨1, 2⟩ (.aggregate [.const ⟨1, 1⟩ 1 1, .const ⟨1, 1⟩ 1 1])].foldl perform {}

theorem canonicalConstants_pairs : pairs.Reachable ∧ (pairs.context 1).isDisposed = false ∧
    (pairs.context 1).content? (.const ⟨1, 1⟩ 1 1) = some (.int 255) ∧
    (pairs.context 1).content? (.const ⟨1, 2⟩ 2 1) =
      some (.aggregate [.const ⟨1, 1⟩ 1 1, .const ⟨1, 1⟩ 1 1]) ∧
    pairs.CanonicalConstants 1 := by
  have hr : pairs.Reachable := reachable_foldl .empty
  have hl : (pairs.context 1).isDisposed = false := by decide
  exact ⟨hr, hl, by decide, by decide, hr.canonicalConstants hl⟩

end World

end TypedIR
