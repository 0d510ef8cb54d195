import TypedIR.Proofs.Checks
import TypedIR.Type.Request

namespace TypedIR.TypeRegistry

variable {r : TypeRegistry} {t : TypeRef} {d : TypeDesc}

theorem owns_iff : r.owns t ↔ ∃ d, r.lookup t = some d := Option.isSome_iff_exists

theorem component_eq_ok_iff {role : TypeRole} :
    r.component role t = .ok d ↔ r.lookup t = some d := by
  cases h : r.lookup t <;> simp [component, h]

theorem isSized_iff : r.isSized t ↔ ∃ d, r.lookup t = some d ∧ d.isSized := Option.any_eq_true _ _

theorem owns_of_isSized (h : r.isSized t) : r.owns t := by
  obtain ⟨d, hd, -⟩ := isSized_iff.1 h
  exact owns_iff.2 ⟨d, hd⟩

theorem sizedComponent_eq_ok_iff {role : TypeRole} :
    r.sizedComponent role t = .ok () ↔ r.isSized t := by
  cases h : r.lookup t with
  | none => simp [sizedComponent, component, isSized, h, bind, Except.bind]
  | some d =>
    have hc : r.component role t = .ok d := component_eq_ok_iff.2 h
    cases d with
    | named name body => cases body <;> simp [sizedComponent, hc, isSized, h, TypeDesc.isSized]
    | _ => simp [sizedComponent, hc, isSized, h, TypeDesc.isSized]

theorem sizedComponents_eq_ok_iff {role : TypeRole} {fields : List TypeRef} :
    fields.forM (r.sizedComponent role) = .ok () ↔ ∀ f ∈ fields, r.isSized f :=
  forM_eq_ok_iff.trans (forall₂_congr fun _ _ => sizedComponent_eq_ok_iff)

def Admits (r : TypeRegistry) : TypeDesc → Prop
  | .void | .float _ | .pointer _ | .named .. => True
  | .int bits => bits ≠ 0 ∧ bits ≤ r.maxBits
  | .array elem _ => r.isSized elem
  | .vector elem count => count ≠ 0 ∧ ∃ d, r.lookup elem = some d ∧ d.isScalar
  | .struct fields _ => ∀ f ∈ fields, r.isSized f
  | .fn result params _ =>
    (r.lookup result = some .void ∨ r.isSized result) ∧ ∀ p ∈ params, r.isSized p

theorem check_eq_ok_iff : r.check d = .ok () ↔ r.Admits d := by
  cases d with
  | void | float | pointer | named => simp [check, Admits]
  | int bits =>
    by_cases h0 : bits = 0
    · simp [check, Admits, h0]
    · simp [check, Admits, h0, ite_eq_ok_iff]
  | array elem count => exact sizedComponent_eq_ok_iff
  | vector elem count =>
    simp only [check, Admits, bind_eq_ok_iff, component_eq_ok_iff]
    by_cases h0 : count = 0
    · simp [h0]
    · simp [h0, ite_eq_ok_iff]
  | struct fields packed => exact sizedComponents_eq_ok_iff
  | fn result params variadic =>
    have hparams : params.forM (r.sizedComponent .functionParameter) = .ok () ↔
        ∀ p ∈ params, r.isSized p := sizedComponents_eq_ok_iff
    cases he : r.lookup result with
    | none =>
      have hc (e : TypeDesc) : r.component .functionResult result ≠ .ok e := by
        simp [component_eq_ok_iff, he]
      simp [check, Admits, isSized, he, hc]
    | some e =>
      have hc : r.component .functionResult result = .ok e := component_eq_ok_iff.2 he
      by_cases hv : e = .void
      · have hcheck : r.check (.fn result params variadic) =
            params.forM (r.sizedComponent .functionParameter) := by
          simp [check, hc, hv, bind, Except.bind]
        simp only [hcheck, hparams, Admits, he, hv, true_or, true_and]
      · have hcheck : r.check (.fn result params variadic) =
            (do r.sizedComponent .functionResult result
                params.forM (r.sizedComponent .functionParameter)) := by
          simp [check, hc, hv, bind, Except.bind]
        simp only [hcheck, seq_eq_ok_iff, sizedComponent_eq_ok_iff, hparams, Admits, he,
          Option.some.injEq, hv, false_or]

theorem admitField_eq_ok_iff {name : String} {field : TypeRef} :
    r.admitField t name field = .ok () ↔ r.containsByValue field t = false ∧ r.isSized field := by
  cases hc : r.component .structField field with
  | error e =>
    have hs : ¬ r.isSized field := by
      intro hs
      obtain ⟨d, hd, -⟩ := isSized_iff.1 hs
      simp [component_eq_ok_iff.2 hd] at hc
    simp [admitField, hc, hs, discard, Functor.discard, Functor.mapConst, bind, Except.bind,
      Except.map]
  | ok d =>
    cases hb : r.containsByValue field t with
    | true =>
      simp [admitField, hc, hb, discard, Functor.discard, Functor.mapConst, bind, Except.bind,
        Except.map]
    | false =>
      simpa [admitField, hc, hb, discard, Functor.discard, Functor.mapConst, bind, Except.bind,
        Except.map] using sizedComponent_eq_ok_iff

theorem admitBody_eq_ok_iff {fields : List TypeRef} {packed : Bool} :
    r.admitBody t fields packed = .ok d ↔ ∃ name body, r.lookup t = some (.named name body) ∧
      (∀ f ∈ fields, r.containsByValue f t = false ∧ r.isSized f) ∧
      body.all (· = (fields, packed)) ∧ d = .named name (some (fields, packed)) := by
  have hfields (name : String) : fields.forM (r.admitField t name) = .ok () ↔
      ∀ f ∈ fields, r.containsByValue f t = false ∧ r.isSized f :=
    forM_eq_ok_iff.trans (forall₂_congr fun _ _ => admitField_eq_ok_iff)
  cases hc : r.component .struct t with
  | error e =>
    have hl (e : TypeDesc) : r.lookup t ≠ some e := by
      intro h
      simp [component_eq_ok_iff.2 h] at hc
    simp [admitBody, hc, hl]
  | ok e =>
    have hl := component_eq_ok_iff.1 hc
    cases e with
    | named name body =>
      have hrun : r.admitBody t fields packed = .ok d ↔ fields.forM (r.admitField t name) = .ok () ∧
          body.all (· = (fields, packed)) ∧ .named name (some (fields, packed)) = d := by
        cases hb : body.all (· = (fields, packed)) <;>
          cases hf : fields.forM (r.admitField t name) <;>
          simp [admitBody, hc, hb, hf, bind, Except.bind]
      rw [hrun, hfields]
      constructor
      · rintro ⟨hf, hb, rfl⟩
        exact ⟨name, body, hl, hf, hb, rfl⟩
      · rintro ⟨name', body', hl', hf, hb, rfl⟩
        obtain ⟨rfl, rfl⟩ : name = name' ∧ body = body' := by simpa [hl] using hl'
        exact ⟨hf, hb, rfl⟩
    | _ => simp [admitBody, hc, hl, bind, Except.bind]

end TypedIR.TypeRegistry
