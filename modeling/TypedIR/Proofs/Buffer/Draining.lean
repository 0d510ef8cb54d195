import TypedIR.Buffer.Basic

namespace TypedIR

namespace InStream

variable {s : InStream} {n : Nat} {got : List UInt8} {r : List UInt8 × InStream}

theorem eq_of_good (h : s.good) : s = { rest := s.rest } := by
  obtain ⟨rest, eof, fail, bad⟩ := s
  simp only [good, Bool.and_eq_true, Bool.not_eq_true'] at h
  obtain ⟨⟨rfl, rfl⟩, rfl⟩ := h
  rfl

theorem not_good_iff : ¬ s.good ↔ s.eof ∨ s.fail ∨ s.bad := by
  cases he : s.eof <;> cases hf : s.fail <;> simp [good, he, hf]

theorem read_of_not_good (h : ¬ s.good) (n : Nat) : s.read n = ([], { s with fail := true }) := by
  rw [read, if_neg h]

theorem read_of_le (h : s.good) (hn : n ≤ s.rest.length) :
    s.read n = (s.rest.take n, { rest := s.rest.drop n }) := by
  rw [eq_of_good h]
  simp [read, good, Nat.not_lt.2 hn]

theorem read_of_lt (h : s.good) (hn : s.rest.length < n) :
    s.read n = (s.rest, { rest := [], eof := true, fail := true }) := by
  have hle := Nat.le_of_lt hn
  rw [eq_of_good h]
  simp [read, good, hn, List.take_of_length_le hle, List.drop_of_length_le hle]

theorem read_append_rest (s : InStream) (n : Nat) : (s.read n).1 ++ (s.read n).2.rest = s.rest := by
  by_cases h : s.good
  · simp [read, h]
  · simp [read_of_not_good h]

def GoesOn (s : InStream) : Prop := (s.read chunk).2.ok ∨ (s.read chunk).1 ≠ []

/-- The reading of a stream, with what it gave before. It ends when a read fails that gives nothing: after
so many reads, with all that they gave and with what is left of the stream. -/
inductive Drains : InStream → List UInt8 → Nat → List UInt8 × InStream → Prop
  | stop {s : InStream} {got : List UInt8} : ¬ s.GoesOn → Drains s got 1 (got, (s.read chunk).2)
  | turn {s : InStream} {got : List UInt8} {n : Nat} {r : List UInt8 × InStream} : s.GoesOn →
      Drains (s.read chunk).2 (got ++ (s.read chunk).1) n r → Drains s got (n + 1) r

theorem goesOn_iff : s.GoesOn ↔ s.good ∧ s.rest ≠ [] := by
  by_cases h : s.good
  · by_cases hn : s.rest.length < chunk
    · simp [GoesOn, read_of_lt h hn, ok, h]
    · have hne : s.rest ≠ [] := fun he => hn (he ▸ Nat.succ_pos _)
      simp [GoesOn, read_of_le h (Nat.le_of_not_lt hn), ok, h, hne]
  · simp [GoesOn, read_of_not_good h, ok, h]

theorem GoesOn.length_lt (h : s.GoesOn) : (s.read chunk).2.rest.length < s.rest.length := by
  obtain ⟨hs, hne⟩ := goesOn_iff.1 h
  have hpos := List.length_pos_iff.2 hne
  have hrest : (s.read chunk).2.rest = s.rest.drop chunk := by simp [read, hs]
  rw [hrest, List.length_drop]
  exact Nat.sub_lt hpos (Nat.succ_pos _)

theorem drains_drain (s : InStream) (got : List UInt8) : ∃ n, s.Drains got n (s.drain got) := by
  -- A read that the reading goes on after takes bytes away.
  induction hlen : s.rest.length using Nat.strongRecOn generalizing s got with
  | _ len ih =>
    have htest : ((s.read chunk).2.ok || !(s.read chunk).1.isEmpty) = true ↔ s.GoesOn := by
      simp [GoesOn]
    rw [drain]
    by_cases h : s.GoesOn
    · rw [if_pos (htest.2 h), dif_pos h.length_lt]
      obtain ⟨n, hn⟩ := ih _ (hlen ▸ h.length_lt) (s.read chunk).2 (got ++ (s.read chunk).1) rfl
      exact ⟨n + 1, .turn h hn⟩
    · rw [if_neg (mt htest.1 h)]
      exact ⟨1, .stop h⟩

def reads (s : InStream) : Nat := if s.good then (s.rest.length + (chunk - 1)) / chunk + 1 else 1

theorem reads_of_good (h : s.good) : s.reads = (s.rest.length + (chunk - 1)) / chunk + 1 := if_pos h

theorem reads_of_not_good (h : ¬ s.good) : s.reads = 1 := if_neg h

namespace Drains

theorem of_not_good (h : s.Drains got n r) (hs : ¬ s.good) :
    n = 1 ∧ r = (got, { s with fail := true }) := by
  cases h with
  | stop => exact ⟨rfl, by rw [read_of_not_good hs]⟩
  | turn hg => exact absurd (goesOn_iff.1 hg).1 hs

theorem reads_eq (h : s.Drains got n r) : n = s.reads := by
  induction h with
  | @stop s got hg =>
    by_cases hs : s.good
    · have hnil : s.rest = [] := Classical.byContradiction fun hne => hg (goesOn_iff.2 ⟨hs, hne⟩)
      simp [reads_of_good hs, hnil, chunk]
    · rw [reads_of_not_good hs]
  | @turn s got n r hg h ih =>
    obtain ⟨hs, hne⟩ := goesOn_iff.1 hg
    have hpos := List.length_pos_iff.2 hne
    rw [ih, reads_of_good hs]
    by_cases hlt : s.rest.length < chunk
    · have hs' : ¬ (s.read chunk).2.good := by simp [read_of_lt hs hlt, good]
      rw [reads_of_not_good hs']
      simp only [chunk] at hlt ⊢
      omega
    · rw [read_of_le hs (Nat.le_of_not_lt hlt), reads_of_good rfl, List.length_drop]
      simp only [chunk] at hlt ⊢
      omega

theorem append_rest (h : s.Drains got n r) : r.1 ++ r.2.rest = got ++ s.rest := by
  induction h with
  | @stop s got hg =>
    have hnone : (s.read chunk).1 = [] := Classical.byContradiction fun hne => hg (.inr hne)
    have hrest := s.read_append_rest chunk
    rw [hnone, List.nil_append] at hrest
    rw [hrest]
  | @turn s got n r _ _ ih => rw [ih, List.append_assoc, read_append_rest]

theorem left_eq (h : s.Drains got n r) (hs : s.good) :
    r.2 = { rest := [], eof := true, fail := true } := by
  induction h with
  | @stop s got hg =>
    have hnil : s.rest = [] := Classical.byContradiction fun hne => hg (goesOn_iff.2 ⟨hs, hne⟩)
    rw [read_of_lt hs (hnil ▸ Nat.succ_pos _)]
  | @turn s got n r hg h ih =>
    by_cases hlt : s.rest.length < chunk
    · rw [read_of_lt hs hlt] at h
      rw [(h.of_not_good Bool.false_ne_true).2]
    · exact ih (by rw [read_of_le hs (Nat.le_of_not_lt hlt)]; rfl)

end Drains

end InStream

namespace Buffer

variable {s : InStream} {name : String} {n : Nat} {r : List UInt8 × InStream}

/-- What is to be made of a stream: a buffer that owns all bytes that were to come, under the name that was
asked for. If the stream had come to its end before, there are none; if it had failed, there is no
buffer. -/
structure Gathers (s : InStream) (name : String) (answer : Except BufferError Buffer) : Prop where
  ends : ∃ r, s.Drains [] s.reads r ∧
    answer = if r.2.bad ∨ ¬ r.2.eof then .error (.broken name) else .ok (ofCopy r.1 name)
  good : s.good → ∃ b, answer = .ok b ∧ b.name = name ∧ b.isOwning ∧
    ∀ source, b.view source = s.rest
  ended : s.eof → ¬ s.bad → ∃ b, answer = .ok b ∧ b.name = name ∧ b.isOwning ∧
    ∀ source, b.view source = []
  failed : s.fail → ¬ s.eof → ¬ s.bad →
    answer.mapError BufferError.diag = .error ⟨.ioError, s!"error while reading '{name}'", {}, .error⟩
  bad : s.bad →
    answer.mapError BufferError.diag = .error ⟨.ioError, s!"error while reading '{name}'", {}, .error⟩

theorem ofStream_eq (s : InStream) (name : String) : ofStream s name =
    if (s.drain []).2.bad ∨ ¬ (s.drain []).2.eof then .error (.broken name)
    else .ok (ofCopy (s.drain []).1 name) := by
  simp [ofStream]

theorem ofStream_of_good (h : s.good) (name : String) :
    ofStream s name = .ok (ofCopy s.rest name) := by
  obtain ⟨n, hd⟩ := s.drains_drain []
  have hleft := hd.left_eq h
  have hbytes := hd.append_rest
  rw [hleft, List.append_nil, List.nil_append] at hbytes
  rw [ofStream_eq, hleft, hbytes]
  simp

theorem ofStream_of_not_good (h : ¬ s.good) (name : String) : ofStream s name =
    if s.bad ∨ ¬ s.eof then .error (.broken name) else .ok (ofCopy [] name) := by
  obtain ⟨n, hd⟩ := s.drains_drain []
  rw [ofStream_eq, (hd.of_not_good h).2]

/-- Whatever a stream holds, however much of it was taken before, and whatever state it is in. -/
theorem gathers_ofStream (content : List UInt8) (taken : Nat) (eof fail bad : Bool) (name : String) :
    Gathers ⟨content.drop taken, eof, fail, bad⟩ name
      (ofStream ⟨content.drop taken, eof, fail, bad⟩ name) where
  ends := by
    obtain ⟨n, hd⟩ := InStream.drains_drain ⟨content.drop taken, eof, fail, bad⟩ []
    exact ⟨_, hd.reads_eq ▸ hd, ofStream_eq _ name⟩
  good h := ⟨_, ofStream_of_good h name, rfl, rfl, fun _ => rfl⟩
  ended he hb := by
    have hend := not_or.2 ⟨hb, not_not_intro he⟩
    refine ⟨ofCopy [] name, ?_, rfl, rfl, fun _ => rfl⟩
    rw [ofStream_of_not_good (InStream.not_good_iff.2 (.inl he)), if_neg hend]
  failed hf he _ := by
    rw [ofStream_of_not_good (InStream.not_good_iff.2 (.inr (.inl hf))), if_pos (.inr he)]
    rfl
  bad hb := by
    rw [ofStream_of_not_good (InStream.not_good_iff.2 (.inr (.inr hb))), if_pos (.inl hb)]
    rfl

end Buffer

end TypedIR
