/-! Texts are sequences of bytes, which need not spell anything. A text is a string of characters below
256, one for each of its bytes. -/

namespace TypedIR.Text

def bytes (s : String) : List UInt8 := s.toList.map Char.toUInt8

def ofBytes (bs : List UInt8) : String := String.ofList (bs.map Char.ofUInt8)

@[simp] theorem length_bytes (s : String) : (bytes s).length = s.length := by
  rw [bytes, List.length_map, String.length_toList]

@[simp] theorem bytes_ofBytes (bs : List UInt8) : bytes (ofBytes bs) = bs := by
  have h (b : UInt8) : (Char.ofUInt8 b).toUInt8 = b := UInt8.toUInt8_toUInt32 b
  simp [bytes, ofBytes, Function.comp_def, h]

theorem ofBytes_bytes {s : String} (h : ∀ c ∈ s.toList, c.toNat < 256) : ofBytes (bytes s) = s := by
  have hchar : ∀ c ∈ s.toList, (Char.ofUInt8 ∘ Char.toUInt8) c = id c := by
    intro c hc
    have hlt : c.val % 256 = c.val := by
      apply UInt32.toNat_inj.1
      rw [UInt32.toNat_mod]
      exact Nat.mod_eq_of_lt (h c hc)
    exact Char.ext ((UInt32.toUInt32_toUInt8 c.val).trans hlt)
  rw [ofBytes, bytes, List.map_map, List.map_congr_left hchar, List.map_id, String.ofList_toList]

/-- Texts with the same bytes are the same. -/
theorem bytes_inj {s t : String} (hs : ∀ c ∈ s.toList, c.toNat < 256)
    (ht : ∀ c ∈ t.toList, c.toNat < 256) : bytes s = bytes t ↔ s = t :=
  ⟨fun h => by rw [← ofBytes_bytes hs, h, ofBytes_bytes ht], fun h => h ▸ rfl⟩

end TypedIR.Text
