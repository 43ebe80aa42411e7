import CProgram.Lib.Bytes

/-! UTF-8, from what the library has about the bytes of one character. -/
namespace CProgram

def utf8 (chars : List Char) : List UInt8 := chars.flatMap String.utf8EncodeChar

namespace Utf8
variable {c : Char} {b : UInt8} {chars chars' : List Char}

theorem encode_ascii (h : c.toNat < 0x80) : String.utf8EncodeChar c = [UInt8.ofNat c.toNat] := by
  unfold String.utf8EncodeChar
  exact if_pos (by unfold Char.toNat at h; omega)

/-- Outside ASCII no byte looks like ASCII. -/
theorem high_of_mem (h : 0x80 ≤ c.toNat) (hb : b ∈ String.utf8EncodeChar c) : 0x80 ≤ b.toNat := by
  unfold Char.toNat at h
  unfold String.utf8EncodeChar at hb
  simp only [show ¬ c.val.toNat ≤ 0x7f by omega, if_false] at hb
  split at hb
  · simp only [List.mem_cons, List.not_mem_nil, or_false] at hb
    rcases hb with rfl | rfl <;> rw [UInt8.toNat_ofNat'] <;> omega
  · split at hb
    · simp only [List.mem_cons, List.not_mem_nil, or_false] at hb
      rcases hb with rfl | rfl | rfl <;> rw [UInt8.toNat_ofNat'] <;> omega
    · simp only [List.mem_cons, List.not_mem_nil, or_false] at hb
      rcases hb with rfl | rfl | rfl | rfl <;> rw [UInt8.toNat_ofNat'] <;> omega

theorem nil : utf8 [] = [] := rfl

theorem cons (c : Char) (chars : List Char) : utf8 (c :: chars) = String.utf8EncodeChar c ++ utf8 chars := by
  simp [utf8]

theorem append (chars chars' : List Char) : utf8 (chars ++ chars') = utf8 chars ++ utf8 chars' := by
  simp [utf8]

/-- A row of characters is read off its bytes. -/
theorem injective : Function.Injective utf8 := by
  intro chars
  induction chars with
  | nil =>
    intro chars' h
    cases chars' with
    | nil => rfl
    | cons c chars' =>
      rw [nil, cons] at h
      exact absurd (List.append_eq_nil_iff.mp h.symm).1 String.utf8EncodeChar_ne_nil
  | cons c chars ih =>
    intro chars' h
    cases chars' with
    | nil =>
      rw [nil, cons] at h
      exact absurd (List.append_eq_nil_iff.mp h).1 String.utf8EncodeChar_ne_nil
    | cons c' chars' =>
      rw [cons, cons] at h
      have hdecode : some c = some c' := by
        rw [← @ByteArray.utf8DecodeChar?_utf8EncodeChar_append (utf8 chars).toByteArray c,
          ← @ByteArray.utf8DecodeChar?_utf8EncodeChar_append (utf8 chars').toByteArray c',
          ← List.toByteArray_append, ← List.toByteArray_append, h]
      obtain rfl := Option.some.inj hdecode
      rw [ih (List.append_cancel_left h)]

/-- The characters that a row of bytes is made of, if it is one of characters. -/
def decode (bytes : List UInt8) : Option (List Char) :=
  if h : bytes.toByteArray.IsValidUTF8 then some (String.toList ⟨bytes.toByteArray, h⟩) else none

theorem decode_utf8 (chars : List Char) : decode (utf8 chars) = some chars := by
  have hbytes : (utf8 chars).toByteArray = (String.ofList chars).toByteArray := String.toByteArray_ofList.symm
  have hvalid : (utf8 chars).toByteArray.IsValidUTF8 := hbytes ▸ (String.ofList chars).isValidUTF8
  rw [decode, dif_pos hvalid]
  exact congrArg some String.toList_ofList

/-- Nothing but the bytes of a row of characters is read as that row. -/
theorem utf8_of_decode {bytes : List UInt8} (h : decode bytes = some chars) : utf8 chars = bytes := by
  rw [decode] at h
  split at h
  · next hvalid =>
    obtain rfl := Option.some.inj h
    have hencode := @String.utf8Encode_toList ⟨bytes.toByteArray, hvalid⟩
    have hdata := congrArg (fun b => b.data.toList) hencode
    simpa [utf8, List.utf8Encode] using hdata
  · cases h

/-- An ASCII byte stands for itself. -/
theorem mem_ascii (h : c.toNat < 0x80) : UInt8.ofNat c.toNat ∈ utf8 chars ↔ c ∈ chars := by
  rw [utf8, List.mem_flatMap]
  constructor
  · rintro ⟨d, hd, hb⟩
    rcases Nat.lt_or_ge d.toNat 0x80 with hlt | hge
    · rw [encode_ascii hlt, List.mem_singleton] at hb
      have hnat := congrArg UInt8.toNat hb
      rw [UInt8.toNat_ofNat', UInt8.toNat_ofNat', Nat.mod_eq_of_lt (by omega), Nat.mod_eq_of_lt (by omega)]
        at hnat
      obtain rfl : c = d := Char.toNat_inj.mp hnat
      exact hd
    · have hhigh := high_of_mem hge hb
      rw [UInt8.toNat_ofNat'] at hhigh
      omega
  · intro hc
    exact ⟨c, hc, by simp [encode_ascii h]⟩

end Utf8
end CProgram
