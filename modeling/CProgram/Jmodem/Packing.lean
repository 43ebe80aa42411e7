import CProgram.Jmodem.Blocks

/-! `encode` on a buffer that goes on behind the data: it looks one byte ahead, also behind the last one. -/
namespace CProgram.Jmodem.Packing
open Bytes

def jmMax : ℕ := 0xFFFF

/-- `while ((*in_buffer++ == dupl) && (len))`: `how_many`, the length that is left, and the pointer. -/
def countLoop (buffer : ℕ → UInt8) (dupl : UInt8) : ℕ → ℕ → ℕ → ℕ × ℕ × ℕ
  | 0, i, howMany => (howMany, 0, i + 1)
  | len + 1, i, howMany =>
    if buffer i = dupl then countLoop buffer dupl len (i + 1) (howMany + 1) else (howMany, len + 1, i + 1)

theorem countLoop_len (buffer : ℕ → UInt8) (dupl : UInt8) (len i howMany : ℕ) :
    (countLoop buffer dupl len i howMany).2.1 ≤ len := by
  induction len generalizing i howMany with
  | zero => exact le_rfl
  | succ len ih =>
    rw [countLoop]
    split
    · exact (ih _ _).trans (Nat.le_succ len)
    · exact le_rfl

theorem countLoop_first (buffer : ℕ → UInt8) (len i : ℕ) :
    (countLoop buffer (buffer i) (len + 1) i 0).2.1 < len + 1 := by
  rw [countLoop, if_pos rfl]
  exact Nat.lt_succ_of_le (countLoop_len ..)

/-- The loop of `encode` from a place on: what has been written when it returns, and what it returns. -/
def encodeFrom (buffer : ℕ → UInt8) : ℕ → ℕ → List UInt8 → ℕ → List UInt8 × ℕ
  | 0, _, out, count => (out, count)
  | len + 1, i, out, count =>
    if buffer i = sentinel ∨ buffer i = buffer (i + 1) then
      let run := countLoop buffer (buffer i) (len + 1) i 0
      have hrun : run.2.1 < len + 1 := countLoop_first buffer len i
      let out := out ++ sentinel :: UInt8.ofNat run.1 :: UInt8.ofNat (run.1 >>> 8) :: [buffer i]
      if datMax < count + 4 then (out, jmMax) else encodeFrom buffer run.2.1 (run.2.2 - 1) out (count + 4)
    else
      let out := out ++ [buffer i]
      if datMax < count + 1 then (out, jmMax) else encodeFrom buffer len (i + 1) out (count + 1)
  termination_by len => len
  decreasing_by
    · exact hrun
    · exact Nat.lt_succ_self len

def encodeInto (len : ℕ) (buffer : ℕ → UInt8) : List UInt8 × ℕ := encodeFrom buffer len 0 [] 0

/-- The bytes from a place on. -/
def bytesAt (buffer : ℕ → UInt8) (i len : ℕ) : List UInt8 := (List.range' i len).map buffer

variable {buffer : ℕ → UInt8} {i len : ℕ}

theorem bytesAt_succ : bytesAt buffer i (len + 1) = buffer i :: bytesAt buffer (i + 1) len := by
  rw [bytesAt, List.range'_succ, List.map_cons, bytesAt]

/-- A run that is counted: so many equal bytes, and the pointer behind the byte that ends it. -/
theorem countLoop_run (buffer : ℕ → UInt8) (dupl : UInt8) (len i howMany : ℕ) :
    ∃ m, m ≤ len ∧ countLoop buffer dupl len i howMany = (howMany + m, len - m, i + m + 1) ∧
      bytesAt buffer i len = List.replicate m dupl ++ bytesAt buffer (i + m) (len - m) := by
  induction len generalizing i howMany with
  | zero => exact ⟨0, le_rfl, rfl, rfl⟩
  | succ len ih =>
    by_cases hsame : buffer i = dupl
    · obtain ⟨m, hm, hloop, hbytes⟩ := ih (i + 1) (howMany + 1)
      refine ⟨m + 1, Nat.succ_le_succ hm, ?_, ?_⟩
      · rw [countLoop, if_pos hsame, hloop]
        simp only [Nat.add_sub_add_right, Prod.mk.injEq, true_and]
        omega
      · have hplace : i + (m + 1) = i + 1 + m := by omega
        rw [bytesAt_succ, hbytes, hsame, List.replicate_succ, List.cons_append, Nat.add_sub_add_right, hplace]
    · exact ⟨0, Nat.zero_le _, by rw [countLoop, if_neg hsame]; rfl, rfl⟩

/-- From any place on: not much is written, and what is written for the rest of the data decodes to it. -/
theorem encodeFrom_spec (len : ℕ) (hshort : len < 65536) (i : ℕ) (out : List UInt8) (hout : out.length ≤ datMax) :
    (encodeFrom buffer len i out out.length).1.length ≤ datMax + 4 ∧
      ((encodeFrom buffer len i out out.length).2 = jmMax ∨
        ∃ added, (encodeFrom buffer len i out out.length).1 = out ++ added ∧
          (encodeFrom buffer len i out out.length).2 = (out ++ added).length ∧
          decode added.length added = bytesAt buffer i len) := by
  induction len using Nat.strong_induction_on generalizing i out with
  | _ len ih =>
    cases len with
    | zero =>
      rw [encodeFrom]
      exact ⟨hout.trans (Nat.le_add_right _ _), .inr ⟨[], (List.append_nil out).symm, by rw [List.append_nil],
        by simp [decode, bytesAt]⟩⟩
    | succ len =>
      rw [encodeFrom]
      split
      · obtain ⟨m, hm, hloop, hbytes⟩ := countLoop_run buffer (buffer i) (len + 1) i 0
        have hfirst := countLoop_first buffer len i
        rw [hloop] at hfirst
        dsimp only at hfirst ⊢
        rw [hloop, Nat.zero_add]
        dsimp only
        have hlength : (out ++ sentinel :: UInt8.ofNat m :: UInt8.ofNat (m >>> 8) :: [buffer i]).length =
            out.length + 4 := by simp
        split
        · exact ⟨by rw [hlength]; omega, .inl rfl⟩
        · next hroom =>
          rw [← hlength] at hroom ⊢
          obtain ⟨hbound, hmax | ⟨added, hwritten, hcount, hdecode⟩⟩ := ih (len + 1 - m) hfirst (by omega) (i + m) _
            (not_lt.mp hroom)
          · exact ⟨hbound, .inl hmax⟩
          · refine ⟨hbound, .inr ⟨sentinel :: word m ++ buffer i :: added, ?_, ?_, ?_⟩⟩
            · rw [Nat.add_sub_cancel, hwritten]
              simp [word]
            · rw [Nat.add_sub_cancel, hcount]
              simp [word]
            · rw [decode_run (by omega), hdecode, hbytes]
      · next hplain =>
        have hlength : (out ++ [buffer i]).length = out.length + 1 := by simp
        dsimp only
        split
        · exact ⟨by rw [hlength]; omega, .inl rfl⟩
        · next hroom =>
          rw [← hlength] at hroom ⊢
          obtain ⟨hbound, hmax | ⟨added, hwritten, hcount, hdecode⟩⟩ := ih len (by omega) (by omega) (i + 1) _
            (not_lt.mp hroom)
          · exact ⟨hbound, .inl hmax⟩
          · refine ⟨hbound, .inr ⟨buffer i :: added, ?_, ?_, ?_⟩⟩
            · rw [hwritten]
              simp
            · rw [hcount]
              simp
            · rw [decode_plain (fun h => hplain (.inl h)), hdecode, bytesAt_succ]

/-- `encode` of 1 to 8192 bytes, whatever stands behind them, writes at most `DAT_MAX` and four bytes, and either gives
up or returns a length from which `decode` makes the same bytes again. -/
theorem encode_decode (len : ℕ) (hlow : 1 ≤ len) (hhigh : len ≤ 8192) (buffer : ℕ → UInt8) :
    (encodeInto len buffer).1.length ≤ datMax + 4 ∧
      ((encodeInto len buffer).2 = jmMax ∨
        (encodeInto len buffer).2 = (encodeInto len buffer).1.length ∧
          (decode (encodeInto len buffer).2 (encodeInto len buffer).1).length = len ∧
          decode (encodeInto len buffer).2 (encodeInto len buffer).1 = bytesAt buffer 0 len) := by
  obtain ⟨hbound, hmax | ⟨added, hwritten, hcount, hdecode⟩⟩ :=
    encodeFrom_spec len (by omega) 0 [] (Nat.zero_le _)
  · exact ⟨hbound, .inl hmax⟩
  · rw [List.nil_append] at hwritten hcount
    have hpair : encodeInto len buffer = (added, added.length) := Prod.ext hwritten hcount
    rw [hpair]
    refine ⟨(congrArg List.length hwritten) ▸ hbound, .inr ⟨rfl, ?_, hdecode⟩⟩
    rw [hdecode, bytesAt, List.length_map, List.length_range']

theorem encode_decode_pair : (encodeInto 2 fun _ => 7).1.length ≤ datMax + 4 ∧
      ((encodeInto 2 fun _ => 7).2 = jmMax ∨
        (encodeInto 2 fun _ => 7).2 = (encodeInto 2 fun _ => 7).1.length ∧
          (decode (encodeInto 2 fun _ => 7).2 (encodeInto 2 fun _ => 7).1).length = 2 ∧
          decode (encodeInto 2 fun _ => 7).2 (encodeInto 2 fun _ => 7).1 = bytesAt (fun _ => 7) 0 2) :=
  encode_decode 2 (by decide) (by decide) fun _ => 7

end CProgram.Jmodem.Packing
