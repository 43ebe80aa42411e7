import CProgram.Lib.Bytes

/-! `qodem_write` in its synchronous form, which tries until all bytes are out, and the buffer that
`qodem_buffered_write` fills for it. -/
namespace CProgram.Qodem

/-- `Q_BUFFER_SIZE`. -/
def bufferSize : ℕ := 4096

inductive Parity where
  | none | odd | even | mark | space
deriving DecidableEq, Repr

/-- What the connection does to the bytes on their way out. -/
structure Port where
  serialOpen : Bool
  parity : Parity
  translate8BitOut : UInt8 → UInt8

/-- A byte as it goes out; mark and space parity are made in software. -/
def Port.byte (port : Port) (b : UInt8) : UInt8 :=
  if port.serialOpen ∧ port.parity = .mark then port.translate8BitOut b ||| 0x80
  else if port.serialOpen ∧ port.parity = .space then port.translate8BitOut b &&& 0x7F
  else port.translate8BitOut b

/-- What the underlying write comes to. -/
inductive Result where
  | wrote (n : ℕ)
  /-- `EAGAIN` or `EWOULDBLOCK`. -/
  | again
  | failed
deriving DecidableEq, Repr

/-- A call of the underlying write: where it starts in the buffer, and how many bytes are taken. -/
structure Call where
  start : ℕ
  taken : ℕ
deriving DecidableEq, Repr

def Call.positions (c : Call) : List ℕ := List.range' c.start c.taken

/-- The loop at `do_write`; when the answers are used up, everything asked for is accepted. Each round asks
for all `dataN` bytes. -/
def doWrite (dataN : ℕ) : List Result → ℕ → ℕ → List Call
  | [], start, _ => [⟨start, dataN⟩]
  | .again :: answers, start, n => ⟨start, 0⟩ :: doWrite dataN answers start n
  | .failed :: _, start, _ => [⟨start, 0⟩]
  | .wrote rc :: answers, start, n =>
    ⟨start, rc⟩ ::
      (if rc = 0 then doWrite dataN answers start n
      else if n ≤ rc then []
      else doWrite dataN answers (start + (n - rc)) (n - rc))

/-- `qodem_write` with `sync`; there is no result when the copy of the data does not fit. -/
def qodemWrite (dataN : ℕ) (answers : List Result) : Option (List Call) :=
  if dataN = 0 then some []
  else if bufferSize < dataN then none
  else some (doWrite dataN answers 0 dataN)

/-- `write_buffer_data`; behind the data is what the stack held before. -/
def writeBufferData (port : Port) (stale : ℕ → UInt8) (data : List UInt8) (i : ℕ) : UInt8 :=
  match data[i]? with
  | some b => port.byte b
  | none => stale i

/-- The connection gets the bytes of the data, each once and in order, and no call reaches out of
the buffer. -/
structure Delivered (port : Port) (stale : ℕ → UInt8) (data : List UInt8) (calls : List Call) : Prop where
  bytes : (calls.flatMap Call.positions).map (writeBufferData port stale data) = data.map port.byte
  once : calls.flatMap Call.positions = List.range data.length
  inside : ∀ c ∈ calls, c.start + data.length ≤ bufferSize

def Delivers (port : Port) (stale : ℕ → UInt8) (data : List UInt8) (written : Option (List Call)) : Prop :=
  ∃ calls, written = some calls ∧ Delivered port stale data calls

/-- Of the `n` bytes that are left, each write takes all or exactly half, and there is room behind them
for as many as it asks for. -/
def Halving (dataN : ℕ) : List Result → ℕ → Prop
  | [], n => n = dataN
  | .again :: answers, n => Halving dataN answers n
  | .failed :: _, _ => False
  | .wrote rc :: answers, n =>
    if rc = 0 then Halving dataN answers n
    else rc = n ∨ 2 * rc = n ∧ 2 * dataN ≤ bufferSize + rc ∧ Halving dataN answers rc

/-! ### The retry loop -/

variable {port : Port} {stale : ℕ → UInt8} {data : List UInt8} {answers : List Result} {dataN start n : ℕ}

/-- What goes out begins where the loop stands. -/
theorem head_doWrite (answers : List Result) (start n : ℕ) (hdata : 0 < dataN) :
    (doWrite dataN answers start n).flatMap Call.positions = [] ∨
      ((doWrite dataN answers start n).flatMap Call.positions).head? = some start := by
  induction answers with
  | nil =>
    right
    obtain ⟨k, rfl⟩ : ∃ k, dataN = k + 1 := ⟨dataN - 1, by omega⟩
    simp [doWrite, Call.positions, List.range'_succ]
  | cons answer answers ih =>
    cases answer with
    | again => simpa [doWrite, Call.positions] using ih
    | failed => simp [doWrite, Call.positions]
    | wrote rc =>
      cases rc with
      | zero => simpa [doWrite, Call.positions] using ih
      | succ rc =>
        right
        simp [doWrite, Call.positions, List.range'_succ]

theorem range'_eq_append (start : ℕ) {k : ℕ} (hk : k ≤ n) :
    List.range' start n = List.range' start k ++ List.range' (start + k) (n - k) := by
  rw [List.range'_append_1]
  congr
  omega

/-- The loop sends what is left, each byte once, exactly if it halves. -/
theorem doWrite_iff (hn : 0 < n) (hle : n ≤ dataN) (hstart : start + n = dataN) :
    ((doWrite dataN answers start n).flatMap Call.positions = List.range' start n ∧
      ∀ c ∈ doWrite dataN answers start n, c.start + dataN ≤ bufferSize) ↔
    start + dataN ≤ bufferSize ∧ Halving dataN answers n := by
  induction answers generalizing start n with
  | nil =>
    have hlength : List.range' start dataN = List.range' start n ↔ n = dataN := by
      refine ⟨fun h => ?_, fun h => by rw [h]⟩
      have := congrArg List.length h
      simpa using this.symm
    simp only [doWrite, List.flatMap_cons, List.flatMap_nil, List.append_nil, Call.positions, hlength,
      List.mem_singleton, forall_eq, Halving]
    tauto
  | cons answer answers ih =>
    cases answer with
    | again =>
      simp only [doWrite, List.flatMap_cons, Call.positions, List.range'_zero, List.nil_append,
        List.mem_cons, forall_eq_or_imp, Halving]
      have := ih hn hle hstart
      tauto
    | failed =>
      have hne : [] ≠ List.range' start n := by
        intro h
        have := congrArg List.length h
        simp at this
        omega
      simp [doWrite, Call.positions, Halving, hne]
    | wrote rc =>
      rcases Nat.eq_zero_or_pos rc with rfl | hrc
      · simp only [doWrite, List.flatMap_cons, Call.positions, List.range'_zero, List.nil_append,
          List.mem_cons, forall_eq_or_imp, Halving, if_true]
        have := ih hn hle hstart
        tauto
      · rcases Nat.lt_or_ge rc n with hlt | hge
        · -- a partial write: the next one starts where this has ended only if the halves are equal
          have hrest := @ih (start + (n - rc)) (n - rc) (by omega) (by omega)
          rcases eq_or_ne (2 * rc) n with hhalf | hne
          · rw [show n - rc = rc by omega] at hrest
            have hsplit := range'_eq_append start hlt.le
            rw [show n - rc = rc by omega] at hsplit
            simp only [doWrite, if_neg (by omega : ¬ rc = 0), if_neg (by omega : ¬ n ≤ rc),
              show n - rc = rc by omega, List.flatMap_cons, Call.positions, List.mem_cons,
              forall_eq_or_imp, Halving, hhalf, hsplit, List.append_cancel_left_eq]
            have := hrest (by omega)
            constructor
            · rintro ⟨hpositions, hinside, hall⟩
              have hhalving := this.mp ⟨hpositions, hall⟩
              exact ⟨hinside, Or.inr ⟨trivial, by omega, hhalving.2⟩⟩
            · rintro ⟨hinside, hrc | ⟨-, hroom, hhalving⟩⟩
              · omega
              · have hdone := this.mpr ⟨by omega, hhalving⟩
                exact ⟨hdone.1, hinside, hdone.2⟩
          · simp only [doWrite, if_neg (by omega : ¬ rc = 0), if_neg (by omega : ¬ n ≤ rc),
              List.flatMap_cons, Call.positions, Halving, range'_eq_append start hlt.le,
              List.append_cancel_left_eq, hne, false_and, or_false]
            constructor
            · rintro ⟨hpositions, -⟩
              exfalso
              obtain ⟨k, hk⟩ : ∃ k, n - rc = k + 1 := ⟨n - rc - 1, by omega⟩
              rcases head_doWrite answers (start + (n - rc)) (n - rc) (by omega : 0 < dataN) with
                hnil | hhead
              · rw [hpositions, hk, List.range'_succ] at hnil
                cases hnil
              · rw [hpositions, hk, List.range'_succ, List.head?_cons, Option.some.injEq] at hhead
                omega
            · rintro ⟨-, hrc⟩
              omega
        · have hlength : List.range' start rc = List.range' start n ↔ rc = n := by
            refine ⟨fun h => ?_, fun h => by rw [h]⟩
            simpa using congrArg List.length h
          simp only [doWrite, if_neg (by omega : ¬ rc = 0), if_pos hge, List.flatMap_cons, Call.positions,
            List.flatMap_nil, List.append_nil, hlength, List.mem_singleton, forall_eq, Halving]
          constructor
          · rintro ⟨hrcn, hinside⟩
            exact ⟨hinside, Or.inl hrcn⟩
          · rintro ⟨hinside, hrcn | ⟨hrcn, -, -⟩⟩
            · exact ⟨hrcn, hinside⟩
            · omega

theorem map_writeBufferData :
    (List.range data.length).map (writeBufferData port stale data) = data.map port.byte := by
  apply List.ext_getElem
  · simp
  · intro i hi hi'
    simp [writeBufferData, List.getElem?_eq_getElem (by simpa using hi : i < data.length)]

/-- The write of a block delivers it exactly if the block fits into the copy and the retry loop halves. -/
theorem delivers_iff : Delivers port stale data (qodemWrite data.length answers) ↔
    data = [] ∨ data.length ≤ bufferSize ∧ Halving data.length answers data.length := by
  unfold Delivers qodemWrite
  rcases eq_or_ne data [] with rfl | hne
  · simp only [List.length_nil, if_true, Option.some.injEq, exists_eq_left', true_or, iff_true]
    exact ⟨rfl, rfl, by simp⟩
  · have hpos : 0 < data.length := List.length_pos_of_ne_nil hne
    rw [if_neg (by omega)]
    by_cases hfits : bufferSize < data.length
    · simp only [if_pos hfits, reduceCtorEq, false_and, exists_false, hne, false_or, false_iff]
      omega
    · have hloop := @doWrite_iff answers data.length 0 data.length hpos le_rfl (Nat.zero_add _)
      rw [← List.range_eq_range', Nat.zero_add] at hloop
      simp only [if_neg hfits, Option.some.injEq, exists_eq_left', hne, false_or]
      rw [← hloop]
      constructor
      · intro h
        exact ⟨h.once, h.inside⟩
      · rintro ⟨honce, hinside⟩
        exact ⟨by rw [honce, map_writeBufferData], honce, hinside⟩

/-! ### The buffered front end -/

/-- `buffered_write_buffer`: how many bytes are allocated, if any, and the first `buffered_write_buffer_i`. -/
structure Buffered where
  allocated : Option ℕ
  bytes : List UInt8
deriving DecidableEq, Repr

namespace Buffered

/-- What is stored has room. -/
def Fits (b : Buffered) : Prop :=
  match b.allocated with
  | none => b.bytes = []
  | some n => b.bytes.length ≤ n

/-- The size after `qodem_buffered_write` has seen to the room. -/
def room (b : Buffered) (dataN : ℕ) : ℕ :=
  match b.allocated with
  | none => dataN
  | some n => if n < b.bytes.length + dataN then n + dataN else n

/-- `qodem_buffered_write`; there is no result when the `memcpy` would leave the buffer. -/
def write (b : Buffered) (data : List UInt8) : Option Buffered :=
  if b.bytes.length + data.length ≤ b.room data.length then
    some ⟨some (b.room data.length), b.bytes ++ data⟩
  else none

def writes (b : Buffered) (blocks : List (List UInt8)) : Option Buffered := blocks.foldlM write b

/-- `qodem_buffered_write_flush`: the calls of the underlying write. -/
def flush (b : Buffered) (answers : List Result) : Option (List Call) := qodemWrite b.bytes.length answers

theorem Fits.write {b : Buffered} (h : b.Fits) (data : List UInt8) :
    ∃ b', b.write data = some b' ∧ b'.Fits ∧ b'.bytes = b.bytes ++ data := by
  have hroom : b.bytes.length + data.length ≤ b.room data.length := by
    unfold Fits at h
    unfold room
    cases hallocated : b.allocated with
    | none =>
      rw [hallocated] at h
      simp_all
    | some n =>
      rw [hallocated] at h
      simp only at h ⊢
      split <;> omega
  refine ⟨⟨some (b.room data.length), b.bytes ++ data⟩, if_pos hroom, ?_, rfl⟩
  show (b.bytes ++ data).length ≤ _
  simpa using hroom

/-- The buffer grows with what is written to it. -/
theorem Fits.writes {b : Buffered} (h : b.Fits) (blocks : List (List UInt8)) :
    ∃ b', b.writes blocks = some b' ∧ b'.Fits ∧ b'.bytes = b.bytes ++ blocks.flatten := by
  induction blocks generalizing b with
  | nil => exact ⟨b, rfl, h, by simp⟩
  | cons data blocks ih =>
    obtain ⟨b', hb', hfits, hbytes⟩ := h.write data
    obtain ⟨b'', hb'', hfits', hbytes'⟩ := ih hfits
    refine ⟨b'', ?_, hfits', by simp [hbytes', hbytes]⟩
    rw [Buffered.writes, List.foldlM_cons, hb']
    exact hb''

end Buffered

/-- A block is delivered exactly under these conditions, and so is what was collected since the last flush. -/
theorem writes_delivered_iff (port : Port) (stale : ℕ → UInt8) (answers : List Result) :
    (∀ data : List UInt8, Delivers port stale data (qodemWrite data.length answers) ↔
      data = [] ∨ data.length ≤ bufferSize ∧ Halving data.length answers data.length) ∧
    ∀ (allocated : Option ℕ) (blocks : List (List UInt8)),
      ∃ b, Buffered.writes ⟨allocated, []⟩ blocks = some b ∧
        (Delivers port stale blocks.flatten (b.flush answers) ↔
          blocks.flatten = [] ∨ blocks.flatten.length ≤ bufferSize ∧
            Halving blocks.flatten.length answers blocks.flatten.length) := by
  refine ⟨fun data => delivers_iff, fun allocated blocks => ?_⟩
  have hfits : Buffered.Fits ⟨allocated, []⟩ := by
    cases allocated with
    | none => rfl
    | some n => exact Nat.zero_le n
  obtain ⟨b, hb, -, hbytes⟩ := hfits.writes blocks
  refine ⟨b, hb, ?_⟩
  rw [List.nil_append] at hbytes
  rw [Buffered.flush, hbytes]
  exact delivers_iff

/-- One of three bytes is taken at first: the next write starts at the third. -/
theorem not_delivers_partial : ¬ Delivers ⟨false, .none, id⟩ (fun _ => 0) [0x61, 0x62, 0x63]
    (qodemWrite 3 [.wrote 1, .wrote 2]) := by
  rintro ⟨calls, hcalls, h⟩
  have hbytes := h.bytes
  rw [← Option.some.inj hcalls] at hbytes
  revert hbytes
  decide

end CProgram.Qodem
