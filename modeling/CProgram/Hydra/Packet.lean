import CProgram.Hydra.Options

/-! Hydra packets on the line: checksums, the four encodings of `txpkt`, and `rxpkt`, which takes the
line apart byte by byte. The receive buffer is a memory of bytes; a pointer into it is an offset, or
nothing for `NULL`. -/
namespace CProgram.Hydra

def hDle : UInt8 := 0x18
def xon : UInt8 := 0x11
def xoff : UInt8 := 0x13
def hchrPktend : UInt8 := 97
def hchrBinpkt : UInt8 := 98
def hchrHexpkt : UInt8 := 99
def hchrAscpkt : UInt8 := 100
def hchrUuepkt : UInt8 := 101
def hpktData : UInt8 := 70
/-- `H_MAXBLKLEN`. -/
def hMaxblklen : ℕ := 2048
/-- `H_MAXPKTLEN`: the longest packet as it may be encoded. -/
def hMaxpktlen : ℕ := (hMaxblklen + 8 + 5) * 3
/-- `H_BUFLEN`. -/
def hBuflen : ℕ := hMaxpktlen + 16
def hCancel : ℤ := -1

def has (opts o : Dword) : Bool := opts &&& o ≠ 0

/-! ### Checksums -/

/-- An entry of the table that `hydra_init` fills: eight shifts. -/
def crcEntry {w : ℕ} (poly : BitVec w) (i : UInt8) : BitVec w :=
  (fun crc : BitVec w => if crc.getLsbD 0 then (crc >>> 1) ^^^ poly else crc >>> 1)^[8] (i.toBitVec.setWidth w)

/-- `h_updcrc16` and `h_updcrc32`. -/
def updcrc {w : ℕ} (poly crc : BitVec w) (c : UInt8) : BitVec w :=
  crcEntry poly (UInt8.ofBitVec (crc.setWidth 8) ^^^ c) ^^^ (crc >>> 8)

def crc16poly : BitVec 16 := 0x8408
def crc32poly : BitVec 32 := 0xedb88320

def crc16block (buf : List UInt8) : BitVec 16 := buf.foldl (updcrc crc16poly) 0xffff
def crc32block (buf : List UInt8) : BitVec 32 := buf.foldl (updcrc crc32poly) 0xffffffff

def crc16test (crc : BitVec 16) : Bool := crc = 0xf0b8
def crc32test (crc : BitVec 32) : Bool := crc = 0xdebb20e3

/-- The bytes of a number, the lowest first. -/
def lowFirst {w : ℕ} (crc : BitVec w) : ℕ → List UInt8
  | 0 => []
  | n + 1 => UInt8.ofBitVec (crc.setWidth 8) :: lowFirst (crc >>> 8) n

/-! ### `txpkt` -/

/-- The byte that the escapes go by. -/
def control (opts : Dword) (c : UInt8) : UInt8 := if has opts hoptHighctl then c &&& 0x7f else c

/-- `put_binbyte` escapes, behind the byte `txlastc`. -/
def escapes (opts : Dword) (txlastc c : UInt8) : Bool :=
  let n := control opts c
  n = hDle || (has opts hoptXonxoff && (n = xon || n = xoff)) ||
    (has opts hoptTelenet && n = 13 && txlastc = 64) ||
    (has opts hoptCtlchrs && (decide (n < 32) || n = 127))

/-- `put_binbyte` for one byte after the other. -/
def putBin (opts : Dword) : UInt8 → List UInt8 → List UInt8
  | _, [] => []
  | txlastc, c :: rest =>
    (if escapes opts txlastc c then [hDle, c ^^^ 0x40] else [c]) ++ putBin opts (control opts c) rest

def hexdigit (n : UInt8) : UInt8 := if n < 10 then 48 + n else 87 + n

def putHex (c : UInt8) : List UInt8 :=
  if c &&& 0x80 ≠ 0 then [92, hexdigit ((c >>> 4) &&& 0x0f), hexdigit (c &&& 0x0f)]
  else if c < 32 ∨ c = 127 then [hDle, c ^^^ 0x40]
  else if c = 92 then [92, 92]
  else [c]

/-- The groups of seven bits, from a word `c` that holds `n` bits. -/
def ascGroups : ℕ → ℕ → List UInt8 → List UInt8
  | n, c, [] => if 0 < n then [UInt8.ofNat (c &&& 0x7f)] else []
  | n, c, b :: rest =>
    let c := c ||| (b.toNat <<< n)
    if 7 ≤ n + 1 then
      UInt8.ofNat (c &&& 0x7f) :: UInt8.ofNat ((c >>> 7) &&& 0x7f) :: ascGroups 0 0 rest
    else UInt8.ofNat (c &&& 0x7f) :: ascGroups (n + 1) (c >>> 7) rest

/-- `h_uuenc`. -/
def uuenc (c : ℕ) : UInt8 := UInt8.ofNat ((c &&& 0x3f) + 33)

def uuSplit (a b : UInt8) : UInt8 := uuenc (((a.toNat <<< 4) &&& 0x30) ||| ((b.toNat >>> 4) &&& 0x0f))

/-- Three bytes to four characters; behind a single last byte `txpkt` reads one byte more than the
packet has. -/
def putUue (stale : UInt8) : List UInt8 → List UInt8
  | a :: b :: c :: rest =>
    uuenc (a.toNat >>> 2) :: uuSplit a b ::
      uuenc (((b.toNat <<< 2) &&& 0x3c) ||| ((c.toNat >>> 6) &&& 0x03)) :: uuenc (c.toNat &&& 0x3f) ::
        putUue stale rest
  | [a, b] => [uuenc (a.toNat >>> 2), uuSplit a b, uuenc ((b.toNat <<< 2) &&& 0x3c)]
  | [a] => [uuenc (a.toNat >>> 2), uuSplit a stale]
  | [] => []

/-- START, INIT, INITACK, END and IDLE packets go out in hexadecimal. -/
def isHexType (type : UInt8) : Bool :=
  type = 65 || type = 66 || type = 67 || type = 75 || type = 76

def txFormat (opts : Dword) (type : UInt8) : UInt8 :=
  if isHexType type then hchrHexpkt
  else if has opts hoptHighbit then
    if has opts hoptCtlchrs && has opts hoptCanuue then hchrUuepkt
    else if has opts hoptCanasc then hchrAscpkt
    else hchrHexpkt
  else hchrBinpkt

/-- A packet of this format carries four bytes of checksum. -/
def wide (opts : Dword) (format : UInt8) : Bool := format ≠ hchrHexpkt && has opts hoptCrc32

/-- Payload, type and checksum. -/
def framed (opts : Dword) (payload : List UInt8) (type : UInt8) : List UInt8 :=
  let data := payload ++ [type]
  if wide opts (txFormat opts type) then data ++ lowFirst (~~~(crc32block data)) 4
  else data ++ lowFirst (~~~(crc16block data)) 2

def encoded (opts : Dword) (stale format : UInt8) (data : List UInt8) : List UInt8 :=
  if format = hchrHexpkt then data.flatMap putHex
  else if format = hchrBinpkt then putBin opts 0 data
  else if format = hchrAscpkt then putBin opts 0 (ascGroups 0 0 data)
  else putUue stale data

/-- What `txpkt` sends behind the prefix. -/
def txpkt (opts : Dword) (stale : UInt8) (payload : List UInt8) (type : UInt8) : List UInt8 :=
  let format := txFormat opts type
  [hDle, format] ++ (encoded opts stale format (framed opts payload type) ++ ([hDle, hchrPktend] ++
    (if type ≠ hpktData ∧ format ≠ hchrBinpkt then [13, 10] else [])))

/-! ### `rxpkt` -/

structure Rx where
  buf : ℕ → UInt8
  ptr : Option ℕ
  rxdle : ℕ
  rxpktformat : UInt8
  rxpktlen : ℕ

/-- A hexadecimal digit as `rxpkt` takes it, `'0'` up or `'a'` up. -/
def nibble (c : UInt8) : Option ℕ :=
  let i : ℤ := c.toNat - 48
  let i := if i > 9 then i - 39 else i
  if 0 ≤ i ∧ i ≤ 15 then some i.toNat else none

/-- The loop of the hexadecimal format, with what it has written and where it comes to a stop. -/
def hexLoop (buf : ℕ → UInt8) (stop : ℕ) : ℕ → ℕ → List UInt8 → List UInt8 × ℕ
  | 0, p, out => (out, p)
  | fuel + 1, p, out =>
    if p < stop then
      if buf p = 92 then
        if buf (p + 1) ≠ 92 then
          match nibble (buf (p + 1)), nibble (buf (p + 2)) with
          | some i, some n => hexLoop buf stop fuel (p + 3) (out ++ [UInt8.ofNat ((i <<< 4) ||| n)])
          | _, _ => (out, p + 2)
        else hexLoop buf stop fuel (p + 2) (out ++ [buf (p + 1)])
      else hexLoop buf stop fuel (p + 1) (out ++ [buf p])
    else (out, p)

/-- The loop of the seven bit format, from a word `i` that holds `n` bits. -/
def ascLoop : ℕ → ℕ → List UInt8 → List UInt8
  | _, _, [] => []
  | n, i, p :: rest =>
    let i := i ||| ((p.toNat &&& 0x7f) <<< n)
    if 8 ≤ n + 7 then UInt8.ofNat (i &&& 0xff) :: ascLoop (n + 7 - 8) (i >>> 8) rest
    else ascLoop (n + 7) i rest

/-- `h_uudec`. -/
def uudec (c : UInt8) : ℕ := ((c - 33) &&& 0x3f).toNat

def uuBad (c : UInt8) : Bool := decide (c ≤ 32) || decide (97 ≤ c)

def uuFirst (a b : UInt8) : UInt8 := UInt8.ofNat ((uudec a <<< 2) ||| (uudec b >>> 4))
def uuSecond (b c : UInt8) : UInt8 := UInt8.ofNat ((uudec b <<< 4) ||| (uudec c >>> 2))
def uuThird (c d : UInt8) : UInt8 := UInt8.ofNat ((uudec c <<< 6) ||| uudec d)

/-- The loop of the uuencoded format and the group behind it: what it writes unless it gives up, and
how far its pointer goes. -/
def uueLoop : List UInt8 → Option (List UInt8) × ℕ
  | a :: b :: c :: d :: rest =>
    if uuBad a || uuBad b || uuBad c then (none, 0)
    else
      let later := uueLoop rest
      (later.1.map fun out => uuFirst a b :: uuSecond b c :: uuThird c d :: out, later.2 + 4)
  | [a, b, c] => (if uuBad a then none else some [uuFirst a b, uuSecond b c], 0)
  | [a, b] => (if uuBad a then none else some [uuFirst a b], 0)
  | [_] => (some [], 0)
  | [] => (some [], 0)

/-- What the loop of the uuencoded format has written by the time it gives up. -/
def uueWritten : List UInt8 → List UInt8
  | a :: b :: c :: d :: rest =>
    if uuBad a || uuBad b || uuBad c then []
    else uuFirst a b :: uuSecond b c :: uuThird c d :: uueWritten rest
  | _ => []

/-- The bytes from `rxbuf` up to the pointer. Without a pointer the difference to `NULL` is taken
in sixteen bits, with `rxbuf` at the address `base`. -/
def span (base : ℕ) (r : Rx) : ℕ :=
  match r.ptr with
  | some k => k
  | none =>
    if r.rxpktformat = hchrBinpkt then 2 ^ 16 - base
    else if r.rxpktformat = hchrUuepkt ∧ 2 ^ 15 < base then 2 ^ 16 - base
    else 0

def content (base : ℕ) (r : Rx) : List UInt8 := (List.range (span base r)).map r.buf

/-- What `HCHR_PKTEND` decodes, unless it gives up, and the pointer it leaves. -/
def decode (base : ℕ) (r : Rx) : Option (List UInt8) × Option ℕ :=
  if r.rxpktformat = hchrBinpkt then (some (content base r), r.ptr)
  else if r.rxpktformat = hchrHexpkt then
    let read := hexLoop r.buf (span base r) (span base r) 0 []
    (if r.ptr.isSome ∧ read.2 ≤ span base r then some read.1 else none, some read.2)
  else if r.rxpktformat = hchrAscpkt then (some (ascLoop 0 0 (content base r)), some (span base r))
  else if r.rxpktformat = hchrUuepkt then
    let read := uueLoop (content base r)
    (read.1, some read.2)
  else (none, r.ptr)

/-- What is written over the packet before `HCHR_PKTEND` gives up. -/
def spoilt (base : ℕ) (r : Rx) : List UInt8 :=
  if r.rxpktformat = hchrHexpkt then (hexLoop r.buf (span base r) (span base r) 0 []).1
  else if r.rxpktformat = hchrUuepkt then uueWritten (content base r)
  else []

/-- A memory with bytes written from its start on. -/
def overwrite (buf : ℕ → UInt8) (out : List UInt8) : ℕ → UInt8 := fun i => (out[i]?).getD (buf i)

/-- `HCHR_PKTEND`: the type of a good packet. -/
def pktEnd (base : ℕ) (opts : Dword) (r : Rx) : Rx × Option ℤ :=
  match decode base r with
  | (none, p) => ({ r with buf := overwrite r.buf (spoilt base r), ptr := p }, none)
  | (some out, p) =>
    let r := { r with buf := overwrite r.buf out, ptr := p }
    if wide opts r.rxpktformat then
      if out.length < 5 then (r, none)
      else
        let r := { r with rxpktlen := out.length - 4 - 1 }
        if crc32test (crc32block out) then ({ r with ptr := none }, some (r.buf r.rxpktlen).toNat)
        else (r, none)
    else if out.length < 3 then (r, none)
    else
      let r := { r with rxpktlen := out.length - 2 - 1 }
      if crc16test (crc16block out) then ({ r with ptr := none }, some (r.buf r.rxpktlen).toNat)
      else (r, none)

/-- One more byte at the pointer; a packet that is too long is dropped. -/
def store (c : UInt8) (r : Rx) : Rx :=
  match r.ptr with
  | none => r
  | some k =>
    if k < hMaxpktlen then { r with buf := fun i => if i = k then c else r.buf i, ptr := some (k + 1) }
    else { r with ptr := none }

def narrowed (opts : Dword) (c : UInt8) : UInt8 := if has opts hoptHighbit then c &&& 0x7f else c

/-- A byte that the options say is stripped. -/
def stripped (opts : Dword) (c : UInt8) : Bool :=
  let n := control opts (narrowed opts c)
  n ≠ hDle && ((has opts hoptXonxoff && (n = xon || n = xoff)) ||
    (has opts hoptCtlchrs && (decide (n < 32) || n = 127)))

/-- One byte from the line, and what `rxpkt` returns behind it if it does. -/
def rxChar (base : ℕ) (opts : Dword) (c : UInt8) (r : Rx) : Rx × Option ℤ :=
  if stripped opts c then (r, none)
  else
    let c := narrowed opts c
    if 0 < r.rxdle ∨ c = hDle then
      if c = hDle then
        let r := { r with rxdle := r.rxdle + 1 }
        (r, if 5 ≤ r.rxdle then some hCancel else none)
      else if c = hchrPktend then pktEnd base opts r
      else if c = hchrBinpkt ∨ c = hchrHexpkt ∨ c = hchrAscpkt ∨ c = hchrUuepkt then
        ({ r with rxpktformat := c, ptr := some 0, rxdle := 0 }, none)
      else ({ store (c ^^^ 0x40) r with rxdle := 0 }, none)
    else (store c r, none)

/-- `rxpkt` over the bytes that have come in: what it returns, and the bytes it leaves. -/
def rxChars (base : ℕ) (opts : Dword) : List UInt8 → Rx → Rx × Option ℤ × List UInt8
  | [], r => (r, none, [])
  | c :: rest, r =>
    match rxChar base opts c r with
    | (r, some code) => (r, some code, rest)
    | (r, none) => rxChars base opts rest r

end CProgram.Hydra
