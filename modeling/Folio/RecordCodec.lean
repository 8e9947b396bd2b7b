import Folio.Crc32
import Folio.Segment
import Mathlib.Algebra.Group.Nat.Defs
import Mathlib.Data.List.Induction

/-! The record decoder with the arithmetic and the slice accesses of a 64-bit machine, against
the byte strings that `AlignedBuffer::push` appends. -/
namespace Folio.RecordCodec
open ByteCodec Protocol Segment

section Machine

/-- A byte slice: its length is a `usize`. -/
structure Slice where
  bytes : Bytes
  len_lt : bytes.length < 2 ^ 64

def Slice.len (data : Slice) : Nat := data.bytes.length

def checkedAdd (a b : Nat) : Option Nat := if a + b < 2 ^ 64 then some (a + b) else none

/-- `a + b`; `none` is the panic on overflow. -/
def add (a b : Nat) : Option Nat := checkedAdd a b

/-- `a - b`; `none` is the panic on underflow. -/
def sub (a b : Nat) : Option Nat := if b ≤ a then some (a - b) else none

/-- `data[a..b]`; `none` is the panic on a range outside the slice. -/
def index (data : Slice) (a b : Nat) : Option Bytes :=
  if a ≤ b ∧ b ≤ data.len then some (window data.bytes a (b - a)) else none

variable {data : Slice} {a b : Nat}

theorem add_of_lt (h : a + b < 2 ^ 64) : add a b = some (a + b) := if_pos h

theorem sub_of_le (h : b ≤ a) : sub a b = some (a - b) := if_pos h

theorem index_of_le (hab : a ≤ b) (h : b ≤ data.len) :
    index data a b = some (window data.bytes a (b - a)) := if_pos ⟨hab, h⟩

theorem checkedAdd_all_iff (data : Slice) (a b : Nat) :
    (checkedAdd a b).all (fun e => decide (data.len < e)) = true ↔ data.len < a + b := by
  have hlen : data.len < 2 ^ 64 := data.len_lt
  unfold checkedAdd
  split_ifs with h
  · simp
  · simp only [Option.all_none, true_iff]
    omega

end Machine

section Decoder
variable (crc32 : Bytes → UInt32)

/-- `(ledger_id, entry_id, payload, record_len)`. -/
abbrev Decoded := UInt64 × UInt64 × Bytes × Nat

def malformed (field : String) : Except FolioError Decoded :=
  .error (.storage ("torn write: malformed " ++ field))

def recomputed (payloadLen : Nat) (ledgerId entryId : UInt64) (payload : Bytes) : UInt32 :=
  crc32 (leBytes 4 payloadLen ++ beBytes 8 ledgerId.toNat ++ beBytes 8 entryId.toNat ++ payload)

def decodeFields (data : Slice) (pos payloadLen total : Nat) :
    Option (Except FolioError Decoded) := do
  let ledgerBytes ← index data (← add pos 4) (← add pos 12)
  if ledgerBytes.length ≠ 8 then return malformed "ledger id"
  let entryBytes ← index data (← add pos 12) (← add pos 20)
  if entryBytes.length ≠ 8 then return malformed "entry id"
  let payload ← index data (← add pos 20) (← add (← add pos 20) payloadLen)
  let crcBytes ← index data (← add (← add pos 20) payloadLen) (← add pos total)
  if crcBytes.length ≠ 4 then return malformed "checksum"
  let ledgerId := UInt64.ofNat (beNat ledgerBytes)
  let entryId := UInt64.ofNat (beNat entryBytes)
  let stored := leNat crcBytes
  let computed := (recomputed crc32 payloadLen ledgerId entryId payload).toNat
  if stored ≠ computed then
    let (stored, computed) := (hex8 stored, hex8 computed)
    return .error (.storage
      s!"torn write: CRC mismatch at {pos}: stored={stored} computed={computed}")
  return .ok (ledgerId, entryId, payload, total)

/-- `decode_record`, statement by statement; `none` is a panic. -/
def decodeRecordChecked (data : Slice) (pos : Nat) : Option (Except FolioError Decoded) :=
  if (checkedAdd pos 4).all fun e => decide (data.len < e) then
    some (.error (.storage "torn write: truncated length prefix"))
  else do
    let lenBytes ← index data pos (← add pos 4)
    if lenBytes.length ≠ 4 then return malformed "length prefix"
    let payloadLen := leNat lenBytes
    match checkedAdd recordOverhead payloadLen with
    | none => return .error (.storage "torn write: record length overflow")
    | some total =>
      if (checkedAdd pos total).all fun e => decide (data.len < e) then
        let avail ← sub data.len pos
        return .error (.storage
          s!"torn write: record at {pos} needs {total} bytes, {avail} available")
      else decodeFields crc32 data pos payloadLen total

def decodedOf (r : Rec × Nat) : Decoded :=
  (UInt64.ofNat r.1.ledgerId, UInt64.ofNat r.1.entryId, r.1.payload, r.2)

variable {crc32} {data : Slice} {pos : Nat}

theorem toNat_ofNat_beNat (bs : Bytes) (h : bs.length = 8) :
    (UInt64.ofNat (beNat bs)).toNat = beNat bs := by
  have hlt := beNat_lt bs
  rw [h] at hlt
  exact UInt64.toNat_ofNat_of_lt' hlt

theorem decodeFields_eq (hend : pos + (24 + leNat (window data.bytes pos 4)) ≤ data.len) :
    decodeFields crc32 data pos (leNat (window data.bytes pos 4))
        (recordOverhead + leNat (window data.bytes pos 4)) =
      some ((decodeRecord crc32 data.bytes pos).map decodedOf) := by
  have hlen : data.len < 2 ^ 64 := data.len_lt
  have hov : recordOverhead = 24 := rfl
  have hbytes : data.bytes.length = data.len := rfl
  have hw4 := window_length_of_le data.bytes (pos + 4) 8 (by omega)
  have hw12 := window_length_of_le data.bytes (pos + 12) 8 (by omega)
  have hl := toNat_ofNat_beNat _ hw4
  have he := toNat_ofNat_beNat _ hw12
  unfold decodeRecord
  simp only [hov, if_neg (show ¬ data.bytes.length < pos + 4 by omega),
    if_neg (show ¬ data.bytes.length < pos + (24 + leNat (window data.bytes pos 4)) by omega)]
  generalize hn : leNat (window data.bytes pos 4) = n at *
  have hwc := window_length_of_le data.bytes (pos + 20 + n) 4 (by omega)
  have hcomputed : (recomputed crc32 n (UInt64.ofNat (beNat (window data.bytes (pos + 4) 8)))
      (UInt64.ofNat (beNat (window data.bytes (pos + 12) 8)))
      (window data.bytes (pos + 20) n)).toNat = computedCrc crc32 data.bytes pos := by
    simp only [recomputed, computedCrc, recAt, hn, hl, he]
  have hstored : leNat (window data.bytes (pos + 20 + n) 4) = storedCrc data.bytes pos := by
    rw [storedCrc, hn]
  have hcrc : pos + (24 + n) - (pos + 20 + n) = 4 := by omega
  unfold decodeFields
  rw [add_of_lt (show pos + 4 < 2 ^ 64 by omega), add_of_lt (show pos + 12 < 2 ^ 64 by omega),
    add_of_lt (show pos + 20 < 2 ^ 64 by omega)]
  simp only [Option.bind_eq_bind, Option.bind_some, Option.pure_def]
  rw [index_of_le (by omega) (by omega), index_of_le (by omega) (by omega),
    add_of_lt (show pos + 20 + n < 2 ^ 64 by omega),
    add_of_lt (show pos + (24 + n) < 2 ^ 64 by omega)]
  simp only [Option.bind_some]
  rw [index_of_le (by omega) (by omega), index_of_le (by omega) (by omega)]
  simp only [Option.bind_some, Nat.add_sub_add_left, Nat.add_sub_cancel_left, hcrc,
    Nat.reduceSub, hw4, hw12, hwc, ne_eq, not_true_eq_false, if_false, hcomputed, hstored]
  split_ifs with hsum
  · simp only [Except.map, decodedOf, recAt, hn]
  · rfl

theorem decodeRecordChecked_eq (data : Slice) (pos : Nat) :
    decodeRecordChecked crc32 data pos =
      some ((decodeRecord crc32 data.bytes pos).map decodedOf) := by
  have hlen : data.len < 2 ^ 64 := data.len_lt
  have hov : recordOverhead = 24 := rfl
  unfold decodeRecordChecked
  by_cases hprefix : data.len < pos + 4
  · rw [if_pos ((checkedAdd_all_iff data pos 4).mpr hprefix), decodeRecord]
    simp only [if_pos (show data.bytes.length < pos + 4 from hprefix)]
    rfl
  · rw [if_neg (by rwa [checkedAdd_all_iff]), add_of_lt (by omega)]
    have hw := window_length_of_le data.bytes pos 4 (by rw [← Slice.len]; omega)
    have hn : leNat (window data.bytes pos 4) < 2 ^ 32 := by
      have := leNat_lt (window data.bytes pos 4)
      rwa [hw] at this
    simp only [Option.bind_eq_bind, Option.bind_some]
    rw [index_of_le (by omega) (by omega)]
    simp only [Option.bind_some, Nat.add_sub_cancel_left, hw, ne_eq, not_true_eq_false, if_false]
    rw [show checkedAdd recordOverhead (leNat (window data.bytes pos 4)) =
      some (recordOverhead + leNat (window data.bytes pos 4)) from if_pos (by omega)]
    by_cases hrec : data.len < pos + (recordOverhead + leNat (window data.bytes pos 4))
    · simp only [if_pos ((checkedAdd_all_iff data pos _).mpr hrec)]
      rw [sub_of_le (by omega), decodeRecord]
      simp only [if_neg (show ¬ data.bytes.length < pos + 4 from hprefix),
        if_pos (show data.bytes.length < pos + (recordOverhead +
          leNat (window data.bytes pos 4)) from hrec)]
      rfl
    · have hfits : ¬ (checkedAdd pos (recordOverhead + leNat (window data.bytes pos 4))).all
          (fun e => decide (data.len < e)) = true := by rwa [checkedAdd_all_iff]
      simp only [if_neg hfits]
      exact decodeFields_eq (by omega)

end Decoder

section Pushes
variable (crc32 : Bytes → UInt32)

structure Push where
  ledgerId : UInt64
  entryId : UInt64
  payload : Bytes
  deriving DecidableEq

def Push.body (a : Push) : Bytes :=
  leBytes 4 a.payload.length ++ beBytes 8 a.ledgerId.toNat ++ beBytes 8 a.entryId.toNat ++ a.payload

def Push.encode (a : Push) : Bytes := a.body ++ leBytes 4 (crc32 a.body).toNat

def Push.decoded (a : Push) (len : Nat) : Decoded := (a.ledgerId, a.entryId, a.payload, len)

/-- One call of `push`: the offset within the buffer, and the record length as a `u32`. -/
def pushOne (acc : Bytes × List (Push × Nat × Nat)) (a : Push) : Bytes × List (Push × Nat × Nat) :=
  (acc.1 ++ a.encode crc32,
    acc.2 ++ [(a, acc.1.length, (recordOverhead + a.payload.length) % 2 ^ 32)])

def pushAll (pushes : List Push) : Bytes × List (Push × Nat × Nat) :=
  pushes.foldl (pushOne crc32) ([], [])

theorem Push.encode_length (a : Push) : (a.encode crc32).length = 24 + a.payload.length := by
  simp [Push.encode, Push.body]
  omega

def Push.toRec (a : Push) (h : a.payload.length < 2 ^ 32) : Rec where
  ledgerId := a.ledgerId.toNat
  entryId := a.entryId.toNat
  payload := a.payload
  ledger_lt := a.ledgerId.toNat_lt
  entry_lt := a.entryId.toNat_lt
  payload_lt := h

theorem decodedOf_inj {r : Rec} {a : Push} {n m : Nat}
    (h : decodedOf (r, n) = a.decoded m) : r.ledgerId = a.ledgerId.toNat ∧
      r.entryId = a.entryId.toNat ∧ r.payload = a.payload ∧ n = m := by
  simp only [decodedOf, Push.decoded, Prod.mk.injEq] at h
  obtain ⟨hl, he, hp, hn⟩ := h
  refine ⟨?_, ?_, hp, hn⟩
  · rw [← hl, UInt64.toNat_ofNat_of_lt' r.ledger_lt]
  · rw [← he, UInt64.toNat_ofNat_of_lt' r.entry_lt]

theorem decodeRecord_push_iff (data : Bytes) (pos : Nat) (a : Push) (n : Nat) :
    (decodeRecord crc32 data pos).map decodedOf = .ok (a.decoded n) ↔
      n = 24 + a.payload.length ∧ pos + n ≤ data.length ∧ a.payload.length < 2 ^ 32 ∧
        window data pos n = a.encode crc32 := by
  constructor
  · intro h
    cases hd : decodeRecord crc32 data pos with
    | error e =>
      rw [hd] at h
      cases h
    | ok p =>
      obtain ⟨r, m⟩ := p
      rw [hd] at h
      obtain ⟨hl, he, hp, rfl⟩ := decodedOf_inj (Except.ok.inj h)
      obtain ⟨hm, hw⟩ := (decodeRecord_ok_iff crc32 data pos r m).mp hd
      have hend : pos + m ≤ data.length := by
        have := congrArg List.length hw
        rw [window_length, r.encode_length] at this
        have hpos : 24 ≤ r.len := Nat.le_add_right 24 _
        omega
      have hlen : m = 24 + a.payload.length := by rw [hm, Rec.len, hp]; rfl
      refine ⟨hlen, hend, hp ▸ r.payload_lt, ?_⟩
      rw [hm, hw, Rec.encode, Rec.body, hl, he, hp]
      rfl
  · rintro ⟨rfl, hend, hlt, hw⟩
    have hok : decodeRecord crc32 data pos = .ok (a.toRec hlt, (a.toRec hlt).len) :=
      decodeRecord_of_encode crc32 (a.toRec hlt) data pos hw
    rw [hok]
    simp [Except.map, decodedOf, Push.decoded, Push.toRec, Rec.len, recordOverhead, recordHeader,
      recordFooter]

theorem decodeRecordChecked_ok_iff (data : Slice) (pos : Nat) (a : Push) (n : Nat) :
    decodeRecordChecked crc32 data pos = some (.ok (a.decoded n)) ↔
      n = 24 + a.payload.length ∧ pos + n ≤ data.len ∧ a.payload.length < 2 ^ 32 ∧
        window data.bytes pos n = a.encode crc32 := by
  rw [decodeRecordChecked_eq, Option.some.injEq]
  exact decodeRecord_push_iff crc32 data.bytes pos a n

theorem pushAll_window (pushes : List Push) (tail : Bytes) :
    ∀ p ∈ (pushAll crc32 pushes).2,
      p.2.2 = (24 + p.1.payload.length) % 2 ^ 32 ∧
      window ((pushAll crc32 pushes).1 ++ tail) p.2.1 (24 + p.1.payload.length) =
        p.1.encode crc32 := by
  induction pushes using List.reverseRecOn generalizing tail with
  | nil => simp [pushAll]
  | append_singleton pushes a ih =>
    have hstep : pushAll crc32 (pushes ++ [a]) = pushOne crc32 (pushAll crc32 pushes) a := by
      simp [pushAll]
    intro p hp
    rw [hstep, pushOne] at hp ⊢
    rcases List.mem_append.mp hp with hp | hp
    · obtain ⟨hlen, hw⟩ := ih (a.encode crc32 ++ tail) p hp
      exact ⟨hlen, by rw [List.append_assoc, hw]⟩
    · obtain rfl := List.mem_singleton.mp hp
      refine ⟨rfl, ?_⟩
      dsimp only
      rw [List.append_assoc, ← Nat.add_zero (List.length _), window_append_right,
        ← a.encode_length crc32, window_prefix]

theorem map_fst_pushAll (pushes : List Push) : (pushAll crc32 pushes).2.map Prod.fst = pushes := by
  induction pushes using List.reverseRecOn with
  | nil => rfl
  | append_singleton pushes a ih =>
    simp only [pushAll, List.foldl_append, List.foldl_cons, List.foldl_nil] at ih ⊢
    simp [pushOne, ih]

/-- At every offset that a push returned, `data` decodes to that push with the length it
returned. -/
def ReadsBack (pushes : List Push) (data : Slice) : Prop :=
  ∀ p ∈ (pushAll crc32 pushes).2,
    decodeRecordChecked crc32 data p.2.1 = some (.ok (p.1.decoded p.2.2))

theorem readsBack_iff (pushes : List Push) (data : Slice) (tail : Bytes)
    (hdata : data.bytes = (pushAll crc32 pushes).1 ++ tail) :
    ReadsBack crc32 pushes data ↔ ∀ a ∈ pushes, a.payload.length < 2 ^ 32 - 24 := by
  have hone : ∀ p ∈ (pushAll crc32 pushes).2,
      (decodeRecordChecked crc32 data p.2.1 = some (.ok (p.1.decoded p.2.2)) ↔
        p.1.payload.length < 2 ^ 32 - 24) := by
    intro p hp
    obtain ⟨hlen, hw⟩ := pushAll_window crc32 pushes tail p hp
    rw [decodeRecordChecked_ok_iff, hlen, hdata]
    constructor
    · rintro ⟨hmod, -, -, -⟩
      have := Nat.mod_lt (24 + p.1.payload.length) (show 0 < 2 ^ 32 by decide)
      omega
    · intro hfits
      have hmod : (24 + p.1.payload.length) % 2 ^ 32 = 24 + p.1.payload.length :=
        Nat.mod_eq_of_lt (by omega)
      have hend := congrArg List.length hw
      rw [window_length, p.1.encode_length, ← hdata] at hend
      rw [hmod]
      exact ⟨rfl, by unfold Slice.len; omega, by omega, hw⟩
  constructor
  · intro h a ha
    rw [← map_fst_pushAll crc32 pushes] at ha
    obtain ⟨p, hp, rfl⟩ := List.mem_map.mp ha
    exact (hone p hp).mp (h p hp)
  · intro h p hp
    refine (hone p hp).mpr (h p.1 ?_)
    rw [← map_fst_pushAll crc32 pushes]
    exact List.mem_map_of_mem hp

structure Buffers (pushes : List Push) where
  raw : Slice
  padded : Slice
  raw_bytes : raw.bytes = (pushAll crc32 pushes).1
  padded_bytes : padded.bytes = paddedAligned (pushAll crc32 pushes).1

/-- The decoder never panics and accepts exactly what a push of at most 32 bits of length
appends; a whole buffer reads back exactly if every record length fits a `u32`. -/
theorem decoder_accepts_image_iff (data : Slice) (pos : Nat) (pushes : List Push)
    (bufs : Buffers crc32 pushes) :
    ((decodeRecordChecked crc32 data pos).isSome ∧
      ∀ (a : Push) (n : Nat), decodeRecordChecked crc32 data pos = some (.ok (a.decoded n)) ↔
        n = 24 + a.payload.length ∧ pos + n ≤ data.len ∧ a.payload.length < 2 ^ 32 ∧
          window data.bytes pos n = a.encode crc32) ∧
    (ReadsBack crc32 pushes bufs.raw ∧ ReadsBack crc32 pushes bufs.padded ↔
      ∀ a ∈ pushes, a.payload.length < 2 ^ 32 - 24) := by
  refine ⟨⟨?_, decodeRecordChecked_ok_iff crc32 data pos⟩, ?_⟩
  · rw [decodeRecordChecked_eq]
    rfl
  · rw [readsBack_iff crc32 pushes bufs.raw [] (by rw [bufs.raw_bytes, List.append_nil]),
      readsBack_iff crc32 pushes bufs.padded _ bufs.padded_bytes, and_self]

theorem pushAll_length (pushes : List Push) :
    (pushAll crc32 pushes).1.length = (pushes.map fun a => 24 + a.payload.length).sum := by
  induction pushes using List.reverseRecOn with
  | nil => rfl
  | append_singleton pushes a ih =>
    simp only [pushAll, List.foldl_append, List.foldl_cons, List.foldl_nil] at ih ⊢
    simp [pushOne, ih, Push.encode_length]

theorem paddedAligned_length (buf : Bytes) : (paddedAligned buf).length = alignUp buf.length := by
  have := le_alignUp buf.length
  simp only [paddedAligned, List.length_append, List.length_replicate]
  omega

/-- Pushes whose records and padding fit a `usize` have their two slices. -/
def Buffers.of (pushes : List Push)
    (h : alignUp (pushes.map fun a => 24 + a.payload.length).sum < 2 ^ 64) :
    Buffers crc32 pushes where
  raw := ⟨(pushAll crc32 pushes).1, by
    rw [pushAll_length]
    exact (le_alignUp _).trans_lt h⟩
  padded := ⟨paddedAligned (pushAll crc32 pushes).1, by
    rw [paddedAligned_length, pushAll_length]
    exact h⟩
  raw_bytes := rfl
  padded_bytes := rfl

end Pushes

section Runs

def smallPushes : List Push := [⟨1, 0, [7, 8]⟩, ⟨2, 5, []⟩]

theorem small_pushes_read_back :
    ∃ bufs : Buffers Crc32.crc32 smallPushes,
      (ReadsBack Crc32.crc32 smallPushes bufs.raw ∧
        ReadsBack Crc32.crc32 smallPushes bufs.padded) ∧
      (decodeRecordChecked Crc32.crc32 bufs.raw 26).isSome ∧
      (pushAll Crc32.crc32 smallPushes).2.map (fun p => p.2) = [(0, 26), (26, 24)] := by
  have h := decoder_accepts_image_iff Crc32.crc32
    (Buffers.of Crc32.crc32 smallPushes (by decide)).raw 26 smallPushes
    (Buffers.of Crc32.crc32 smallPushes (by decide))
  exact ⟨_, h.2.mpr (by decide), h.1.1, by decide +kernel⟩

section LongPush
variable {a : Push} (h : a.payload.length = 2 ^ 32 - 24)
include h

theorem longPush_sum : ([a].map fun a => 24 + a.payload.length).sum = 2 ^ 32 := by
  simp [h]

theorem longPush_fits : alignUp ([a].map fun a => 24 + a.payload.length).sum < 2 ^ 64 := by
  rw [longPush_sum h]
  decide

theorem longPush_returned (crc32 : Bytes → UInt32) : (pushAll crc32 [a]).2 = [(a, 0, 0)] := by
  simp [pushAll, pushOne, h, recordOverhead, recordHeader, recordFooter]

theorem longPush_decodes (crc32 : Bytes → UInt32) :
    decodeRecordChecked crc32 (Buffers.of crc32 [a] (longPush_fits h)).raw 0 =
      some (.ok (a.decoded (2 ^ 32))) := by
  have hmem : (a, 0, 0) ∈ (pushAll crc32 [a]).2 := by simp [longPush_returned h]
  obtain ⟨-, hw⟩ := pushAll_window crc32 [a] [] _ hmem
  have hlen : 24 + a.payload.length = 2 ^ 32 := by omega
  rw [List.append_nil, hlen] at hw
  refine (decodeRecordChecked_ok_iff _ _ _ _ _).mpr ⟨hlen.symm, Nat.le_of_eq ?_, by omega, hw⟩
  rw [Nat.zero_add, Slice.len, Buffers.of, pushAll_length, longPush_sum h]

end LongPush

/-- `push` reports a length of 0 for a record that the decoder finds to be `2^32` bytes long. -/
theorem long_push_misreported :
    ∃ (a : Push) (bufs : Buffers Crc32.crc32 [a]), a.payload.length = 2 ^ 32 - 24 ∧
      (pushAll Crc32.crc32 [a]).2 = [(a, 0, 0)] ∧
      decodeRecordChecked Crc32.crc32 bufs.raw 0 = some (.ok (a.decoded (2 ^ 32))) ∧
      ¬ ReadsBack Crc32.crc32 [a] bufs.raw := by
  obtain ⟨a, ha⟩ : ∃ a : Push, a.payload.length = 2 ^ 32 - 24 :=
    ⟨⟨1, 0, List.replicate (2 ^ 32 - 24) 0⟩, List.length_replicate⟩
  refine ⟨a, Buffers.of Crc32.crc32 [a] (longPush_fits ha), ha, longPush_returned ha _,
    longPush_decodes ha _, fun hback => ?_⟩
  rw [readsBack_iff _ _ _ [] (List.append_nil _).symm] at hback
  have := hback a List.mem_cons_self
  omega

end Runs
end Folio.RecordCodec
