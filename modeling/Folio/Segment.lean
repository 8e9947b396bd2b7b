import Folio.ByteCodec
import Folio.Protocol

/-! Record framing of WAL and entry segments: `[u32 LE len][u64 BE ledger][u64 BE entry]`,
the payload, and a CRC32 over all of it. The checksum is a parameter. -/
namespace Folio.Segment
open ByteCodec Protocol

def recordHeader : Nat := 20
def recordFooter : Nat := 4
def recordOverhead : Nat := recordHeader + recordFooter
def align : Nat := 4096

/-- `(n + ALIGN - 1) & !(ALIGN - 1)`. -/
def alignUp (n : Nat) : Nat := (n + align - 1) / align * align

theorem alignUp_mod (n : Nat) : alignUp n % align = 0 := by
  unfold alignUp align; omega

theorem le_alignUp (n : Nat) : n ≤ alignUp n := by
  unfold alignUp align; omega

theorem alignUp_eq_self (n : Nat) (h : n % align = 0) : alignUp n = n := by
  unfold alignUp align at *; omega

theorem alignUp_add (base n : Nat) (h : base % align = 0) :
    alignUp (base + n) = base + alignUp n := by
  unfold alignUp align at *; omega

/-- A record with the ranges its fixed-width fields give it. -/
structure Rec where
  ledgerId : Nat
  entryId : Nat
  payload : Bytes
  ledger_lt : ledgerId < 256 ^ 8
  entry_lt : entryId < 256 ^ 8
  payload_lt : payload.length < 256 ^ 4
  deriving DecidableEq

def Rec.key (r : Rec) : Nat × Nat := (r.ledgerId, r.entryId)

theorem one_lt_word : 1 < 256 ^ 8 := by decide

theorem lt_word_of_le_two {n : Nat} (h : n ≤ 2) : n < 256 ^ 8 := Nat.lt_of_le_of_lt h (by decide)

theorem one_byte_short : ([7] : Bytes).length < 256 ^ 4 := by decide

def shortRec (entryId : Nat) (h : entryId ≤ 2) : Rec :=
  ⟨1, entryId, [7], one_lt_word, lt_word_of_le_two h, one_byte_short⟩

def firstRec : Rec := shortRec 0 (Nat.zero_le 2)
def secondRec : Rec := shortRec 1 (Nat.le_succ 1)
def thirdRec : Rec := shortRec 2 (Nat.le_refl 2)

variable (crc32 : Bytes → UInt32)

def Rec.body (r : Rec) : Bytes :=
  leBytes 4 r.payload.length ++ beBytes 8 r.ledgerId ++ beBytes 8 r.entryId ++ r.payload

/-- The bytes `AlignedBuffer::push` appends. -/
def Rec.encode (r : Rec) : Bytes := r.body ++ leBytes 4 (crc32 r.body).toNat

def Rec.len (r : Rec) : Nat := recordOverhead + r.payload.length

theorem Rec.encode_length (r : Rec) : (r.encode crc32).length = r.len := by
  simp [Rec.encode, Rec.body, Rec.len, recordOverhead, recordHeader, recordFooter]
  omega

/-- Append a record; the result carries `(offset_within_buffer, total_record_bytes)`. -/
def push (buf : Bytes) (r : Rec) : Bytes × (Nat × Nat) :=
  (buf ++ r.encode crc32, (buf.length, r.len % 256 ^ 4))

def paddedAligned (buf : Bytes) : Bytes :=
  buf ++ List.replicate (alignUp buf.length - buf.length) 0

def hex8 (n : Nat) : String :=
  let ds := Nat.toDigits 16 n
  "0x" ++ String.ofList (List.replicate (8 - ds.length) '0' ++ ds)

/-- The fields as the decoder slices them out of `data` at `pos`. -/
def recAt (data : Bytes) (pos : Nat) : Rec where
  ledgerId := beNat (window data (pos + 4) 8)
  entryId := beNat (window data (pos + 12) 8)
  payload := window data (pos + 20) (leNat (window data pos 4))
  ledger_lt := (beNat_lt _).trans_le
    (Nat.pow_le_pow_right (by decide) (by rw [window_length]; omega))
  entry_lt := (beNat_lt _).trans_le
    (Nat.pow_le_pow_right (by decide) (by rw [window_length]; omega))
  payload_lt := by
    have h := leNat_lt (window data pos 4)
    have h4 : (256 : Nat) ^ (window data pos 4).length ≤ 256 ^ 4 :=
      Nat.pow_le_pow_right (by decide) (by rw [window_length]; omega)
    rw [window_length]
    omega

def computedCrc (data : Bytes) (pos : Nat) : Nat :=
  (crc32 (leBytes 4 (leNat (window data pos 4)) ++ beBytes 8 (recAt data pos).ledgerId ++
    beBytes 8 (recAt data pos).entryId ++ (recAt data pos).payload)).toNat

def storedCrc (data : Bytes) (pos : Nat) : Nat :=
  leNat (window data (pos + 20 + leNat (window data pos 4)) 4)

def decodeRecord (data : Bytes) (pos : Nat) : Except FolioError (Rec × Nat) :=
  let total := recordOverhead + leNat (window data pos 4)
  let avail := data.length - pos
  let stored := hex8 (storedCrc data pos)
  let computed := hex8 (computedCrc crc32 data pos)
  if data.length < pos + 4 then
    .error (.storage "torn write: truncated length prefix")
  else if data.length < pos + total then
    .error (.storage s!"torn write: record at {pos} needs {total} bytes, {avail} available")
  else if storedCrc data pos ≠ computedCrc crc32 data pos then
    .error (.storage s!"torn write: CRC mismatch at {pos}: stored={stored} computed={computed}")
  else .ok (recAt data pos, total)

theorem Rec.encode_fields (r : Rec) :
    window (r.encode crc32) 0 4 = leBytes 4 r.payload.length ∧
    window (r.encode crc32) 4 8 = beBytes 8 r.ledgerId ∧
    window (r.encode crc32) 12 8 = beBytes 8 r.entryId ∧
    window (r.encode crc32) 20 r.payload.length = r.payload ∧
    window (r.encode crc32) (20 + r.payload.length) 4 = leBytes 4 (crc32 r.body).toNat := by
  have hlen := leBytes_length 4 r.payload.length
  have hl := beBytes_length 8 r.ledgerId
  have he := beBytes_length 8 r.entryId
  have hc := leBytes_length 4 (crc32 r.body).toNat
  unfold Rec.encode
  generalize (crc32 r.body).toNat = c at *
  unfold Rec.body
  generalize leBytes 4 r.payload.length = a, beBytes 8 r.ledgerId = b,
    beBytes 8 r.entryId = d, leBytes 4 c = f at *
  simp only [window, List.append_assoc]
  refine ⟨by simp [← hlen], ?_, ?_, ?_, ?_⟩
  · rw [← hlen, List.drop_left, ← hl, List.take_left]
  · have : a ++ (b ++ (d ++ (r.payload ++ f))) = (a ++ b) ++ (d ++ (r.payload ++ f)) := by simp
    rw [this, show 12 = (a ++ b).length by simp [hlen, hl], List.drop_left, ← he, List.take_left]
  · have : a ++ (b ++ (d ++ (r.payload ++ f))) = (a ++ b ++ d) ++ (r.payload ++ f) := by simp
    rw [this, show 20 = (a ++ b ++ d).length by simp [hlen, hl, he], List.drop_left,
      List.take_left]
  · have : a ++ (b ++ (d ++ (r.payload ++ f))) = (a ++ b ++ d ++ r.payload) ++ f := by simp
    rw [this, show 20 + r.payload.length = (a ++ b ++ d ++ r.payload).length by
      simp [hlen, hl, he]; omega, List.drop_left, ← hc, List.take_length]

theorem decodeRecord_of_encode (r : Rec) (data : Bytes) (pos : Nat)
    (h : window data pos r.len = r.encode crc32) :
    decodeRecord crc32 data pos = .ok (r, r.len) := by
  have hlen : pos + r.len ≤ data.length := by
    have hw := congrArg List.length h
    rw [r.encode_length, window_length] at hw
    have : 0 < r.len := by simp [Rec.len, recordOverhead, recordHeader]
    omega
  have hrl : r.len = 24 + r.payload.length := rfl
  obtain ⟨h0, h4, h12, h20, hcrc⟩ := r.encode_fields crc32
  rw [← h] at h0 h4 h12 h20 hcrc
  rw [window_window _ _ _ _ _ (by omega)] at h0 h4 h12 h20 hcrc
  have hn : leNat (window data pos 4) = r.payload.length := by
    rw [← Nat.add_zero pos, h0, leNat_leBytes, Nat.mod_eq_of_lt r.payload_lt]
  have hr : recAt data pos = r := by
    have hl := beNat_beBytes 8 r.ledgerId
    have he := beNat_beBytes 8 r.entryId
    rw [Nat.mod_eq_of_lt r.ledger_lt] at hl
    rw [Nat.mod_eq_of_lt r.entry_lt] at he
    cases r
    simp_all [recAt]
  have hc : storedCrc data pos = computedCrc crc32 data pos := by
    have hlt : (crc32 r.body).toNat < 256 ^ 4 := (crc32 r.body).toNat_lt
    unfold storedCrc computedCrc
    rw [hr, hn, Nat.add_assoc, hcrc, leNat_leBytes, Nat.mod_eq_of_lt hlt]
    rfl
  unfold decodeRecord
  simp only [hn, hr, hc, ne_eq, not_true_eq_false, if_false]
  rw [if_neg (by omega), if_neg (by simp only [recordOverhead, recordHeader, recordFooter]; omega)]
  rfl

theorem decodeRecord_ok_iff (data : Bytes) (pos : Nat) (r : Rec) (n : Nat) :
    decodeRecord crc32 data pos = .ok (r, n) ↔
      n = r.len ∧ window data pos r.len = r.encode crc32 := by
  constructor
  · intro h
    unfold decodeRecord at h
    dsimp only at h
    split_ifs at h with h4 htot hcrc
    obtain ⟨rfl, rfl⟩ := Prod.mk.inj (Except.ok.inj h)
    have hov : recordOverhead = 24 := rfl
    have hw0 := window_length_of_le data pos 4 (by omega)
    have hw4 := window_length_of_le data (pos + 4) 8 (by omega)
    have hw12 := window_length_of_le data (pos + 12) 8 (by omega)
    have hw20 := window_length_of_le data (pos + 20) (leNat (window data pos 4)) (by omega)
    have hwc := window_length_of_le data (pos + 20 + leNat (window data pos 4)) 4 (by omega)
    have hlen : (recAt data pos).len = recordOverhead + leNat (window data pos 4) := by
      simp only [Rec.len, recAt, hw20]
    have hbody : window data pos (20 + leNat (window data pos 4)) = (recAt data pos).body := by
      have b0 := leBytes_leNat (window data pos 4)
      have b4 := beBytes_beNat (window data (pos + 4) 8)
      have b12 := beBytes_beNat (window data (pos + 12) 8)
      rw [hw0] at b0
      rw [hw4] at b4
      rw [hw12] at b12
      simp only [Rec.body, recAt, hw20, b0, b4, b12]
      rw [window_split data pos 20, window_split data pos 12 8, window_split data pos 4 8]
    have hsum : leBytes 4 (crc32 (recAt data pos).body).toNat =
        window data (pos + 20 + leNat (window data pos 4)) 4 := by
      have bc := leBytes_leNat (window data (pos + 20 + leNat (window data pos 4)) 4)
      rw [hwc] at bc
      rw [← bc]
      congr 1
      rw [show (crc32 (recAt data pos).body).toNat = computedCrc crc32 data pos by
        simp only [computedCrc, Rec.body, recAt, hw20]]
      exact (not_not.mp hcrc).symm
    refine ⟨hlen.symm, ?_⟩
    rw [hlen, Rec.encode, hsum, ← hbody, hov, Nat.add_assoc pos, ← window_split]
    congr 1
    omega
  · rintro ⟨rfl, h⟩
    exact decodeRecord_of_encode crc32 r data pos h

end Folio.Segment
