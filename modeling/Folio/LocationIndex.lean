import Folio.ByteCodec
import Folio.OrderedTable
import Folio.Fjall

/-! The `locations` partition as the bytes that are in it: sixteen-byte keys in lexicographic
order and bincode values. Elsewhere an index is a table keyed by pairs of ids. -/
namespace Folio.LocationIndex
open ByteCodec KeyedTable Protocol Fjall

section Model

abbrev Locations := Table Bytes Bytes

abbrev Ids := UInt64 × UInt64

def encodeKey (ledgerId entryId : UInt64) : Bytes :=
  beBytes 8 ledgerId.toNat ++ beBytes 8 entryId.toNat

def keyOf (k : Bytes) : Ids :=
  (.ofNat (beNat (window k 0 8)), .ofNat (beNat (window k 8 8)))

def decodeKey (k : Bytes) : Except FolioError Ids :=
  if k.length < 16 then
    .error (.storage s!"corrupt index key: expected 16 bytes, got {k.length}")
  else .ok (keyOf k)

/-- The fields of `IndexValue` in their order, little-endian and of fixed width. -/
def serialize (segmentId offset : UInt64) (length : UInt32) : Bytes :=
  leBytes 8 segmentId.toNat ++ leBytes 8 offset.toNat ++ leBytes 4 length.toNat

def valueOf (b : Bytes) : IndexValue :=
  ⟨leNat (window b 0 8), leNat (window b 8 8), leNat (window b 16 4)⟩

/-- Bytes behind the last field are ignored. -/
def deserialize (b : Bytes) : Except FolioError IndexValue :=
  if b.length < 20 then .error (.serialization "io error: unexpected end of file")
  else .ok (valueOf b)

def insertLocation (p : Locations) (ledgerId entryId segmentId offset : UInt64)
    (length : UInt32) : Locations :=
  p.put (encodeKey ledgerId entryId) (serialize segmentId offset length)

def getLocation (p : Locations) (ledgerId entryId : UInt64) :
    Except FolioError (Option IndexValue) :=
  match p.get (encodeKey ledgerId entryId) with
  | none => .ok none
  | some b => (deserialize b).map some

def deleteLocation (p : Locations) (ledgerId entryId : UInt64) : Locations :=
  p.del (encodeKey ledgerId entryId)

def inTail (segmentId minOffset : UInt64) (iv : IndexValue) : Bool :=
  iv.segmentId == segmentId.toNat && decide (minOffset.toNat ≤ iv.offset)

/-- The first loop of `delete_locations_in_segment_tail`. -/
def tailKeys (segmentId minOffset : UInt64) : List (Bytes × Bytes) → Except FolioError (List Ids)
  | [] => .ok []
  | (k, v) :: rest => do
    let iv ← deserialize v
    if inTail segmentId minOffset iv then
      let ids ← decodeKey k
      let keys ← tailKeys segmentId minOffset rest
      return ids :: keys
    else tailKeys segmentId minOffset rest

def deleteLocationsInSegmentTail (p : Locations) (segmentId minOffset : UInt64) :
    Except FolioError (Locations × List Ids) := do
  let toDelete ← tailKeys segmentId minOffset p.ascending
  return (toDelete.foldl (fun p k => deleteLocation p k.1 k.2) p, toDelete)

def u64Max : UInt64 := .ofNat (2 ^ 64 - 1)

/-- `encode_key(ledger_id, 0)..=encode_key(ledger_id, u64::MAX)`. -/
def ledgerRange (p : Locations) (ledgerId : UInt64) : List (Bytes × Bytes) :=
  p.range (encodeKey ledgerId 0) (encodeKey ledgerId u64Max)

def scanRows : List (Bytes × Bytes) → Except FolioError (List (UInt64 × IndexValue))
  | [] => .ok []
  | (k, v) :: rest => do
    let ids ← decodeKey k
    let iv ← deserialize v
    let out ← scanRows rest
    return (ids.2, iv) :: out

def scanLedgerLocations (p : Locations) (ledgerId : UInt64) :
    Except FolioError (List (UInt64 × IndexValue)) :=
  scanRows (ledgerRange p ledgerId)

def getNextEntryId (p : Locations) (ledgerId : UInt64) : Except FolioError UInt64 :=
  match (ledgerRange p ledgerId).getLast? with
  | none => .ok 0
  | some (k, _) => do
    let ids ← decodeKey k
    return ids.2 + 1

def segmentIdsOf : List (Bytes × Bytes) → Except FolioError (List SegmentId)
  | [] => .ok []
  | (_, v) :: rest => do
    let iv ← deserialize v
    let ids ← segmentIdsOf rest
    return iv.segmentId :: ids

def referencedSegmentIds (p : Locations) : Except FolioError (List SegmentId) :=
  segmentIdsOf p.ascending

end Model

section Codec
variable {l l' e e' : UInt64}

theorem toNat_lt_pow (n : UInt64) : n.toNat < 256 ^ 8 := n.toNat_lt

theorem beBytes_inj {n m : UInt64} : beBytes 8 n.toNat = beBytes 8 m.toNat ↔ n = m := by
  refine ⟨fun h => UInt64.toNat_inj.mp ?_, fun h => h ▸ rfl⟩
  have hnat := congrArg beNat h
  rwa [beNat_beBytes, beNat_beBytes, Nat.mod_eq_of_lt (toNat_lt_pow n),
    Nat.mod_eq_of_lt (toNat_lt_pow m)] at hnat

theorem encodeKey_composite : Composite encodeKey := by
  intro l e l' e'
  rw [encodeKey, encodeKey, append_lt_append_iff (by simp), beBytes_inj,
    beBytes_lt_beBytes_iff (toNat_lt_pow l) (toNat_lt_pow l'),
    beBytes_lt_beBytes_iff (toNat_lt_pow e) (toNat_lt_pow e'), UInt64.lt_iff_toNat_lt,
    UInt64.lt_iff_toNat_lt]

theorem encodeKey_inj :
    encodeKey l e = encodeKey l' e' ↔ l = l' ∧ e = e' :=
  encodeKey_composite.inj

theorem encodeKey_ne (h : (l', e') ≠ (l, e)) : encodeKey l' e' ≠ encodeKey l e :=
  fun heq => h (Prod.ext_iff.mpr (encodeKey_inj.mp heq))

theorem encodeKey_length (l e : UInt64) : (encodeKey l e).length = 16 := by
  simp [encodeKey]

theorem ofNat_beNat (n : UInt64) : UInt64.ofNat (beNat (beBytes 8 n.toNat)) = n := by
  rw [beNat_beBytes, Nat.mod_eq_of_lt (toNat_lt_pow n), UInt64.ofNat_toNat]

theorem keyOf_encodeKey (l e : UInt64) : keyOf (encodeKey l e) = (l, e) := by
  have hl : window (encodeKey l e) 0 8 = beBytes 8 l.toNat :=
    window_part [] _ (beBytes 8 e.toNat) rfl (beBytes_length 8 _)
  have he : window (encodeKey l e) 8 8 = beBytes 8 e.toNat := by
    have h := window_part (beBytes 8 l.toNat) (beBytes 8 e.toNat) [] (beBytes_length 8 _)
      (beBytes_length 8 _)
    rwa [List.append_nil] at h
  rw [keyOf, hl, he, ofNat_beNat, ofNat_beNat]

theorem decodeKey_encodeKey (l e : UInt64) : decodeKey (encodeKey l e) = .ok (l, e) := by
  rw [decodeKey, if_neg (by rw [encodeKey_length]; decide), keyOf_encodeKey]

theorem serialize_length (seg off : UInt64) (len : UInt32) :
    (serialize seg off len).length = 20 := by
  simp [serialize]

theorem valueOf_serialize (seg off : UInt64) (len : UInt32) :
    valueOf (serialize seg off len) = ⟨seg.toNat, off.toNat, len.toNat⟩ := by
  have hseg : window (serialize seg off len) 0 8 = leBytes 8 seg.toNat := by
    rw [serialize, List.append_assoc]
    exact window_part [] _ _ rfl (leBytes_length 8 _)
  have hoff : window (serialize seg off len) 8 8 = leBytes 8 off.toNat := by
    rw [serialize, List.append_assoc]
    exact window_part _ _ _ (leBytes_length 8 _) (leBytes_length 8 _)
  have hlen : window (serialize seg off len) 16 4 = leBytes 4 len.toNat := by
    have h := window_part (i := 16) (leBytes 8 seg.toNat ++ leBytes 8 off.toNat)
      (leBytes 4 len.toNat) [] (by simp) (leBytes_length 4 _)
    rwa [List.append_nil] at h
  have hlt : len.toNat < 256 ^ 4 := len.toNat_lt
  rw [valueOf, hseg, hoff, hlen, leNat_leBytes, leNat_leBytes, leNat_leBytes,
    Nat.mod_eq_of_lt (toNat_lt_pow seg), Nat.mod_eq_of_lt (toNat_lt_pow off),
    Nat.mod_eq_of_lt hlt]

end Codec
end Folio.LocationIndex
