import Folio.Journal
import Folio.ScanLocality

/-! Entry segment files and their writer. A batch is written in one piece at the writer's
offset, and a segment id is used once. -/
namespace Folio.EntrySegment
open KeyedTable ByteCodec Protocol Fjall Segment RecoveryScan Journal ScanLocality

/-- `entries/entry-{id}.ent`. -/
abbrev Files := Table SegmentId Bytes

structure EntrySegmentWriter where
  id : SegmentId
  fileOffset : Nat
  deriving DecidableEq

def entryMeta (id : SegmentId) (status : SegmentStatus) (byteLen : Nat) : SegmentMeta where
  id
  kind := .Entry
  status
  localPath := some (.entrySeg id)
  s3Key := none
  byteLen

section NextId
variable {ν : Type*} (files : Table SegmentId ν) (registry : SegmentRegistry) {id : SegmentId}

def scanNextEntrySegId : SegmentId := files.keys.foldl (fun m id => max m (id + 1)) 0

def nextEntrySegId : SegmentId :=
  max (scanNextEntrySegId files) ((SegmentRegistry.maxId registry).elim 0 (· + 1))

theorem nextEntrySegId_fresh {data : ν} (h : files.get id = some data) :
    id < nextEntrySegId files registry := by
  refine lt_max_iff.mpr (.inl ?_)
  unfold scanNextEntrySegId
  rw [foldl_max_succ]
  exact .inr ⟨id, (files.mem_keys_iff id).mpr ⟨data, h⟩, le_rfl⟩

theorem nextEntrySegId_registered {m : SegmentMeta} (h : registry.get id = some m) :
    id < nextEntrySegId files registry := by
  refine lt_max_iff.mpr (.inr ?_)
  have hmem : id ∈ registry.keys := (registry.mem_keys_iff id).mpr ⟨m, h⟩
  unfold SegmentRegistry.maxId
  cases hmax : registry.keys.max? with
  | none =>
    rw [List.max?_eq_none_iff] at hmax
    rw [hmax] at hmem
    cases hmem
  | some top => exact Nat.lt_succ_of_le ((List.max?_eq_some_iff.mp hmax).2 id hmem)

end NextId

section Batches
variable (crc32 : Bytes → UInt32)

def batchBytes (rs : List Rec) : Bytes := paddedAligned (fillBuffer crc32 rs).1

/-- What `write_batch` returns: for every entry the offset in the file and the length. -/
def perEntry (base : Nat) (rs : List Rec) : List (Nat × Nat) :=
  (fillBuffer crc32 rs).2.map fun o => (base + o.1, o.2)

theorem layout_shift (base pos : Nat) (rs : List Rec) :
    (layout pos rs).map (fun v => (base + v.pos, v.len % 256 ^ 4)) =
      (layout (base + pos) rs).map fun v => (v.pos, v.len % 256 ^ 4) := by
  induction rs generalizing pos with
  | nil => rfl
  | cons r rs ih =>
    rw [layout, layout, List.map_cons, List.map_cons, ih, Nat.add_assoc]

theorem zip_perEntry (base : Nat) (rs : List Rec) :
    rs.zip (perEntry crc32 base rs) =
      (layout base rs).map fun v => (v.record, v.pos, v.len % 256 ^ 4) := by
  have hper : perEntry crc32 base rs = (layout base rs).map fun v => (v.pos, v.len % 256 ^ 4) := by
    have h := layout_shift base 0 rs
    rw [Nat.add_zero] at h
    rw [← h]
    simp [perEntry, fillBuffer, fillBuffer_from]
  rw [hper]
  clear hper
  induction rs generalizing base with
  | nil => rfl
  | cons r rs ih => rw [layout, List.map_cons, List.map_cons, List.zip_cons_cons, ih]

theorem zip_perEntry_fst (base : Nat) (rs : List Rec) :
    (rs.zip (perEntry crc32 base rs)).map Prod.fst = rs := by
  rw [zip_perEntry]
  induction rs generalizing base with
  | nil => rfl
  | cons r rs ih => rw [layout, List.map_cons, List.map_cons, ih]

theorem layout_len (base : Nat) (rs : List Rec) : ∀ v ∈ layout base rs, v.len = v.record.len := by
  induction rs generalizing base with
  | nil => simp [layout]
  | cons r rs ih => simpa [layout] using ih (base + r.len)

theorem window_layout (front t : Bytes) (rs : List Rec) :
    ∀ v ∈ layout front.length rs,
      window (front ++ rawBytes crc32 rs ++ t) v.pos v.record.len = v.record.encode crc32 := by
  induction rs generalizing front with
  | nil => simp [layout]
  | cons r rs ih =>
    intro v hv
    have hcons : rawBytes crc32 (r :: rs) = r.encode crc32 ++ rawBytes crc32 rs :=
      List.flatMap_cons
    rw [hcons]
    rcases List.mem_cons.mp hv with rfl | hv
    · rw [List.append_assoc, List.append_assoc, ← Nat.add_zero front.length,
        window_append_right, ← r.encode_length crc32, window_prefix]
    · rw [← List.append_assoc front]
      refine ih (front ++ r.encode crc32) v ?_
      rwa [List.length_append, r.encode_length]

theorem batch_decodes (data : Bytes) (rs : List Rec) :
    ∀ p ∈ rs.zip (perEntry crc32 data.length rs),
      decodeRecord crc32 (data ++ batchBytes crc32 rs) p.2.1 = .ok (p.1, p.1.len) := by
  intro p hp
  rw [zip_perEntry] at hp
  obtain ⟨v, hv, rfl⟩ := List.mem_map.mp hp
  refine decodeRecord_of_encode crc32 v.record _ v.pos ?_
  have hbytes : data ++ batchBytes crc32 rs = data ++ rawBytes crc32 rs ++
      List.replicate (alignUp (rawBytes crc32 rs).length - (rawBytes crc32 rs).length) 0 := by
    simp [batchBytes, paddedAligned, fillBuffer, fillBuffer_from]
  rw [hbytes]
  exact window_layout crc32 data _ rs v hv

end Batches

section Records
variable {crc32 : Bytes → UInt32} {id id' : SegmentId}

def Holds (crc32 : Bytes → UInt32) (files : Files) (id : SegmentId) (offset : Nat) (r : Rec) :
    Prop :=
  ∃ data, files.get id = some data ∧ decodeRecord crc32 data offset = .ok (r, r.len)

theorem Holds.append {files : Files} {offset : Nat} {r : Rec} {data : Bytes}
    (h : Holds crc32 files id offset r) (hfile : files.get id' = some data) (more : Bytes) :
    Holds crc32 (files.put id' (data ++ more)) id offset r := by
  obtain ⟨data₀, hget, hdec⟩ := h
  by_cases hid : id = id'
  · subst hid
    rw [hfile] at hget
    cases hget
    refine ⟨data ++ more, Table.get_put_self _ _ _, ?_⟩
    have hend : offset + r.len ≤ data.length := (decode_len crc32 hdec).2
    refine decode_congr crc32 ?_ hend hdec
    rw [List.take_append_of_le_length le_rfl]
  · exact ⟨data₀, (Table.get_put_ne _ _ hid).trans hget, hdec⟩

theorem Holds.create {files : Files} {offset : Nat} {r : Rec} (h : Holds crc32 files id offset r)
    (hfresh : files.get id' = none) : Holds crc32 (files.put id' []) id offset r := by
  obtain ⟨data, hget, hdec⟩ := h
  refine ⟨data, (Table.get_put_ne _ _ ?_).trans hget, hdec⟩
  rintro rfl
  rw [hfresh] at hget
  cases hget

end Records
end Folio.EntrySegment
