import Folio.CrashRecovery

/-! What the journal thread does to the WAL directory and to the segment registry.
I/O errors of `do_seal` itself are not modelled. -/
namespace Folio.Journal
open KeyedTable Protocol Fjall Segment RecoveryScan CrashRecovery
variable (crc32 : Bytes → UInt32)

/-- Positioned write; a gap in front of `off` reads as zeros. -/
def writeAt (data : Bytes) (off : Nat) (bs : Bytes) : Bytes :=
  setLen data off ++ bs ++ data.drop (off + bs.length)

def nextWalSegmentId (files : Table SegPath Bytes) (registry : SegmentRegistry) : SegmentId :=
  max (scanNextSegmentId files) ((SegmentRegistry.maxId registry).elim 0 (· + 1))

/-- Length of `active.seg` rounded down to a block. -/
def resumeOffset (files : Table SegPath Bytes) : Nat :=
  (((files.get .activeSeg).map List.length).getD 0 / align) * align

/-- `open_odirect`: created empty when absent, never truncated. -/
def openOdirect (files : Table SegPath Bytes) : Table SegPath Bytes :=
  match files.get .activeSeg with
  | none => files.put .activeSeg []
  | some _ => files

def registerActive (registry : SegmentRegistry) (segId : SegmentId) : SegmentRegistry :=
  SegmentRegistry.upsert registry
    { id := segId, kind := .Wal, status := .Active, localPath := some .activeSeg,
      s3Key := none, byteLen := 0 }

section Seal

/-- `rename(active.seg, seg-{id}.seg)`; fails when there is no active file. -/
def renameActive (files : Table SegPath Bytes) (segId : SegmentId) :
    Option (Table SegPath Bytes) :=
  (files.get .activeSeg).map fun data => (files.del .activeSeg).put (.sealedSeg segId) data

def registerSealed (files : Table SegPath Bytes) (registry : SegmentRegistry)
    (segId : SegmentId) : SegmentRegistry :=
  SegmentRegistry.upsert registry
    { id := segId, kind := .Wal, status := .Local, localPath := some (.sealedSeg segId),
      s3Key := none, byteLen := ((files.get (.sealedSeg segId)).map List.length).getD 0 }

end Seal

def appendBatch (st : Table SegPath Bytes × Nat) (b : Batch) : Table SegPath Bytes × Nat :=
  (st.1.put .activeSeg (writeAt ((st.1.get .activeSeg).getD []) st.2 (b.bytes crc32)),
    st.2 + (b.bytes crc32).length)

theorem writeAt_past {data bs : Bytes} {off : Nat} (h : data.length ≤ off + bs.length) :
    writeAt data off bs = setLen data off ++ bs := by
  rw [writeAt, List.drop_eq_nil_of_le h, List.append_nil]

theorem writeAt_end (data bs : Bytes) : writeAt data data.length bs = data ++ bs := by
  rw [writeAt_past (Nat.le_add_right _ _), setLen_length_self]

theorem foldl_appendBatch (files : Table SegPath Bytes) (data : Bytes) (off : Nat)
    (ns : List Batch) (hfile : files.get .activeSeg = some data)
    (hshort : data.length ≤ off + align) (hne : ns ≠ []) :
    (ns.foldl (appendBatch crc32) (files, off)).1.get .activeSeg =
      some (setLen data off ++ BatchSeams.fileBytes crc32 ns) := by
  induction ns generalizing files data off with
  | nil => exact absurd rfl hne
  | cons b ns ih =>
    have hb : align ≤ (b.bytes crc32).length := by
      have := b.size_ge
      rw [Batch.bytes_length]
      unfold alignUp align
      omega
    have hw : writeAt data off (b.bytes crc32) = setLen data off ++ b.bytes crc32 :=
      writeAt_past (by omega)
    have hstep : appendBatch crc32 (files, off) b =
        (files.put .activeSeg (setLen data off ++ b.bytes crc32),
          off + (b.bytes crc32).length) := by
      simp only [appendBatch, hfile, Option.getD_some, hw]
    have hlen : (setLen data off ++ b.bytes crc32).length = off + (b.bytes crc32).length := by
      rw [List.length_append, setLen_length]
    rw [List.foldl_cons, hstep]
    cases ns with
    | nil => simp [BatchSeams.fileBytes, Table.get_put_self]
    | cons c ns =>
      rw [ih _ _ _ (Table.get_put_self _ _ _) (by omega) (by simp), ← hlen, setLen_length_self]
      simp [BatchSeams.fileBytes]

section Ids
variable (files : Table SegPath Bytes) (registry : SegmentRegistry)

theorem mem_walSegmentIds (id : SegmentId) :
    id ∈ walSegmentIds files ↔ ∃ data, files.get (.sealedSeg id) = some data := by
  rw [walSegmentIds, sortedIds, (List.perm_insertionSort _ _).mem_iff, ← Table.mem_keys_iff,
    List.mem_filterMap]
  constructor
  · rintro ⟨path, hpath, hid⟩
    cases path <;> simp_all
  · exact fun h => ⟨_, h, rfl⟩

theorem foldl_max_succ (ids : List Nat) (m i : Nat) :
    i < ids.foldl (fun m id => max m (id + 1)) m ↔ i < m ∨ ∃ id ∈ ids, i ≤ id := by
  induction ids generalizing m with
  | nil => simp
  | cons id ids ih =>
    rw [List.foldl_cons, ih]
    simp only [List.mem_cons, exists_eq_or_imp, lt_max_iff, or_assoc, Nat.lt_succ_iff]

theorem lt_scanNext_iff (i : Nat) : i < scanNextSegmentId files ↔
    ∃ id, i ≤ id ∧ ∃ data, files.get (.sealedSeg id) = some data := by
  unfold scanNextSegmentId
  rw [foldl_max_succ]
  simp only [Nat.not_lt_zero, false_or, mem_walSegmentIds]
  exact exists_congr fun id => and_comm

theorem lt_maxId_iff (i : Nat) : i < (SegmentRegistry.maxId registry).elim 0 (· + 1) ↔
    ∃ id, i ≤ id ∧ ∃ m, registry.get id = some m := by
  unfold SegmentRegistry.maxId
  cases hmax : registry.keys.max? with
  | none =>
    have hnil : registry.keys = [] := List.max?_eq_none_iff.mp hmax
    simp only [Option.elim_none, Nat.not_lt_zero, false_iff, not_exists, not_and]
    intro id _ m hm
    have := (Table.mem_keys_iff registry id).mpr ⟨m, hm⟩
    simp [hnil] at this
  | some top =>
    obtain ⟨hmem, hle⟩ := List.max?_eq_some_iff.mp hmax
    simp only [Option.elim_some, ← Table.mem_keys_iff]
    constructor
    · exact fun h => ⟨top, by omega, hmem⟩
    · rintro ⟨id, hi, hid⟩
      exact Nat.lt_succ_of_le (hi.trans (hle id hid))

theorem lt_nextWalSegmentId_iff (i : Nat) : i < nextWalSegmentId files registry ↔
    ∃ id, i ≤ id ∧ ((∃ data, files.get (.sealedSeg id) = some data) ∨
      ∃ m, registry.get id = some m) := by
  rw [nextWalSegmentId, lt_max_iff, lt_scanNext_iff, lt_maxId_iff]
  constructor
  · rintro (⟨id, hi, h⟩ | ⟨id, hi, h⟩)
    · exact ⟨id, hi, .inl h⟩
    · exact ⟨id, hi, .inr h⟩
  · rintro ⟨id, hi, h | h⟩
    · exact .inl ⟨id, hi, h⟩
    · exact .inr ⟨id, hi, h⟩

theorem openOdirect_get (path : SegPath) (hpath : path ≠ .activeSeg) :
    (openOdirect files).get path = files.get path := by
  unfold openOdirect
  split
  · exact Table.get_put_ne _ _ hpath
  · rfl

theorem openOdirect_active :
    (openOdirect files).get .activeSeg = some ((files.get .activeSeg).getD []) := by
  unfold openOdirect
  split <;> simp_all

end Ids
end Folio.Journal
