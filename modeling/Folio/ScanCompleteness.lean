import Folio.CrashRecovery
import Folio.Crc32

/-! Which files of padded batches the two recovery loops read completely. -/
namespace Folio.ScanCompleteness
open ByteCodec Protocol Fjall Segment RecoveryScan BatchSeams CrashRecovery
variable (crc32 : Bytes → UInt32) {σ : Type*}

def traced (visit : σ → Visit → σ) (s : List Visit × σ) (v : Visit) : List Visit × σ :=
  (s.1 ++ [v], visit s.2 v)

theorem foldl_traced (visit : σ → Visit → σ) (vs log : List Visit) (s : σ) :
    vs.foldl (traced visit) (log, s) = (log ++ vs, vs.foldl visit s) := by
  induction vs generalizing log s with
  | nil => simp
  | cons v vs ih => simp [traced, ih]

def replayWalTrace (segId : SegmentId) (data : Bytes) (fuel checkpoint : Nat) (st : Store) :
    Option (ScanEnd (List Visit × Store)) :=
  scanLoop crc32 (traced (replayVisit segId)) data fuel checkpoint checkpoint ([], st)

def recoverEntryTrace (segId : SegmentId) (data : Bytes) (fuel : Nat) (st : Store) :
    Option (ScanEnd (List Visit × Store)) :=
  scanLoop crc32 (traced (recoverVisit segId)) data fuel 0 0 ([], st)

theorem traced_loop (visit : σ → Visit → σ) (data : Bytes) (fuel pos last : Nat) (s : σ) :
    scanLoop crc32 (traced visit) data fuel pos last ([], s) =
      (scan crc32 data fuel pos last).map fun e =>
        ⟨(e.state, e.state.foldl visit s), e.lastValid, e.torn⟩ := by
  simp [scanLoop_eq_foldl, foldl_traced]

theorem replayWalTrace_state (segId : SegmentId) (data : Bytes) (fuel checkpoint : Nat)
    (st : Store) :
    (replayWalTrace crc32 segId data fuel checkpoint st).map
        (fun e => (⟨e.state.2, e.lastValid, e.torn⟩ : ScanEnd Store)) =
      replayWalLoop crc32 segId data fuel checkpoint st := by
  rw [replayWalTrace, replayWalLoop, traced_loop, scanLoop_eq_foldl, Option.map_map]
  rfl

theorem recoverEntryTrace_state (segId : SegmentId) (data : Bytes) (fuel : Nat) (st : Store) :
    (recoverEntryTrace crc32 segId data fuel st).map
        (fun e => (⟨e.state.2, e.lastValid, e.torn⟩ : ScanEnd Store)) =
      recoverEntryLoop crc32 segId data fuel st := by
  rw [recoverEntryTrace, recoverEntryLoop, traced_loop, scanLoop_eq_foldl, Option.map_map]
  rfl

/-- Every record of every batch is visited first, in order, where the writer put it, and
a truncation spares them all. -/
def VisitsAll (batches : List Batch) (e : ScanEnd (List Visit × σ)) : Prop :=
  ackedAll crc32 0 batches <+: e.state.1 ∧ (e.torn = true → endOf 0 batches ≤ e.lastValid)

theorem visitsAll_iff (visit : σ → Visit → σ) (batches : List Batch) (t : Bytes) (fuel : Nat)
    (s : σ) (w : ScanEnd (List Visit × σ))
    (hw : scanLoop crc32 (traced visit) (fileBytes crc32 batches ++ t) fuel 0 0 ([], s) = some w) :
    VisitsAll crc32 batches w ↔ batches.IsChain Seamless := by
  rw [traced_loop, Option.map_eq_some_iff] at hw
  obtain ⟨e, he, rfl⟩ := hw
  have hl : Laid crc32 (fileBytes crc32 batches ++ t) 0 batches := by
    simpa using laid_fileBytes crc32 [] t batches
  have hvis := scan_visits_iff crc32 _ batches 0 fuel 0 e (by decide) hl he
  constructor
  · exact fun h => hvis.mp h.1
  · intro hc
    refine ⟨hvis.mpr hc, fun _ => ?_⟩
    cases batches with
    | nil => exact Nat.zero_le _
    | cons b bs => exact scan_lastValid_of_chain crc32 _ _ 0 fuel 0 e (by simp) (by decide) hl hc he

/-- Both recovery loops read a file of padded batches completely, whatever bytes follow
them, exactly when every seam between two batches is seamless. -/
theorem recovery_scan_complete_iff (batches : List Batch) (t : Bytes) (walSeg entrySeg : SegmentId)
    (walSt entrySt : Store) (walFuel entryFuel : Nat) (w e : ScanEnd (List Visit × Store))
    (hw : replayWalTrace crc32 walSeg (fileBytes crc32 batches ++ t) walFuel 0 walSt = some w)
    (he : recoverEntryTrace crc32 entrySeg (fileBytes crc32 batches ++ t) entryFuel entrySt =
      some e) :
    (VisitsAll crc32 batches w ∧ VisitsAll crc32 batches e) ↔ batches.IsChain Seamless := by
  rw [visitsAll_iff crc32 _ batches t walFuel walSt w hw,
    visitsAll_iff crc32 _ batches t entryFuel entrySt e he, and_self]

section Files

def zeroBatch (entryId n : Nat) (he : entryId < 256 ^ 8) (hpos : 0 < n)
    (hn : n < 256 ^ 4 - recordOverhead) : Batch where
  recs := [⟨1, entryId, List.replicate n 0, Segment.one_lt_word, he, by simp; omega⟩]
  nonempty := by simp
  payload_pos := by simpa using hpos
  payload_fits := by simpa using hn

theorem zeroBatch_size (entryId n : Nat) (he : entryId < 256 ^ 8) (hpos : 0 < n)
    (hn : n < 256 ^ 4 - recordOverhead) : (zeroBatch entryId n he hpos hn).size = 24 + n := by
  simp [zeroBatch, Batch.size, Rec.len, recordOverhead, recordHeader, recordFooter]

def emptyStore : Store where
  files := .empty
  walIndex := .empty
  entryIndex := .empty
  walRegistry := .empty
  entryRegistry := .empty
  cache := .new 65536
  stats := {}

def plainBatch : Batch := zeroBatch 0 1 (by decide) (by decide) (by decide)

/- 24 + 4069 = 4093: three bytes of padding in front of the next length prefix. -/
def wideBatch : Batch := zeroBatch 0 4069 (by decide) (by decide) (by decide)
def nextBatch : Batch := zeroBatch 1 1 Segment.one_lt_word (by decide) (by decide)

theorem plain_file_read_completely :
    ∃ fuel w e, replayWalTrace Crc32.crc32 0
        (fileBytes Crc32.crc32 [plainBatch, nextBatch] ++ []) fuel 0 emptyStore = some w ∧
      recoverEntryTrace Crc32.crc32 0
        (fileBytes Crc32.crc32 [plainBatch, nextBatch] ++ []) fuel emptyStore = some e ∧
      VisitsAll Crc32.crc32 [plainBatch, nextBatch] w ∧
      VisitsAll Crc32.crc32 [plainBatch, nextBatch] e := by
  have hchain : [plainBatch, nextBatch].IsChain Seamless := by
    simp [Seamless, plainBatch, zeroBatch_size, align, Nat.mod_one]
  obtain ⟨fuel, hscan⟩ := scan_clean_file Crc32.crc32 [plainBatch, nextBatch] (by simp) hchain
  have hw := traced_loop Crc32.crc32 (replayVisit 0)
    (fileBytes Crc32.crc32 [plainBatch, nextBatch] ++ []) fuel 0 0 emptyStore
  have he := traced_loop Crc32.crc32 (recoverVisit 0)
    (fileBytes Crc32.crc32 [plainBatch, nextBatch] ++ []) fuel 0 0 emptyStore
  rw [List.append_nil, hscan, Option.map_some] at hw he
  rw [← List.append_nil (fileBytes _ _)] at hw he
  have hboth := (recovery_scan_complete_iff Crc32.crc32 _ _ _ _ _ _ _ _ _ _ hw he).mpr hchain
  exact ⟨fuel, _, _, hw, he, hboth⟩

theorem wide_seam_loses_next_batch :
    ∃ w, replayWalTrace Crc32.crc32 0 (fileBytes Crc32.crc32 [wideBatch, nextBatch] ++ []) 2 0
        emptyStore = some w ∧
      w.torn = true ∧ w.lastValid = 4093 ∧
      ¬ VisitsAll Crc32.crc32 [wideBatch, nextBatch] w := by
  have hsize : wideBatch.size = 4093 := zeroBatch_size _ _ _ _ _
  have hl : Laid Crc32.crc32 (fileBytes Crc32.crc32 [wideBatch, nextBatch] ++ []) 0
      [wideBatch, nextBatch] := by
    simpa using laid_fileBytes Crc32.crc32 [] [] [wideBatch, nextBatch]
  have hlen : (fileBytes Crc32.crc32 [wideBatch, nextBatch] ++ []).length = 8192 := by
    have hn : nextBatch.size = 25 := zeroBatch_size _ _ _ _ _
    simp [fileBytes, Batch.bytes_length, hsize, hn, alignUp, align]
  have hword : leNat (window (fileBytes Crc32.crc32 [wideBatch, nextBatch] ++ []) 4093 4) =
      16777216 := by
    have h := seam_value Crc32.crc32 _ 0 wideBatch nextBatch [] (by rw [hsize]; decide) hl
    rw [hsize, Nat.zero_add] at h
    rw [h]
    decide
  have hiff := visitsAll_iff Crc32.crc32 (replayVisit 0) [wideBatch, nextBatch] [] 2 emptyStore
  generalize fileBytes Crc32.crc32 [wideBatch, nextBatch] ++ [] = data at *
  have htorn : scan Crc32.crc32 data 1 4093 4093 = some ⟨[], 4093, true⟩ := by
    rw [scan, if_neg (by omega), if_neg (by rw [hword]; decide)]
    simp [decodeRecord, hword, hlen, recordOverhead, recordHeader, recordFooter]
  have hrun := scan_batch Crc32.crc32 data 0 1 0 wideBatch hl.1
  rw [hsize, Nat.zero_add, htorn] at hrun
  have hw := traced_loop Crc32.crc32 (replayVisit 0) data (1 + wideBatch.recs.length) 0 0 emptyStore
  rw [hrun, Option.map_some, Option.map_some] at hw
  refine ⟨_, hw, rfl, rfl, fun hall => ?_⟩
  have hchain := (hiff _ hw).mp hall
  simp only [List.isChain_cons_cons, Seamless, hsize] at hchain
  exact absurd hchain.1 (by decide)

end Files
end Folio.ScanCompleteness
