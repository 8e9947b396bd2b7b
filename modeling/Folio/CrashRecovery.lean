import Folio.BatchSeams
import Folio.EntryCache
import Mathlib.Data.List.Sort

/-! Two-phase crash recovery over the segment files, registries, indices and cache.
File and Fjall errors are not modelled; a loop that never ends runs out of fuel. -/
namespace Folio.CrashRecovery
open KeyedTable Protocol Fjall EntryCache RecoveryScan

structure RecoveryStats where
  entrySegEntries : Nat := 0
  entrySegsRegistered : Nat := 0
  walEntriesReplayed : Nat := 0
  walSegsRegistered : Nat := 0
  tornWrites : Nat := 0
  entryLocationsPurgedAfterTorn : Nat := 0
  walLocationsPurgedAfterTorn : Nat := 0
  walEntriesRecoveredAfterEntryTorn : Nat := 0
  entryTornRecoveryCandidates : List Key := []
  deriving DecidableEq

structure Store where
  files : Table SegPath Bytes
  walIndex : FjallIndex
  entryIndex : FjallIndex
  walRegistry : SegmentRegistry
  entryRegistry : SegmentRegistry
  cache : EntrySegmentCache
  stats : RecoveryStats

variable (crc32 : Bytes → UInt32)

def setLen (data : Bytes) (n : Nat) : Bytes :=
  data.take n ++ List.replicate (n - data.length) 0

theorem setLen_length (data : Bytes) (n : Nat) : (setLen data n).length = n := by
  simp only [setLen, List.length_append, List.length_take, List.length_replicate]
  omega

theorem setLen_of_le {data : Bytes} {n : Nat} (h : n ≤ data.length) :
    setLen data n = data.take n := by
  simp [setLen, Nat.sub_eq_zero_of_le h]

theorem setLen_length_self (data : Bytes) : setLen data data.length = data := by
  simp [setLen]

def truncateFile (st : Store) (path : SegPath) (len : Nat) : Store :=
  match st.files.get path with
  | none => st
  | some data => { st with files := st.files.put path (setLen data len) }

section EntrySegments

def recoverVisit (segId : SegmentId) (st : Store) (v : Visit) : Store :=
  if (st.entryIndex.getLocation v.record.key).isNone then
    { st with
      entryIndex := st.entryIndex.insertLocation v.record.key segId v.pos (v.len % 256 ^ 4)
      stats := { st.stats with entrySegEntries := st.stats.entrySegEntries + 1 } }
  else st

def purgeEntryLocationsAfterTornSegment (st : Store) (segId : SegmentId) (validLen : Nat) :
    Store :=
  let (idx, purged) := st.entryIndex.deleteLocationsInSegmentTail segId validLen
  { st with
    entryIndex := idx
    stats := { st.stats with
      entryLocationsPurgedAfterTorn := st.stats.entryLocationsPurgedAfterTorn + purged.length
      entryTornRecoveryCandidates := st.stats.entryTornRecoveryCandidates ++ purged } }

def registerEntryIfAbsent (st : Store) (segId : SegmentId) (path : SegPath) (byteLen : Nat) :
    Store :=
  if (st.entryRegistry.get segId).isNone then
    { st with
      entryRegistry := SegmentRegistry.upsert st.entryRegistry
        { id := segId, kind := .Entry, status := .Local, localPath := some path,
          s3Key := none, byteLen }
      stats := { st.stats with entrySegsRegistered := st.stats.entrySegsRegistered + 1 } }
  else st

def recoverEntryLoop (segId : SegmentId) (data : Bytes) (fuel : Nat) (st : Store) :
    Option (ScanEnd Store) :=
  scanLoop crc32 (recoverVisit segId) data fuel 0 0 st

def recoverEntrySegment (fuel : Nat) (segId : SegmentId) (path : SegPath) (st : Store) :
    Option Store :=
  match st.files.get path with
  | none => some st
  | some data =>
    (recoverEntryLoop crc32 segId data fuel
      (registerEntryIfAbsent st segId path data.length)).map fun e =>
        if e.torn then
          purgeEntryLocationsAfterTornSegment
            (truncateFile
              { e.state with stats := { e.state.stats with
                  tornWrites := e.state.stats.tornWrites + 1 } } path e.lastValid)
            segId e.lastValid
        else e.state

def sortedIds (ids : List SegmentId) : List SegmentId := ids.insertionSort (· ≤ ·)

def entrySegmentIds (files : Table SegPath Bytes) : List SegmentId :=
  sortedIds (files.keys.filterMap fun p => match p with | .entrySeg id => some id | _ => none)

def recoverEntrySegments (fuel : Nat) (st : Store) : Option Store :=
  (entrySegmentIds st.files).foldlM
    (fun st id => recoverEntrySegment crc32 fuel id (.entrySeg id) st) st

end EntrySegments

section WalReplay

def walSegmentIds (files : Table SegPath Bytes) : List SegmentId :=
  sortedIds (files.keys.filterMap fun p => match p with | .sealedSeg id => some id | _ => none)

def scanNextSegmentId (files : Table SegPath Bytes) : SegmentId :=
  (walSegmentIds files).foldl (fun m id => max m (id + 1)) 0

def registerWalIfAbsent (st : Store) (id : SegmentId) (path : SegPath) : Store :=
  if (st.walRegistry.get id).isNone then
    { st with
      walRegistry := SegmentRegistry.upsert st.walRegistry
        { id, kind := .Wal, status := .Local, localPath := some path, s3Key := none,
          byteLen := ((st.files.get path).map List.length).getD 0 }
      stats := { st.stats with walSegsRegistered := st.stats.walSegsRegistered + 1 } }
  else st

def swapRemove (xs : List Key) (k : Key) : List Key :=
  match xs.getLast? with
  | none => xs
  | some l => (xs.set (xs.idxOf k) l).dropLast

def removeRecoveryCandidate (stats : RecoveryStats) (k : Key) : RecoveryStats :=
  if k ∈ stats.entryTornRecoveryCandidates then
    { stats with
      entryTornRecoveryCandidates := swapRemove stats.entryTornRecoveryCandidates k
      walEntriesRecoveredAfterEntryTorn := stats.walEntriesRecoveredAfterEntryTorn + 1 }
  else stats

def indexWal (segId : SegmentId) (st : Store) (v : Visit) : Store :=
  if (st.walIndex.getLocation v.record.key).isNone then
    { st with
      walIndex := st.walIndex.insertLocation v.record.key segId v.pos (v.len % 256 ^ 4)
      stats := { st.stats with walEntriesReplayed := st.stats.walEntriesReplayed + 1 } }
  else st

/-- Body of the WAL loop: entries not yet in an entry segment go to `wal_index` (first
copy wins) and to the cache (last copy wins). -/
def replayVisit (segId : SegmentId) (st : Store) (v : Visit) : Store :=
  if (st.entryIndex.getLocation v.record.key).isNone then
    let st := indexWal segId st v
    { st with
      cache := st.cache.insert v.record.key v.record.payload
      stats := removeRecoveryCandidate st.stats v.record.key }
  else st

def purgeWalLocationsAfterTornSegment (st : Store) (segId : SegmentId) (validLen : Nat) :
    Store :=
  let (idx, purged) := st.walIndex.deleteLocationsInSegmentTail segId validLen
  { st with
    walIndex := idx
    stats := { st.stats with
      walLocationsPurgedAfterTorn := st.stats.walLocationsPurgedAfterTorn + purged.length } }

def replayWalLoop (segId : SegmentId) (data : Bytes) (fuel checkpoint : Nat) (st : Store) :
    Option (ScanEnd Store) :=
  scanLoop crc32 (replayVisit segId) data fuel checkpoint checkpoint st

def replayWalSegment (fuel : Nat) (segId : SegmentId) (path : SegPath) (st : Store) :
    Option Store :=
  match st.files.get path with
  | none => some st
  | some data =>
    (replayWalLoop crc32 segId data fuel (st.walIndex.getCheckpoint segId) st).map fun e =>
      let st := if e.torn then
          purgeWalLocationsAfterTornSegment
            (truncateFile
              { e.state with stats := { e.state.stats with
                  tornWrites := e.state.stats.tornWrites + 1 } } path e.lastValid)
            segId e.lastValid
        else e.state
      { st with walIndex := st.walIndex.setCheckpoint segId e.lastValid }

/-- First half of `recover_wal`: rows for files the registry does not know. -/
def registerWalFiles (st : Store) : Store :=
  let st := (walSegmentIds st.files).foldl
    (fun st id => registerWalIfAbsent st id (.sealedSeg id)) st
  if (st.files.get .activeSeg).isSome then
    registerWalIfAbsent st (scanNextSegmentId st.files) .activeSeg
  else st

def segmentsToReplay (reg : SegmentRegistry) : List SegmentMeta :=
  let segments :=
    SegmentRegistry.listByStatus reg .Local ++ SegmentRegistry.listByStatus reg .Active
  segments.insertionSort fun a b => a.id ≤ b.id

def replayMeta (fuel : Nat) (st : Store) (m : SegmentMeta) : Option Store :=
  match m.localPath with
  | none => some st
  | some path => replayWalSegment crc32 fuel m.id path st

def replayWalSegments (fuel : Nat) (st : Store) : Option Store :=
  (segmentsToReplay st.walRegistry).foldlM (replayMeta crc32 fuel) st

def recoverWal (fuel : Nat) (st : Store) : Option Store :=
  replayWalSegments crc32 fuel (registerWalFiles st)

end WalReplay

def recover (fuel : Nat) (st : Store) : Option Store :=
  (recoverEntrySegments crc32 fuel { st with stats := {} }).bind (recoverWal crc32 fuel)

end Folio.CrashRecovery
