import Folio.Journal
import Folio.TransitionSystem

/-! The WAL directory and registry of one node over any number of boots and crashes. The
journal thread and recovery run side by side during a boot; requests are served only
after both. Steps that touch nothing modelled here (`sync_all`, the seal notice) are left out. -/
namespace Folio.WalSession
open KeyedTable Protocol Fjall RecoveryScan CrashRecovery Journal
variable (crc32 : Bytes → UInt32)

/-- The journal thread: the start of `journal_loop`, the loop, and the stages of `do_seal`. -/
inductive JournalPc where
  | down
  | opened (id : SegmentId)
  | resumed (id : SegmentId) (off : Nat)
  | created (id : SegmentId) (off : Nat)
  | ready (id : SegmentId) (off : Nat)
  | renamed (id : SegmentId)
  | upserted (id : SegmentId)
  | reopened (id : SegmentId)
  deriving DecidableEq

inductive RecoveryPc where
  | start
  | entriesDone
  | registered
  | replaying (todo : List SegmentMeta)
  | finished
  deriving DecidableEq

/-- `active` and `done` are the batches acknowledged since the last open: those in
`active.seg`, and those of every segment sealed since. -/
structure State where
  store : Store
  journal : JournalPc
  recovery : RecoveryPc
  active : List Batch
  done : List (SegmentId × List Batch)

inductive Act where
  | openJournal
  | resume
  | create
  | register
  | recoverEntries (fuel : Nat)
  | registerFiles
  | listSegments
  | replayNext (fuel : Nat)
  | finish
  | batch (b : Batch)
  | failedBatch (tail : Bytes)
  | rename
  | upsert
  | reopen
  | registerNext
  | flush (index : FjallIndex) (segId : SegmentId) (bytes : Bytes) (migrated : List Key)
  | crash

namespace State

def withFiles (s : State) (files : Table SegPath Bytes) : State :=
  { s with store := { s.store with files } }

def withRegistry (s : State) (walRegistry : SegmentRegistry) : State :=
  { s with store := { s.store with walRegistry } }

end State

/-- Steps of a boot: `LsmcJournal::open`, then thread and recovery in any order. -/
def stepBoot (s : State) (a : Act) : Option State :=
  match a, s.journal, s.recovery with
  | .openJournal, .down, _ =>
    some { s with
      journal := .opened (nextWalSegmentId s.store.files s.store.walRegistry)
      recovery := .start, active := [], done := [] }
  | .resume, .opened id, _ => some { s with journal := .resumed id (resumeOffset s.store.files) }
  | .create, .resumed id off, _ =>
    some { s.withFiles (openOdirect s.store.files) with journal := .created id off }
  | .register, .created id off, _ =>
    some { s.withRegistry (registerActive s.store.walRegistry id) with journal := .ready id off }
  | _, .down, _ => none
  | .recoverEntries fuel, _, .start =>
    (recoverEntrySegments crc32 fuel { s.store with stats := {} }).map fun store =>
      { s with store, recovery := .entriesDone }
  | .registerFiles, _, .entriesDone =>
    some { s with store := registerWalFiles s.store, recovery := .registered }
  | .listSegments, _, .registered =>
    some { s with recovery := .replaying (segmentsToReplay s.store.walRegistry) }
  | .replayNext fuel, _, .replaying (m :: todo) =>
    (replayMeta crc32 fuel s.store m).map fun store =>
      { s with store, recovery := .replaying todo }
  | .finish, _, .replaying [] => some { s with recovery := .finished }
  | _, _, _ => none

/-- Steps of the serving node: batches that reach the disk, writes that fail or are cut
off and leave any bytes past the journal's offset, and the stages of a seal. -/
def stepServe (s : State) (a : Act) : Option State :=
  match a, s.journal, s.recovery with
  | .batch b, .ready id off, .finished =>
    some { s.withFiles (appendBatch crc32 (s.store.files, off) b).1 with
      journal := .ready id (appendBatch crc32 (s.store.files, off) b).2
      active := s.active ++ [b] }
  | .failedBatch tail, .ready _ off, .finished =>
    some (s.withFiles (s.store.files.put .activeSeg
      (((s.store.files.get .activeSeg).getD []).take off ++ tail)))
  | .rename, .ready id _, .finished =>
    (renameActive s.store.files id).map fun files =>
      { s.withFiles files with
        journal := .renamed id, active := [], done := s.done ++ [(id, s.active)] }
  | .upsert, .renamed id, .finished =>
    some { s.withRegistry (registerSealed s.store.files s.store.walRegistry id) with
      journal := .upserted id }
  | .reopen, .upserted id, .finished =>
    some { s.withFiles (openOdirect s.store.files) with journal := .reopened id }
  | .registerNext, .reopened id, .finished =>
    some { s.withRegistry (registerActive s.store.walRegistry (id + 1)) with
      journal := .ready (id + 1) 0 }
  | _, _, _ => none

/-- The entry side may change at any time: a segment file is written, `entry_index` takes
any contents and migrated keys leave `wal_index`. -/
def flushed (st : Store) (index : FjallIndex) (segId : SegmentId) (bytes : Bytes)
    (migrated : List Key) : Store :=
  { st with
    files := st.files.put (.entrySeg segId) bytes
    entryIndex := index
    walIndex := migrated.foldl FjallIndex.deleteLocation st.walIndex }

def step (s : State) (a : Act) : Option State :=
  match a with
  | .flush index segId bytes migrated =>
    some { s with store := flushed s.store index segId bytes migrated }
  | .crash =>
    some { s with
      store := { s.store with cache := .new s.store.cache.flushThreshold }
      journal := .down, recovery := .start }
  | .batch _ | .failedBatch _ | .rename | .upsert | .reopen | .registerNext => stepServe crc32 s a
  | _ => stepBoot crc32 s a

inductive Trans (s : State) : Act → State → Prop
  | openJournal : s.journal = .down → Trans s .openJournal
      { s with
        journal := .opened (nextWalSegmentId s.store.files s.store.walRegistry)
        recovery := .start, active := [], done := [] }
  | resume (id : SegmentId) : s.journal = .opened id →
      Trans s .resume { s with journal := .resumed id (resumeOffset s.store.files) }
  | create (id : SegmentId) (off : Nat) : s.journal = .resumed id off → Trans s .create
      { s.withFiles (openOdirect s.store.files) with journal := .created id off }
  | register (id : SegmentId) (off : Nat) : s.journal = .created id off → Trans s .register
      { s.withRegistry (registerActive s.store.walRegistry id) with journal := .ready id off }
  | recoverEntries (fuel : Nat) (store : Store) : s.journal ≠ .down → s.recovery = .start →
      recoverEntrySegments crc32 fuel { s.store with stats := {} } = some store →
      Trans s (.recoverEntries fuel) { s with store, recovery := .entriesDone }
  | registerFiles : s.journal ≠ .down → s.recovery = .entriesDone →
      Trans s .registerFiles { s with store := registerWalFiles s.store, recovery := .registered }
  | listSegments : s.journal ≠ .down → s.recovery = .registered → Trans s .listSegments
      { s with recovery := .replaying (segmentsToReplay s.store.walRegistry) }
  | replayNext (fuel : Nat) (m : SegmentMeta) (todo : List SegmentMeta) (store : Store) :
      s.journal ≠ .down → s.recovery = .replaying (m :: todo) →
      replayMeta crc32 fuel s.store m = some store →
      Trans s (.replayNext fuel) { s with store, recovery := .replaying todo }
  | finish : s.journal ≠ .down → s.recovery = .replaying [] →
      Trans s .finish { s with recovery := .finished }
  | batch (b : Batch) (id : SegmentId) (off : Nat) : s.journal = .ready id off →
      s.recovery = .finished → Trans s (.batch b)
        { s.withFiles (appendBatch crc32 (s.store.files, off) b).1 with
          journal := .ready id (appendBatch crc32 (s.store.files, off) b).2
          active := s.active ++ [b] }
  | failedBatch (tail : Bytes) (id : SegmentId) (off : Nat) : s.journal = .ready id off →
      s.recovery = .finished → Trans s (.failedBatch tail)
        (s.withFiles (s.store.files.put .activeSeg
          (((s.store.files.get .activeSeg).getD []).take off ++ tail)))
  | rename (id : SegmentId) (off : Nat) (files : Table SegPath Bytes) :
      s.journal = .ready id off → s.recovery = .finished →
      renameActive s.store.files id = some files → Trans s .rename
        { s.withFiles files with
          journal := .renamed id, active := [], done := s.done ++ [(id, s.active)] }
  | upsert (id : SegmentId) : s.journal = .renamed id → s.recovery = .finished → Trans s .upsert
      { s.withRegistry (registerSealed s.store.files s.store.walRegistry id) with
        journal := .upserted id }
  | reopen (id : SegmentId) : s.journal = .upserted id → s.recovery = .finished →
      Trans s .reopen { s.withFiles (openOdirect s.store.files) with journal := .reopened id }
  | registerNext (id : SegmentId) : s.journal = .reopened id → s.recovery = .finished →
      Trans s .registerNext
        { s.withRegistry (registerActive s.store.walRegistry (id + 1)) with
          journal := .ready (id + 1) 0 }
  | flush (index : FjallIndex) (segId : SegmentId) (bytes : Bytes) (migrated : List Key) :
      Trans s (.flush index segId bytes migrated)
        { s with store := flushed s.store index segId bytes migrated }
  | crash : Trans s .crash
      { s with
        store := { s.store with cache := .new s.store.cache.flushThreshold }
        journal := .down, recovery := .start }

theorem stepBoot_trans {s t : State} {a : Act} (h : stepBoot crc32 s a = some t) :
    Trans crc32 s a t := by
  unfold stepBoot at h
  split at h <;> first | (cases h) | (obtain ⟨store, hst, rfl⟩ := Option.map_eq_some_iff.mp h)
  · exact .openJournal ‹_›
  · exact .resume _ ‹_›
  · exact .create _ _ ‹_›
  · exact .register _ _ ‹_›
  · exact .recoverEntries _ _ ‹_› ‹_› hst
  · exact .registerFiles ‹_› ‹_›
  · exact .listSegments ‹_› ‹_›
  · exact .replayNext _ _ _ _ ‹_› ‹_› hst
  · exact .finish ‹_› ‹_›

theorem stepServe_trans {s t : State} {a : Act} (h : stepServe crc32 s a = some t) :
    Trans crc32 s a t := by
  unfold stepServe at h
  split at h <;> first | (cases h) | (obtain ⟨files, hf, rfl⟩ := Option.map_eq_some_iff.mp h)
  · exact .batch _ _ _ ‹_› ‹_›
  · exact .failedBatch _ _ _ ‹_› ‹_›
  · exact .rename _ _ _ ‹_› ‹_› hf
  · exact .upsert _ ‹_› ‹_›
  · exact .reopen _ ‹_› ‹_›
  · exact .registerNext _ ‹_› ‹_›

theorem step_trans {s t : State} {a : Act} (h : step crc32 s a = some t) : Trans crc32 s a t := by
  unfold step at h
  split at h
  · cases h
    exact .flush _ _ _ _
  · cases h
    exact .crash
  all_goals first | exact stepServe_trans crc32 h | exact stepBoot_trans crc32 h

def Fresh (s : State) : Prop :=
  s.journal = .down ∧ s.recovery = .start ∧ s.store.walRegistry = .empty ∧
    s.store.walIndex = .empty ∧ s.store.files.get .activeSeg = none ∧
    (∀ id, s.store.files.get (.sealedSeg id) = none) ∧ s.active = [] ∧ s.done = []

def live (m : SegmentMeta) : Prop := m.status = .Local ∨ m.status = .Active

instance (m : SegmentMeta) : Decidable (live m) := by unfold live; infer_instance

def NoActiveRow (registry : SegmentRegistry) : Prop :=
  ∀ m ∈ registry.values, live m → m.localPath ≠ some .activeSeg

instance (registry : SegmentRegistry) : Decidable (NoActiveRow registry) := by
  unfold NoActiveRow; infer_instance

/-- A boot opens the journal only when no row is left over for `active.seg`. -/
def freshOpen (s : State) (a : Act) : Prop :=
  match a with
  | .openJournal => NoActiveRow s.store.walRegistry
  | _ => True

instance (s : State) (a : Act) : Decidable (freshOpen s a) := by
  unfold freshOpen; split <;> infer_instance

/-- The key of the record a WAL-tier read for `k` decodes; the reader does not compare it. -/
def walRead (st : Store) (k : Key) : Option Key := do
  let iv ← st.walIndex.getLocation k
  let m ← st.walRegistry.get iv.segmentId
  let path ← m.localPath
  let data ← st.files.get path
  match Segment.decodeRecord crc32 data iv.offset with
  | .ok (r, _) => some r.key
  | .error _ => none

/-- Every location stored in `wal_index` leads to a record with its key. -/
def LocationsTrue (st : Store) : Prop :=
  ∀ k iv, st.walIndex.getLocation k = some iv → walRead crc32 st k = some k

def PathsDistinct (registry : SegmentRegistry) : Prop :=
  ∀ id id' m m' path, registry.get id = some m → registry.get id' = some m' → live m → live m' →
    m.localPath = some path → m'.localPath = some path → id = id'

end Folio.WalSession
