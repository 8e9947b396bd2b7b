import Folio.BootReplay

/-! Boots, sessions and crashes in any order, with crashes also in the middle of each phase of
recovery: what `recover` leaves in `wal_index`, `entry_index` and the cache for the flush task. -/
namespace Folio.BootHandover
open KeyedTable Protocol Fjall Segment EntryCache RecoveryScan CrashRecovery Journal WalSession
open WalLocations ReplayEffect EntryRecovery RecoverTwice BootReplay ScanCompleteness
open TransitionSystem
variable (crc32 : Bytes → UInt32) {st st' : Store} {store : Store}

section Model

/-- Where a crash falls in `replay_wal_segment`: behind some of the visits, or behind the cut of
the torn tail, with some of its locations purged. The checkpoint is not written yet. -/
inductive ReplayPoint where
  | visiting (n : Nat)
  | purging (purged : List Key)

def replayedPart (st : Store) (id : SegmentId) (path : SegPath) (e : ScanEnd (List Visit)) :
    ReplayPoint → Store
  | .visiting n => (e.state.take n).foldl (replayVisit id) st
  | .purging purged =>
    let st := e.state.foldl (replayVisit id) st
    if e.torn then
      { truncateFile st path e.lastValid with
        walIndex := purged.foldl FjallIndex.deleteLocation st.walIndex }
    else st

def crashed (s : State) (store : Store) : State :=
  { s with
    store := { store with cache := .new store.cache.flushThreshold }
    journal := .down, recovery := .start }

/-- One segment in `wal_gc`; `marked` says whether the row is updated after the file is gone. -/
def collected (st : Store) (m : SegmentMeta) (marked : Bool) : Store :=
  { st with
    files := m.localPath.elim st.files st.files.del
    walRegistry :=
      if marked then (st.walRegistry.casStatus m.id .Local .Deleted).1 else st.walRegistry }

inductive Act where
  | node (a : WalSession.Act)
  | crashInEntries (index : FjallIndex) (registry : SegmentRegistry)
      (segments : List (SegmentId × Bytes))
  | crashInFiles (n : Nat)
  | crashInReplay (fuel : Nat) (point : ReplayPoint)
  | collect (id : SegmentId) (marked : Bool)

def isFlush : WalSession.Act → Bool
  | .flush _ _ _ _ => true
  | _ => false

/-- The flush loop and the offloader are spawned after `recover`. The first phase may leave any
entry side behind when it is cut off; `wal_gc` may have found any `Local` row unreferenced. -/
def step (s : State) (a : Act) : Option State :=
  match a, s.recovery with
  | .node a, recovery =>
    if isFlush a = true ∧ recovery ≠ .finished then none else WalSession.step crc32 s a
  | .crashInEntries index registry segments, .start =>
    if s.journal = .down then none
    else some (crashed s { s.store with
      files := segments.foldl (fun files e => files.put (.entrySeg e.1) e.2) s.store.files
      entryIndex := index, entryRegistry := registry })
  | .crashInFiles n, .entriesDone =>
    some (crashed s (((walSegmentIds s.store.files).take n).foldl
      (fun st id => registerWalIfAbsent st id (.sealedSeg id)) s.store))
  | .crashInReplay fuel point, .replaying (m :: _) => do
    let path ← m.localPath
    let data ← s.store.files.get path
    let cp := s.store.walIndex.getCheckpoint m.id
    let e ← scan crc32 data fuel cp cp
    some (crashed s (replayedPart s.store m.id path e point))
  | .collect id marked, .finished => do
    let m ← s.store.walRegistry.get id
    if m.status = .Local then some { s with store := collected s.store m marked } else none
  | _, _ => none

/-- A data directory in which no node has run yet; the entry side is arbitrary. -/
def Init (s : State) : Prop :=
  Fresh s ∧ s.store.cache = .new s.store.cache.flushThreshold

end Model

section Steps

structure RowsKept (st st' : Store) : Prop where
  walRows : WalRows st.walRegistry → WalRows st'.walRegistry
  row : ∀ id, (st.walRegistry.get id).isSome → (st'.walRegistry.get id).isSome
  checkpoint : ∀ id, st'.walIndex.getCheckpoint id = st.walIndex.getCheckpoint id

inductive Trans (s : State) : Act → State → Prop
  | node (a : WalSession.Act) (t : State) : (isFlush a = true → s.recovery = .finished) →
      WalSession.Trans crc32 s a t → Trans s (.node a) t
  | crash (a : Act) (store : Store) : RowsKept s.store store → Trans s a (crashed s store)
  | collect (id : SegmentId) (marked : Bool) (m : SegmentMeta) : s.recovery = .finished →
      s.store.walRegistry.get id = some m →
      Trans s (.collect id marked) { s with store := collected s.store m marked }

theorem RowsKept.of_eq (hrow : st'.walRegistry = st.walRegistry)
    (hcp : st'.walIndex.checkpoints = st.walIndex.checkpoints) : RowsKept st st' where
  walRows h := hrow ▸ h
  row id h := hrow ▸ h
  checkpoint id := by simp [FjallIndex.getCheckpoint, hcp]

theorem RowsKept.of_registered (h : Registered st st') : RowsKept st st' where
  walRows := h.walRows
  row _ := h.isSome
  checkpoint _ := by rw [h.walIndex]

theorem replayedPart_kept (st : Store) (id : SegmentId) (path : SegPath)
    (e : ScanEnd (List Visit)) (point : ReplayPoint) :
    RowsKept st (replayedPart st id path e point) := by
  have hloop (vs : List Visit) : RowsKept st (vs.foldl (replayVisit id) st) := by
    have hfr := foldl_replayVisit_frame id vs st
    exact .of_eq hfr.registry hfr.checkpoints
  cases point with
  | visiting n => exact hloop _
  | purging purged =>
    dsimp only [replayedPart]
    split_ifs
    · have hfr := foldl_replayVisit_frame id e.state st
      refine .of_eq ?_ ?_
      · dsimp only [truncateFile]
        split <;> exact hfr.registry
      · exact (FjallIndex.foldl_deleteLocation_checkpoints _ _).trans hfr.checkpoints
    · exact hloop _

theorem step_trans {s t : State} {a : Act} (h : step crc32 s a = some t) :
    Trans crc32 s a t := by
  unfold step at h
  split at h
  · split_ifs at h with hflush
    exact .node _ _ (by tauto) (WalSession.step_trans crc32 h)
  · split_ifs at h
    cases h
    exact .crash _ _ (.of_eq rfl rfl)
  · cases h
    refine .crash _ _ (.of_registered (foldl_register_registered _ _ fun id hid => ?_).1)
    rw [Option.isSome_iff_exists]
    exact (mem_walSegmentIds _ id).mp (List.mem_of_mem_take hid)
  · simp only [Option.bind_eq_bind, Option.bind_eq_some_iff] at h
    obtain ⟨path, -, data, -, e, -, h⟩ := h
    cases h
    exact .crash _ _ (replayedPart_kept _ _ _ _ _)
  · simp only [Option.bind_eq_bind, Option.bind_eq_some_iff] at h
    obtain ⟨m, hm, h⟩ := h
    split_ifs at h
    cases h
    exact .collect _ _ m ‹_› hm
  · cases h

end Steps

section Rows
variable {todo : List SegmentMeta} {m : SegmentMeta}

def opening : JournalPc → Option SegmentId
  | .opened id | .resumed id _ | .created id _ => some id
  | _ => none

def Listed (registry : SegmentRegistry) (todo : List SegmentMeta) : Prop :=
  (∀ m ∈ todo, ∃ m', registry.get m.id = some m' ∧ m'.localPath = m.localPath) ∧
    todo.Pairwise fun a b => a.id ≠ b.id

structure Base (s : State) : Prop where
  rows : WalRows s.store.walRegistry
  marked : ∀ id, s.store.walIndex.getCheckpoint id ≠ 0 → (s.store.walRegistry.get id).isSome
  down : s.journal = .down → s.recovery = .start
  cold : s.recovery = .start → s.store.cache = .new s.store.cache.flushThreshold
  opening : ∀ n, opening s.journal = some n → s.store.files.get (.sealedSeg n) = none ∧
    ∀ m, s.store.walRegistry.get n = some m → m.localPath = some .activeSeg
  todo : ∀ todo, s.recovery = .replaying todo → Listed s.store.walRegistry todo

variable {s t : State} {registry : SegmentRegistry}

theorem listed_segmentsToReplay (h : WalRows registry) :
    Listed registry (segmentsToReplay registry) := by
  refine ⟨fun m hm => ?_, segmentsToReplay_ids h.1⟩
  obtain ⟨id, hid, -⟩ := mem_segmentsToReplay hm
  exact ⟨m, by rw [h.1 id m hid, hid], rfl⟩

theorem Listed.upsert (h : Listed registry todo) (m : SegmentMeta)
    (hm : ∀ m', registry.get m.id = some m' → m'.localPath = m.localPath) :
    Listed (registry.upsert m) todo := by
  refine ⟨fun row hrow => ?_, h.2⟩
  obtain ⟨m', hm', hpath⟩ := h.1 row hrow
  dsimp only [SegmentRegistry.upsert]
  rw [Table.get_put]
  split_ifs with hid
  · exact ⟨m, rfl, (hm m' (hid ▸ hm')).symm.trans hpath⟩
  · exact ⟨m', hm', hpath⟩

theorem isSome_upsert {id : SegmentId} (m : SegmentMeta) (h : (registry.get id).isSome) :
    ((registry.upsert m).get id).isSome := by
  dsimp only [SegmentRegistry.upsert]
  rw [Table.get_put]
  split_ifs
  · rfl
  · exact h

theorem Base.frame (h : Base s) (hreg : t.store.walRegistry = s.store.walRegistry)
    (hcp : ∀ id, t.store.walIndex.getCheckpoint id = s.store.walIndex.getCheckpoint id)
    (hsealed : ∀ n, s.store.files.get (.sealedSeg n) = none →
      t.store.files.get (.sealedSeg n) = none)
    (hopen : ∀ n, BootHandover.opening t.journal = some n →
      BootHandover.opening s.journal = some n)
    (hdown : t.journal = .down → t.recovery = .start)
    (hcold : t.recovery = .start → t.store.cache = .new t.store.cache.flushThreshold)
    (htodo : ∀ todo, t.recovery = .replaying todo → Listed s.store.walRegistry todo) :
    Base t where
  rows := hreg ▸ h.rows
  marked id hid := by
    rw [hreg]
    exact h.marked id (hcp id ▸ hid)
  down := hdown
  cold := hcold
  opening n hn := by
    rw [hreg]
    exact (h.opening n (hopen n hn)).imp_left (hsealed n)
  todo rows hrows := by
    rw [hreg]
    exact htodo rows hrows

theorem Base.serve (h : Base s) (m : SegmentMeta) (hm : ∀ path, m.localPath = some path →
      ∀ j, path ≠ .entrySeg j) (hr : t.recovery = .finished)
    (hopen : BootHandover.opening t.journal = none) (hdown : t.journal ≠ .down)
    (hreg : t.store.walRegistry = s.store.walRegistry.upsert m)
    (hcp : t.store.walIndex = s.store.walIndex) : Base t where
  rows := hreg ▸ h.rows.upsert m hm
  marked id hid := by
    rw [hreg]
    exact isSome_upsert m (h.marked id (hcp ▸ hid))
  down hj := absurd hj hdown
  cold hstart := by simp [hr] at hstart
  opening n hn := by simp [hopen] at hn
  todo rows hrows := by simp [hr] at hrows

theorem base_init (h : Init s) : Base s := by
  obtain ⟨⟨hj, hr, hreg, hidx, -⟩, hcache⟩ := h
  refine ⟨hreg ▸ walRows_empty, fun id hid => ?_, fun _ => hr, fun _ => hcache, fun n hn => ?_,
    fun rows hrows => ?_⟩
  · simp [hidx, FjallIndex.getCheckpoint, FjallIndex.empty] at hid
  · simp [hj, opening] at hn
  · simp [hr] at hrows

theorem Base.openJournal (h : Base s) (hj : s.journal = .down) : Base { s with
    journal := .opened (nextWalSegmentId s.store.files s.store.walRegistry)
    recovery := .start, active := [], done := [] } where
  rows := h.rows
  marked := h.marked
  down hd := by cases hd
  cold _ := h.cold (h.down hj)
  opening n hn := by
    cases hn
    have hfree := mt (lt_nextWalSegmentId_iff s.store.files s.store.walRegistry _).mpr
      (Nat.lt_irrefl (nextWalSegmentId s.store.files s.store.walRegistry))
    simp only [not_exists, not_and, not_or] at hfree
    obtain ⟨hfile, hrow⟩ := hfree _ (Nat.le_refl _)
    exact ⟨Option.eq_none_iff_forall_ne_some.mpr hfile, fun m hm => absurd hm (hrow m)⟩
  todo rows hrows := by cases hrows

theorem Base.register (h : Base s) {id : SegmentId} {off : Nat} (hj : s.journal = .created id off) :
    Base { s.withRegistry (registerActive s.store.walRegistry id) with
      journal := .ready id off } where
  rows := h.rows.upsert _ fun path hpath j => by
    cases hpath
    simp
  marked j hid := isSome_upsert _ (h.marked j hid)
  down hd := by cases hd
  cold := h.cold
  opening n hn := by cases hn
  todo rows hrows := (h.todo rows hrows).upsert _ fun m hm =>
    (h.opening id (by rw [hj, BootHandover.opening])).2 m hm

theorem Base.registerFiles (h : Base s) (hj : s.journal ≠ .down) :
    Base { s with store := registerWalFiles s.store, recovery := .registered } := by
  have hreg := (registerWalFiles_registered s.store).1
  constructor
  case rows => exact hreg.walRows h.rows
  case marked =>
    intro id hid
    dsimp only at hid
    rw [hreg.walIndex] at hid
    exact hreg.isSome (h.marked id hid)
  case down => exact fun hd => absurd hd hj
  case cold => simp
  case opening =>
    intro n hn
    obtain ⟨hnone, hrow⟩ := h.opening n hn
    dsimp only
    rw [hreg.files]
    refine ⟨hnone, fun m hm => ?_⟩
    rcases hreg.new n m hm with hold | ⟨-, -, path, hpath, rfl | ⟨rfl, hfile⟩⟩
    · exact hrow m hold
    · exact hpath
    · simp [hnone] at hfile
  case todo => simp

theorem Base.replayNext (h : Base s) {fuel : Nat}
    (hj : s.journal ≠ .down) (hr : s.recovery = .replaying (m :: todo))
    (hrun : replayMeta crc32 fuel s.store m = some store) :
    Base { s with store, recovery := .replaying todo } := by
  have hk := replayMeta_kept hrun
  obtain ⟨hrows, hids⟩ := h.todo _ hr
  constructor
  case rows => exact hk.walRegistry ▸ h.rows
  case marked =>
    intro id hid
    dsimp only at hid ⊢
    rw [hk.walRegistry]
    by_cases heq : id = m.id
    · obtain ⟨m', hm', -⟩ := hrows m List.mem_cons_self
      simp [heq, hm']
    · rw [hk.checkpoint id fun m' hm' => by simp_all [eq_comm]] at hid
      exact h.marked id hid
  case down => exact fun hd => absurd hd hj
  case cold => simp
  case opening =>
    intro n hn
    dsimp only
    rw [hk.walRegistry]
    exact (h.opening n hn).imp_left (hk.absent _)
  case todo =>
    intro rows hrest
    cases hrest
    dsimp only
    rw [hk.walRegistry]
    exact ⟨fun m' hm' => hrows m' (List.mem_cons_of_mem m hm'), (List.pairwise_cons.mp hids).2⟩

theorem Base.crashed (h : Base s) (hk : RowsKept s.store store) : Base (crashed s store) where
  rows := hk.walRows h.rows
  marked id hid := by
    apply hk.row id (h.marked id _)
    rw [← hk.checkpoint]
    exact hid
  down _ := rfl
  cold _ := rfl
  opening n hn := by cases hn
  todo rows hrows := by cases hrows

theorem casStatus_cases (registry : SegmentRegistry) (id : SegmentId)
    (expected new : SegmentStatus) :
    (registry.casStatus id expected new).1 = registry ∨ ∃ m, registry.get id = some m ∧
      (registry.casStatus id expected new).1 = registry.upsert { m with status := new } := by
  unfold SegmentRegistry.casStatus SegmentRegistry.cas
  split
  · exact .inl rfl
  · split_ifs
    · exact .inl rfl
    · exact .inr ⟨_, ‹_›, rfl⟩

theorem Base.collect (h : Base s) {marked : Bool} (hr : s.recovery = .finished) :
    Base { s with store := collected s.store m marked } := by
  have hfiles (n : SegmentId) (hn : s.store.files.get (.sealedSeg n) = none) :
      (collected s.store m marked).files.get (.sealedSeg n) = none := by
    dsimp only [collected]
    cases m.localPath with
    | none => exact hn
    | some path =>
      dsimp only [Option.elim]
      rw [Table.get_del]
      split_ifs
      · rfl
      · exact hn
  have hdown : s.journal ≠ .down := fun hd => by simp [h.down hd] at hr
  have hsame (heq : (collected s.store m marked).walRegistry = s.store.walRegistry) :
      Base { s with store := collected s.store m marked } :=
    h.frame heq (fun _ => rfl) hfiles (fun _ hn => hn) (fun hd => absurd hd hdown)
      (fun hstart => by simp [hr] at hstart) h.todo
  cases marked with
  | false => exact hsame rfl
  | true =>
    rcases casStatus_cases s.store.walRegistry m.id .Local .Deleted with
      heq | ⟨old, hold, heq⟩
    · exact hsame heq
    · have hid := h.rows.1 _ _ hold
      have hnew : (collected s.store m true).walRegistry =
          s.store.walRegistry.upsert { old with status := .Deleted } := heq
      refine ⟨?_, fun id hcp => ?_, fun hd => absurd hd hdown, fun hstart => by simp [hr] at hstart,
        fun n hn => ⟨hfiles n (h.opening n hn).1, fun m' hm' => ?_⟩,
        fun rows hrows => by simp [hr] at hrows⟩
      · dsimp only
        rw [hnew]
        exact h.rows.upsert _ fun path => h.rows.2 m.id old path hold
      · dsimp only
        rw [hnew]
        exact isSome_upsert _ (h.marked id hcp)
      · dsimp only at hm'
        rw [hnew] at hm'
        dsimp only [SegmentRegistry.upsert] at hm'
        rw [Table.get_put] at hm'
        split_ifs at hm' with heq'
        · cases hm'
          apply (h.opening n hn).2 old
          rw [heq', hid, hold]
        · exact (h.opening n hn).2 m' hm'

theorem base_node {a : WalSession.Act} (h : Base s)
    (hflush : isFlush a = true → s.recovery = .finished) (ht : WalSession.Trans crc32 s a t) :
    Base t := by
  have hup {n : JournalPc} (hj : s.journal = n) (hn : n ≠ .down) : s.journal ≠ .down := hj ▸ hn
  cases ht with
  | openJournal hj => exact h.openJournal hj
  | resume id hj =>
    exact h.frame rfl (fun _ => rfl) (fun _ hn => hn) (by simp [hj, opening])
      (fun hd => by cases hd) h.cold h.todo
  | create id off hj =>
    exact h.frame rfl (fun _ => rfl)
      (fun n hn => (openOdirect_get _ _ (by simp)).trans hn) (by simp [hj, opening])
      (fun hd => by cases hd) h.cold h.todo
  | register id off hj => exact h.register hj
  | recoverEntries fuel store hj hr hrun =>
    have hw := recoverEntries_sameWal crc32 hrun
    exact h.frame hw.registry (fun _ => by dsimp only; rw [hw.index])
      (fun n hn => (hw.files _ (by simp)).trans hn) (fun _ hn => hn) (fun hd => absurd hd hj)
      (fun hstart => by cases hstart) (fun _ hrows => by cases hrows)
  | registerFiles hj hr => exact h.registerFiles hj
  | listSegments hj hr =>
    refine h.frame rfl (fun _ => rfl) (fun _ hn => hn) (fun _ hn => hn) (fun hd => absurd hd hj)
      (fun hstart => by cases hstart) fun rows hrows => ?_
    cases hrows
    exact listed_segmentsToReplay h.rows
  | replayNext fuel m todo store hj hr hrun => exact h.replayNext crc32 hj hr hrun
  | finish hj hr =>
    exact h.frame rfl (fun _ => rfl) (fun _ hn => hn) (fun _ hn => hn) (fun hd => absurd hd hj)
      (fun hstart => by cases hstart) (fun _ hrows => by cases hrows)
  | batch b id off hj hr =>
    exact h.frame rfl (fun _ => rfl) (fun n hn => (Table.get_put_ne _ _ (by simp)).trans hn)
      (by simp [opening]) (fun hd => by cases hd) (by simp [hr, State.withFiles])
      (by simp [hr, State.withFiles])
  | failedBatch tail id off hj hr =>
    exact h.frame rfl (fun _ => rfl) (fun n hn => (Table.get_put_ne _ _ (by simp)).trans hn)
      (fun _ hn => hn) (fun hd => absurd hd (hup hj (by simp))) (by simp [hr, State.withFiles])
      (by simp [hr, State.withFiles])
  | rename id off files hj hr hf =>
    exact ⟨h.rows, h.marked, fun hd => by (cases hd), by simp [hr, State.withFiles],
      by simp [opening], by simp [hr, State.withFiles]⟩
  | upsert id hj hr =>
    exact h.serve ⟨id, .Wal, .Local, some (.sealedSeg id), none, _⟩
      (fun path hpath j => by cases hpath; simp) hr rfl (by simp) rfl rfl
  | reopen id hj hr =>
    exact h.frame rfl (fun _ => rfl) (fun n hn => (openOdirect_get _ _ (by simp)).trans hn)
      (by simp [opening]) (fun hd => by cases hd) (by simp [hr, State.withFiles])
      (by simp [hr, State.withFiles])
  | registerNext id hj hr =>
    exact h.serve ⟨id + 1, .Wal, .Active, some .activeSeg, none, 0⟩
      (fun path hpath j => by cases hpath; simp) hr rfl (by simp) rfl rfl
  | flush index segId bytes migrated =>
    have hr := hflush rfl
    refine h.frame rfl (fun _ => ?_) (fun n hn => (Table.get_put_ne _ _ (by simp)).trans hn)
      (fun _ hn => hn) h.down (by simp [hr]) (by simp [hr])
    simp [flushed, FjallIndex.getCheckpoint, FjallIndex.foldl_deleteLocation_checkpoints]
  | crash => exact h.crashed (.of_eq rfl rfl)

theorem base_step {a : Act} (h : Base s) (ht : Trans crc32 s a t) : Base t := by
  cases ht with
  | node a t hflush ht => exact base_node crc32 h hflush ht
  | crash a store hk => exact h.crashed hk
  | collect id marked m hr hm => exact h.collect hr

end Rows

section Boot
variable {fuel : Nat}

/-- The state `recover` starts from: every checkpoint belongs to its file, the WAL holds one
payload for each key, and what is still in `wal_index` lies where it says, comes up again in the
replay, and is neither in `entry_index` nor in an EntrySegment. -/
structure Resumable (st : Store) : Prop where
  track : ∀ id m path data, st.walRegistry.get id = some m → m.localPath = some path →
    st.files.get path = some data → OnTrack crc32 data (st.walIndex.getCheckpoint id)
  one : ∀ path path' data data' v v', (∀ j, path ≠ .entrySeg j) → (∀ j, path' ≠ .entrySeg j) →
    st.files.get path = some data → st.files.get path' = some data' → Seen crc32 data v →
    Seen crc32 data' v' → v.record.key = v'.record.key → v.record.payload = v'.record.payload
  located : Located crc32 st
  awaited : ∀ k, (st.walIndex.getLocation k).isSome →
    Awaits crc32 (segmentsToReplay st.walRegistry) st k
  apart : ∀ k, (st.walIndex.getLocation k).isSome → st.entryIndex.getLocation k = none ∧
    ∀ id data v, st.files.get (.entrySeg id) = some data → Seen crc32 data v → v.record.key ≠ k

def resumable (s : State) (a : Act) : Prop :=
  match a with
  | .node (.recoverEntries _) => Resumable crc32 s.store
  | _ => True

noncomputable instance (s : State) (a : Act) : Decidable (resumable crc32 s a) :=
  Classical.propDecidable _

def pendingRows (s : State) : Option (List SegmentMeta) :=
  match s.recovery with
  | .entriesDone | .registered => some (segmentsToReplay s.store.walRegistry)
  | .replaying todo => some todo
  | _ => none

def Handing (s : State) : Prop :=
  ∀ todo, pendingRows s = some todo →
    ∃ P, Tracked crc32 P s.store ∧ Held crc32 P todo s.store

variable {crc32} {s t : State}

theorem Resumable.tracked {st : Store} (h : Resumable crc32 st) :
    ∃ P, Tracked crc32 P st := by
  classical
  let shows (k : Key) (p : Bytes) : Prop := ∃ path data v, (∀ j, path ≠ .entrySeg j) ∧
    st.files.get path = some data ∧ Seen crc32 data v ∧ v.record.key = k ∧ v.record.payload = p
  refine ⟨fun k => if hk : ∃ p, shows k p then hk.choose else [], h.track,
    fun path data v hpath hdata hv => ?_⟩
  have hk : ∃ p, shows v.record.key p := ⟨_, path, data, v, hpath, hdata, hv, rfl, rfl⟩
  rw [dif_pos hk]
  obtain ⟨path', data', v', hpath', hdata', hv', hkey, hpay⟩ := hk.choose_spec
  rw [← hpay]
  exact h.one path path' data data' v v' hpath hpath' hdata hdata' hv hv' hkey.symm

/-- The first phase enters a key only where it has scanned a record of it. -/
theorem Resumable.unentered {k : Key} (h : Resumable crc32 st)
    (hrun : recoverEntrySegments crc32 fuel { st with stats := {} } = some st')
    (hk : (st.walIndex.getLocation k).isSome) : st'.entryIndex.getLocation k = none := by
  obtain ⟨hnone, hunseen⟩ := h.apart k hk
  rw [(recoverEntrySegments_effect hrun).location k, hnone]
  obtain ⟨hfold, -⟩ | ⟨iv, -, -, e, hscan, v, hv, hkey⟩ :=
    @foldl_stepLocation_none crc32 fuel st.files _ k (entrySegmentIds_sorted.imp Nat.ne_of_lt)
  · exact hfold
  · obtain ⟨data, hdata, he⟩ := scanOf_eq_some.mp hscan
    exact absurd hkey (hunseen _ data v hdata ⟨fuel, e, he, hv⟩)

theorem Resumable.handing (h : Resumable crc32 st)
    (hrows : WalRows st.walRegistry) (hcold : st.cache = .new st.cache.flushThreshold)
    (hrun : recoverEntrySegments crc32 fuel { st with stats := {} } = some st') :
    ∃ P, Tracked crc32 P st' ∧ Held crc32 P (segmentsToReplay st'.walRegistry) st' := by
  have hw := recoverEntries_sameWal crc32 hrun
  have hcache : st'.cache = st.cache := (recoverEntrySegments_effect hrun).cache
  have hempty (k : Key) : st'.cache.get k = none := by
    rw [hcache, hcold]
    rfl
  have hfile {id : SegmentId} {m : SegmentMeta} {path : SegPath}
      (hm : st.walRegistry.get id = some m) (hpath : m.localPath = some path) :
      st'.files.get path = st.files.get path := hw.files path (hrows.2 id m path hm hpath)
  obtain ⟨P, hP⟩ := h.tracked
  refine ⟨P, ⟨fun id m path data hm hpath hdata => ?_, fun path data v hpath hdata hv => ?_⟩, ?_⟩
  · rw [hw.registry] at hm
    rw [hfile hm hpath] at hdata
    rw [hw.index]
    exact hP.track id m path data hm hpath hdata
  · rw [hw.files path hpath] at hdata
    exact hP.one path data v hpath hdata hv
  · rw [hw.registry]
    refine ⟨by rw [hcache, hcold]; rfl, fun k hk => ?_, fun k hk => .inr ?_, fun k p hp => ?_,
      fun k hk => ?_, fun k iv hk => ?_⟩
    · simp [hempty] at hk
    · rw [hw.index] at hk
      obtain ⟨m, hm, path, data, v, hpath, hdata, hrest⟩ := h.awaited k hk
      obtain ⟨id, hid, -⟩ := mem_segmentsToReplay hm
      refine ⟨m, hm, path, data, v, hpath, (hfile hid hpath).trans hdata, ?_⟩
      rwa [hw.index]
    · simp [hempty] at hp
    · rw [hw.index] at hk
      exact h.unentered hrun hk
    · rw [hw.index] at hk
      obtain ⟨m, path, data, v, hm, hpath, hdata, hrest⟩ := h.located k iv hk
      exact ⟨m, path, data, v, by rw [hw.registry, hm], hpath, (hfile hm hpath).trans hdata, hrest⟩

theorem Handing.replayNext (h : Handing crc32 s) (hb : Base s) {m : SegmentMeta}
    {todo : List SegmentMeta} (hr : s.recovery = .replaying (m :: todo))
    (hrun : replayMeta crc32 fuel s.store m = some store) :
    ∃ P, Tracked crc32 P store ∧ Held crc32 P todo store := by
  obtain ⟨P, htr, hheld⟩ := h (m :: todo) (by simp [pendingRows, hr])
  refine ⟨P, ?_⟩
  obtain ⟨rfl, hnone⟩ | ⟨path, data, hpath, hfile, hrun⟩ := replayMeta_file crc32 hrun
  · -- nothing waits for a row whose file is gone
    refine ⟨htr, { hheld with waiting := fun k hk => (hheld.waiting k hk).imp_right ?_ }⟩
    rintro ⟨m', hm', path, data, v, hpath, hdata, hrest⟩
    rcases List.mem_cons.mp hm' with rfl | hm'
    · simp [hnone path hpath] at hdata
    · exact ⟨m', hm', path, data, v, hpath, hdata, hrest⟩
  · obtain ⟨hrows, hids⟩ := hb.todo _ hr
    obtain ⟨row, hrow, hsame⟩ := hrows m List.mem_cons_self
    obtain ⟨e, he, hreplayed⟩ := replayWalSegment_replayed crc32 hfile hrun
    have hpath' := hsame.trans hpath
    refine ⟨htr.replay hrow hpath' hfile he hreplayed,
      hheld.replay htr hrow hsame hpath (fun m' hm' heq => ?_)
        (hb.rows.2 m.id row path hrow hpath') hfile he hreplayed⟩
    exact (List.pairwise_cons.mp hids).1 m' hm' heq.symm

theorem Handing.grown (h : Handing crc32 s) (hb : Base s) (hb' : Base t)
    (hg : Grown s.store t.store) (hr : t.recovery = s.recovery) : Handing crc32 t := by
  intro todo' htodo'
  have hlist := hg.segmentsToReplay hb.rows hb'.rows
  have hfrom : ∃ todo, pendingRows s = some todo ∧
      ∀ m ∈ todo, ∃ m' ∈ todo', m'.id = m.id ∧ m'.localPath = m.localPath := by
    unfold pendingRows at htodo' ⊢
    rw [hr] at htodo'
    cases hrec : s.recovery with
    | start => simp [hrec] at htodo'
    | finished => simp [hrec] at htodo'
    | replaying todo =>
      simp only [hrec, Option.some.injEq] at htodo'
      exact ⟨todo, rfl, fun m hm => ⟨m, htodo' ▸ hm, rfl, rfl⟩⟩
    | entriesDone | registered =>
      simp only [hrec, Option.some.injEq] at htodo'
      exact ⟨_, rfl, htodo' ▸ hlist⟩
  obtain ⟨todo, htodo, hsub⟩ := hfrom
  obtain ⟨P, htr, hheld⟩ := h todo htodo
  exact ⟨P, htr.grown hg hb.marked, hheld.grown hg hsub⟩

theorem handing_of_none (h : pendingRows t = none) : Handing crc32 t := by
  intro todo htodo
  simp [h] at htodo

theorem handing_node {a : WalSession.Act} (h : Handing crc32 s) (hb : Base s) (hb' : Base t)
    (hg : resumable crc32 s (.node a)) (hflush : isFlush a = true → s.recovery = .finished)
    (ht : WalSession.Trans crc32 s a t) : Handing crc32 t := by
  cases ht with
  | openJournal hj => exact handing_of_none rfl
  | resume id hj => exact h
  | create id off hj => exact h.grown hb hb' (grown_create s.store) rfl
  | register id off hj =>
    have hrow := (hb.opening id (by rw [hj, opening])).2
    exact h.grown hb hb' (grown_register s.store id hrow) rfl
  | recoverEntries fuel store hj hr hrun =>
    intro todo htodo
    cases htodo
    exact Resumable.handing hg hb.rows (hb.cold hr) hrun
  | registerFiles hj hr =>
    intro todo htodo
    cases htodo
    obtain ⟨P, htr, hheld⟩ := h _ (by rw [pendingRows, hr])
    have hgrown := grown_registerFiles s.store
    exact ⟨P, htr.grown hgrown hb.marked,
      hheld.grown hgrown (hgrown.segmentsToReplay hb.rows hb'.rows)⟩
  | listSegments hj hr =>
    intro todo htodo
    cases htodo
    exact h _ (by rw [pendingRows, hr])
  | replayNext fuel m rest store hj hr hrun =>
    intro todo htodo
    cases htodo
    exact h.replayNext hb hr hrun
  | finish hj hr => exact handing_of_none rfl
  | batch b id off hj hr => exact handing_of_none (by simp [pendingRows, State.withFiles, hr])
  | failedBatch tail id off hj hr =>
    exact handing_of_none (by simp [pendingRows, State.withFiles, hr])
  | rename id off files hj hr hf =>
    exact handing_of_none (by simp [pendingRows, State.withFiles, hr])
  | upsert id hj hr => exact handing_of_none (by simp [pendingRows, State.withRegistry, hr])
  | reopen id hj hr => exact handing_of_none (by simp [pendingRows, State.withFiles, hr])
  | registerNext id hj hr => exact handing_of_none (by simp [pendingRows, State.withRegistry, hr])
  | flush index segId bytes migrated =>
    exact handing_of_none (by simp [pendingRows, hflush rfl])
  | crash => exact handing_of_none rfl

theorem handing_step {a : Act} (h : Handing crc32 s) (hb : Base s) (hb' : Base t)
    (hg : resumable crc32 s a) (ht : Trans crc32 s a t) : Handing crc32 t := by
  cases ht with
  | node a t hflush ht => exact handing_node h hb hb' hg hflush ht
  | crash a store hk => exact handing_of_none rfl
  | collect id marked m hr hm => exact handing_of_none (by simp [pendingRows, hr])

theorem reach_handing (h : Reach (guarded (resumable crc32) (step crc32)) Init s) :
    Base s ∧ Handing crc32 s := by
  refine Reach.invariant (P := fun s => Base s ∧ Handing crc32 s) (fun s hs => ?_) ?_ h
  · have hr : s.recovery = .start := hs.1.2.1
    exact ⟨base_init hs, handing_of_none (by simp [pendingRows, hr])⟩
  · intro s a t hinv hst
    obtain ⟨hg, hst⟩ := (guarded_eq_some (resumable crc32)).mp hst
    have ht := step_trans crc32 hst
    have hb' := base_step crc32 hinv.1 ht
    exact ⟨hb', handing_step hinv.2 hinv.1 hb' hg ht⟩

variable (crc32) in
/-- What the flush task finds: `wal_index` and the cache have the same keys, none of them in
`entry_index`; each cached payload is that of the record at the key's location; and the flush of
the hot tier, in whatever order the map drains, deletes every location. -/
structure Handover (st : Store) : Prop where
  keys : ∀ k, (st.walIndex.getLocation k).isSome ↔ (st.cache.get k).isSome
  payload : ∀ k iv p, st.walIndex.getLocation k = some iv → st.cache.get k = some p →
    ∃ m path data r n, st.walRegistry.get iv.segmentId = some m ∧ m.localPath = some path ∧
      st.files.get path = some data ∧ decodeRecord crc32 data iv.offset = .ok (r, n) ∧
      r.key = k ∧ r.payload = p
  apart : ∀ k, (st.walIndex.getLocation k).isSome → st.entryIndex.getLocation k = none
  flush : ∀ order : List (Key × Bytes), order.Perm st.cache.hot.entries → ∀ k,
    ((order.map Prod.fst).foldl FjallIndex.deleteLocation st.walIndex).getLocation k = none

theorem handover_of_held {P : Key → Bytes} {st : Store} (h : Held crc32 P [] st)
    (htr : Tracked crc32 P st) (hrows : WalRows st.walRegistry) : Handover crc32 st := by
  have hkeys (k : Key) : (st.walIndex.getLocation k).isSome ↔ (st.cache.get k).isSome := by
    refine ⟨fun hk => (h.waiting k hk).resolve_right ?_, h.cached k⟩
    rintro ⟨m, hm, -⟩
    simp at hm
  refine ⟨hkeys, fun k iv p hk hp => ?_, h.apart, fun order horder k => ?_⟩
  · obtain ⟨m, path, data, v, hm, hpath, hdata, hv, hoff, hkey⟩ := h.located k iv hk
    have hone := htr.one path data v (hrows.2 _ m path hm hpath) hdata hv
    obtain ⟨fuel, e, he, hmem⟩ := hv
    refine ⟨m, path, data, v.record, v.len, hm, hpath, hdata, ?_, hkey, ?_⟩
    · rw [← hoff]
      exact (scan_sound crc32 he v hmem).2.2
    · rw [hone, hkey, h.payload k p hp]
  · rw [FjallIndex.foldl_deleteLocation]
    split_ifs with hk
    · rfl
    · by_contra hloc
      have hcached := (hkeys k).mp (Option.isSome_iff_ne_none.mpr hloc)
      obtain ⟨p, hp⟩ := Option.isSome_iff_exists.mp hcached
      have hhot : st.cache.hot.get k = some p := by simpa [EntrySegmentCache.get, h.warm] using hp
      have hmem := horder.mem_iff.mpr ((Table.mem_entries_iff _ _ _).mpr hhot)
      exact hk (List.mem_map.mpr ⟨_, hmem, rfl⟩)

/-- In every run in which `recover` is only started from a resumable state, the end of `recover`
hands every unflushed entry over. -/
theorem recovery_hands_over (hreach : Reach (guarded (resumable crc32) (step crc32)) Init s)
    (hfinish : step crc32 s (.node .finish) = some t) : Handover crc32 t.store := by
  obtain ⟨hb, hh⟩ := reach_handing hreach
  have ht : WalSession.Trans crc32 s .finish t := WalSession.step_trans crc32 hfinish
  cases ht with
  | finish hj hr =>
    obtain ⟨P, htr, hheld⟩ := hh [] (by rw [pendingRows, hr])
    exact handover_of_held hheld htr hb.rows

end Boot

section Runs

def OneRecord (st : Store) : Prop :=
  st.files.keys = [.activeSeg] ∧ (∀ n ∈ st.walIndex.checkpoints.values, n = 0) ∧
    st.entryIndex.locations.keys = [] ∧
    ∃ e ∈ scan Crc32.crc32 ((st.files.get .activeSeg).getD []) 4 0 0, e.state.length ≤ 1 ∧
      ∀ x ∈ st.walIndex.locations.entries,
        (∃ m ∈ st.walRegistry.get x.2.segmentId, live m ∧ m.localPath = some .activeSeg) ∧
        ∃ v ∈ e.state, v.pos = x.2.offset ∧ v.record.key = x.1

instance (st : Store) : Decidable (OneRecord st) := by unfold OneRecord; infer_instance

theorem OneRecord.resumable {st : Store} (h : OneRecord st) : Resumable Crc32.crc32 st := by
  obtain ⟨hfiles, hzero, hentries, e, he, hlen, hlocs⟩ := h
  obtain ⟨data, hdata⟩ := (Table.mem_keys_iff st.files .activeSeg).mp (by simp [hfiles])
  have hscan : scan Crc32.crc32 data 4 0 0 = some e := by simpa [hdata] using he
  have hcp (id : SegmentId) : st.walIndex.getCheckpoint id = 0 := by
    unfold FjallIndex.getCheckpoint
    cases hn : st.walIndex.checkpoints.get id with
    | none => rfl
    | some n => exact hzero n ((Table.mem_values_iff _ n).mpr ⟨id, hn⟩)
  have hactive {path : SegPath} {d : Bytes} (hd : st.files.get path = some d) : d = data := by
    have hpath : path = .activeSeg := by
      simpa [hfiles] using (Table.mem_keys_iff st.files path).mpr ⟨d, hd⟩
    rw [hpath, hdata] at hd
    exact (Option.some.inj hd).symm
  have hloc {k : Key} {iv : IndexValue} (hk : st.walIndex.getLocation k = some iv) :=
    hlocs (k, iv) ((Table.mem_entries_iff _ _ _).mpr hk)
  constructor
  case track => exact fun id _ _ _ _ _ _ => .inl (hcp id)
  case one =>
    intro path path' d d' v v' _ _ hd hd' hv hv' _
    rw [hactive hd, seen_iff hscan] at hv
    rw [hactive hd', seen_iff hscan] at hv'
    match hstate : e.state, hlen with
    | [], _ => simp [hstate] at hv
    | [u], _ =>
      simp only [hstate, List.mem_singleton] at hv hv'
      rw [hv, hv']
  case located =>
    intro k iv hk
    obtain ⟨⟨m, hm, -, hpath⟩, v, hv, hoff, hkey⟩ := hloc hk
    exact ⟨m, _, data, v, hm, hpath, hdata, (seen_iff hscan v).mpr hv, hoff, hkey⟩
  case awaited =>
    intro k hk
    obtain ⟨iv, hiv⟩ := Option.isSome_iff_exists.mp hk
    obtain ⟨⟨m, hm, hlive, hpath⟩, v, hv, -, hkey⟩ := hloc hiv
    refine ⟨m, mem_segmentsToReplay_of_live hm hlive, _, data, v, hpath, hdata,
      (seen_iff hscan v).mpr hv, hkey, ?_⟩
    rw [hcp]
    exact Nat.zero_le _
  case apart =>
    refine fun k _ => ⟨Option.eq_none_iff_forall_ne_some.mpr fun iv hiv => ?_,
      fun id d v hd _ _ => ?_⟩
    · simpa [hentries] using (Table.mem_keys_iff st.entryIndex.locations k).mpr ⟨iv, hiv⟩
    · simpa [hfiles] using (Table.mem_keys_iff st.files (.entrySeg id)).mpr ⟨d, hd⟩

theorem blankNode_init : Init blankNode := ⟨blankNode_fresh, rfl⟩

def openActs : List Act := [.node .openJournal, .node .resume, .node .create, .node .register]

def recoverActs (n : Nat) : List Act :=
  [.node (.recoverEntries 1), .node .registerFiles, .node .listSegments] ++
    List.replicate n (.node (.replayNext 4))

def oneRecordBoot (s : State) (a : Act) : Prop :=
  match a with
  | .node (.recoverEntries _) => OneRecord s.store
  | _ => True

instance (s : State) (a : Act) : Decidable (oneRecordBoot s a) := by
  unfold oneRecordBoot; split <;> infer_instance

theorem oneRecordBoot_resumable (s : State) (a : Act) (h : oneRecordBoot s a) :
    resumable Crc32.crc32 s a := by
  unfold resumable
  split
  · exact OneRecord.resumable h
  · trivial

/- The second boot crashes between its first record and the checkpoint. -/
theorem interrupted_replay_handed_over :
    ∃ s t, Reach (guarded (resumable Crc32.crc32) (step Crc32.crc32)) Init s ∧
      step Crc32.crc32 s (.node .finish) = some t ∧ (t.store.cache.get (1, 0)).isSome = true ∧
      Handover Crc32.crc32 t.store := by
  obtain ⟨s, hreach, t, hfinish, hcached⟩ := reach_check
    (guarded oneRecordBoot (step Crc32.crc32)) blankNode_init
    (fun s => ∃ t ∈ step Crc32.crc32 s (.node .finish),
      (t.store.cache.get (1, 0)).isSome = true)
    (openActs ++ recoverActs 1 ++ [.node .finish, .node (.batch plainBatch), .node .crash] ++
      openActs ++ recoverActs 0 ++ [.crashInReplay 4 (.visiting 1)] ++ openActs ++ recoverActs 3)
    (by decide +kernel)
  have hreach := hreach.guarded_mono oneRecordBoot (resumable Crc32.crc32) oneRecordBoot_resumable
  exact ⟨s, t, hreach, hfinish, hcached, recovery_hands_over hreach hfinish⟩

/- The checkpoint of the sealed segment outlives the cache: the second boot after the session does
not come to the record again, and the entry stays in `wal_index` without ever being flushed. -/
theorem sealed_entry_not_cached_again :
    ∃ s t, Reach (step Crc32.crc32) Init s ∧ step Crc32.crc32 s (.node .finish) = some t ∧
      (t.store.walIndex.getLocation (1, 0)).isSome = true ∧ t.store.cache.get (1, 0) = none ∧
      ¬Handover Crc32.crc32 t.store := by
  obtain ⟨s, hreach, t, hfinish, hloc, hcache⟩ := reach_check (step Crc32.crc32) blankNode_init
    (fun s => ∃ t ∈ step Crc32.crc32 s (.node .finish),
      (t.store.walIndex.getLocation (1, 0)).isSome = true ∧ t.store.cache.get (1, 0) = none)
    (openActs ++ recoverActs 1 ++ [.node .finish, .node (.batch plainBatch), .node .rename,
        .node .upsert, .node .reopen, .node .registerNext, .node .crash] ++
      openActs ++ recoverActs 3 ++ [.node .finish, .node .crash] ++ openActs ++ recoverActs 4)
    (by decide +kernel)
  refine ⟨s, t, hreach, hfinish, hloc, hcache, fun h => ?_⟩
  simpa [hcache] using (h.keys (1, 0)).mp hloc

end Runs
end Folio.BootHandover
