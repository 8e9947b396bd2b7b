import Folio.ScanCompleteness
import Folio.WalInvariant

/-! WAL locations across restarts: the invariant along whole runs, and the run that breaks
it when a boot finds a row for `active.seg`. -/
namespace Folio.WalLocations
open KeyedTable Protocol Fjall RecoveryScan CrashRecovery Journal ReplayEffect TransitionSystem
open WalSession WalInvariant ScanCompleteness
variable {crc32 : Bytes → UInt32} {c : SegmentId} {s t : State}

section Boot

theorem PcInv.booting (h : PcInv c s) (hj : s.journal ≠ .down) (hr : s.recovery ≠ .finished) :
    Booting c s.store := by
  unfold PcInv at h
  cases hs : s.journal <;> simp only [hs] at h hj
  case down => exact absurd rfl hj
  case opened => exact h.2
  case resumed => exact h.2
  case created => exact h.2
  case ready => exact ⟨h.2.2.2 hr, h.2.2.1, not_sealed_of_active h.2.1⟩
  case renamed => exact absurd h.2.2.2.2 hr
  case upserted => exact absurd h.2.2.2 hr
  case reopened => exact absurd h.2.2.2 hr

theorem PcInv.recovering (h : PcInv c s) (hj : s.journal ≠ .down) (hr : s.recovery ≠ .finished)
    (hsame : t.journal = s.journal) (hb : Booting c t.store)
    (hrow : ActiveRow c s.store → ActiveRow c t.store) : PcInv c t := by
  unfold PcInv at h ⊢
  rw [hsame]
  cases hs : s.journal <;> simp only [hs] at h hj ⊢
  case down => exact absurd rfl hj
  case opened => exact ⟨h.1, hb⟩
  case resumed => exact ⟨h.1, hb⟩
  case created => exact ⟨h.1, hb⟩
  case ready => exact ⟨h.1, hrow h.2.1, hb.noFile, fun _ => hb.blank⟩
  case renamed => exact absurd h.2.2.2.2 hr
  case upserted => exact absurd h.2.2.2 hr
  case reopened => exact absurd h.2.2.2 hr

theorem Booting.sameWal {st st' : Store} (h : Booting c st) (hw : SameWal st st') :
    Booting c st' where
  blank := by
    unfold Blank
    rw [hw.files _ (by simp)]
    exact h.blank
  noFile := by rw [hw.files _ (by simp), h.noFile]
  notSealed := by
    unfold Sealed
    rw [hw.registry]
    exact h.notSealed

theorem foldl_registerWalIfAbsent (ids : List SegmentId) (st : Store)
    (h : ∀ id ∈ ids, ∃ m, st.walRegistry.get id = some m) :
    ids.foldl (fun st id => registerWalIfAbsent st id (.sealedSeg id)) st = st := by
  induction ids with
  | nil => rfl
  | cons id ids ih =>
    obtain ⟨m, hm⟩ := h id (by simp)
    have hid : registerWalIfAbsent st id (.sealedSeg id) = st := by
      simp [registerWalIfAbsent, hm]
    rw [List.foldl_cons, hid]
    exact ih fun j hj => h j (List.mem_cons_of_mem id hj)

theorem registerWalFiles_cases (st : Store)
    (hrow : ∀ id data, st.files.get (.sealedSeg id) = some data →
      ∃ m, st.walRegistry.get id = some m) :
    registerWalFiles st = st ∨ ∃ m stats, m.id = scanNextSegmentId st.files ∧ live m ∧
      m.localPath = some .activeSeg ∧ st.walRegistry.get m.id = none ∧
      registerWalFiles st = { st with walRegistry := st.walRegistry.put m.id m, stats } := by
  have hfold : (walSegmentIds st.files).foldl
      (fun st id => registerWalIfAbsent st id (.sealedSeg id)) st = st := by
    refine foldl_registerWalIfAbsent _ st fun id hid => ?_
    obtain ⟨data, hd⟩ := (mem_walSegmentIds _ id).mp hid
    exact hrow id data hd
  unfold registerWalFiles
  simp only [hfold]
  split_ifs with hex
  · cases hnone : st.walRegistry.get (scanNextSegmentId st.files) with
    | some m => exact .inl (by simp [registerWalIfAbsent, hnone])
    | none =>
      refine .inr ⟨⟨scanNextSegmentId st.files, .Wal, .Local, some .activeSeg, none,
        ((st.files.get .activeSeg).map List.length).getD 0⟩,
        { st.stats with walSegsRegistered := st.stats.walSegsRegistered + 1 },
        rfl, .inl rfl, rfl, hnone, ?_⟩
      simp [registerWalIfAbsent, hnone, SegmentRegistry.upsert]
  · exact .inl rfl

theorem scanNext_of_booting {st : Store} (h : StoreInv crc32 c st) (hb : Booting c st)
    (hnone : st.walRegistry.get (scanNextSegmentId st.files) = none) :
    scanNextSegmentId st.files = c := by
  have hle : ¬ c < scanNextSegmentId st.files := by
    rw [lt_scanNext_iff]
    rintro ⟨id, hge, data, hd⟩
    obtain ⟨m, hm⟩ := h.fileRow id data hd
    have hc : id = c := Nat.le_antisymm (h.upto id m hm) hge
    rw [hc, hb.noFile] at hd
    cases hd
  have hge : ¬ scanNextSegmentId st.files < c := fun hlt => by
    obtain ⟨m, hm⟩ := h.below _ hlt
    rw [hnone] at hm
    cases hm
  exact Nat.le_antisymm (Nat.le_of_not_lt hle) (Nat.le_of_not_lt hge)

end Boot

section Steps
variable {m : SegmentMeta} {store : Store} {fuel : Nat} {registry : SegmentRegistry}
  {todo : List SegmentMeta}

theorem mem_segmentsToReplay
    (h : m ∈ segmentsToReplay registry) : ∃ id, registry.get id = some m ∧ live m := by
  rw [segmentsToReplay, (List.perm_insertionSort _ _).mem_iff, List.mem_append] at h
  rcases h with h | h <;>
    obtain ⟨hv, hst⟩ := List.mem_filter.mp h <;>
    obtain ⟨id, hid⟩ := (Table.mem_values_iff _ _).mp hv
  · exact ⟨id, hid, .inl (by simpa using hst)⟩
  · exact ⟨id, hid, .inr (by simpa using hst)⟩

theorem mem_segmentsToReplay_of_live {id : SegmentId} (hm : registry.get id = some m)
    (hlive : live m) : m ∈ segmentsToReplay registry := by
  have hv : m ∈ registry.values := (Table.mem_values_iff _ _).mpr ⟨id, hm⟩
  rw [segmentsToReplay, (List.perm_insertionSort _ _).mem_iff, List.mem_append]
  exact hlive.imp (fun h => List.mem_filter.mpr ⟨hv, by simpa using h⟩)
    (fun h => List.mem_filter.mpr ⟨hv, by simpa using h⟩)

theorem replay_kept (h : Inv crc32 c s)
    (hb : Booting c s.store) (hrec : s.recovery = .replaying (m :: todo))
    (hm : replayMeta crc32 fuel s.store m = some store) :
    StoreInv crc32 c store ∧ store.files.get .activeSeg = s.store.files.get .activeSeg ∧
      store.files.get (.sealedSeg c) = none ∧ store.walRegistry = s.store.walRegistry := by
  rcases (h.todo _ hrec).2 m (by simp) with ⟨hlt, hpath⟩ | ⟨hid, hpath⟩
  · simp only [replayMeta, hpath] at hm
    cases hfile : s.store.files.get (.sealedSeg m.id) with
    | none =>
      simp only [replayWalSegment, hfile] at hm
      cases hm
      exact ⟨h.store, rfl, hb.noFile, rfl⟩
    | some data =>
      obtain ⟨e, he, eff⟩ := replay_effect crc32 h.store.below_index hfile hm
      obtain ⟨hst, hact⟩ := h.store.replaySealed (h.store.sealed_of_lt hlt) hfile he eff
      refine ⟨hst, hact, ?_, eff.registry⟩
      have hne : (SegPath.sealedSeg c) ≠ .sealedSeg m.id := by
        simpa using (Nat.ne_of_lt hlt).symm
      exact (eff.other_file hne).trans hb.noFile
  · simp only [replayMeta, hpath] at hm
    obtain ⟨hst, hfiles, hreg⟩ := h.store.replayBlank hb.blank
      (h.store.checkpoint_zero (by rw [hid]; exact hb.notSealed)) hm
    exact ⟨hst, by rw [hfiles], by rw [hfiles, hb.noFile], hreg⟩

theorem inv_replayNext (h : Inv crc32 c s)
    (hj : s.journal ≠ .down) (hrec : s.recovery = .replaying (m :: todo))
    (hm : replayMeta crc32 fuel s.store m = some store) :
    Inv crc32 c { s with store, recovery := .replaying todo } := by
  have hr : s.recovery ≠ .finished := by rw [hrec]; simp
  have hb := PcInv.booting h.pc hj hr
  obtain ⟨hst, hact, hnone, hreg⟩ := replay_kept h hb hrec hm
  have hblank : Blank store := by
    unfold Blank
    rw [hact]
    exact hb.blank
  refine ⟨hst, PcInv.recovering h.pc hj hr rfl ⟨hblank, hnone, ?_⟩ ?_, ?_⟩
  · unfold Sealed
    rw [hreg]
    exact hb.notSealed
  · unfold ActiveRow
    rw [hreg]
    exact id
  · rintro rest hrest
    cases hrest
    exact ⟨hj, fun m' hm' => (h.todo _ hrec).2 m' (List.mem_cons_of_mem m hm')⟩

theorem inv_flush (h : Inv crc32 c s) (index : FjallIndex) (segId : SegmentId) (bytes : Bytes)
    (migrated : List Key) :
    Inv crc32 c { s with store := flushed s.store index segId bytes migrated } := by
  have hfiles : ∀ path, (∀ id, path ≠ .entrySeg id) →
      (flushed s.store index segId bytes migrated).files.get path = s.store.files.get path :=
    fun path hp => Table.get_put_ne _ _ (hp segId)
  refine ⟨h.store.frame rfl (fun id => hfiles _ (by simp)) (fun id => ?_) (fun k iv hk => ?_),
    ?_, h.todo⟩
  · simp [flushed, FjallIndex.getCheckpoint, FjallIndex.foldl_deleteLocation_checkpoints]
  · simp only [flushed, FjallIndex.foldl_deleteLocation] at hk
    split_ifs at hk
    exact hk
  · have hpc := h.pc
    unfold PcInv Blank at hpc ⊢
    have hact := hfiles .activeSeg (by simp)
    have hsealed := hfiles (.sealedSeg c) (by simp)
    cases hs : s.journal <;> simp only [hs, hact, hsealed] at hpc ⊢ <;> try exact hpc
    all_goals
      exact ⟨hpc.1, by unfold Blank; rw [hact]; exact hpc.2.blank, by rw [hsealed, hpc.2.noFile],
        hpc.2.notSealed⟩

theorem todo_of_finished {t : State} (h : t.recovery = .finished) : TodoInv c t := by
  intro todo ht
  rw [h] at ht
  cases ht

theorem inv_writeActive (h : Inv crc32 c s) {id off off' : Nat} {data : Bytes}
    {active : List Batch} (hj : s.journal = .ready id off) (hr : s.recovery = .finished) :
    Inv crc32 c { s.withFiles (s.store.files.put .activeSeg data) with
      journal := .ready id off', active } := by
  have hpc := h.pc
  simp only [PcInv, hj] at hpc
  have hfile : ∀ j, (s.store.files.put .activeSeg data).get (.sealedSeg j) =
      s.store.files.get (.sealedSeg j) := fun j => Table.get_put_ne _ _ (by simp)
  exact ⟨h.store.frame rfl hfile (fun _ => rfl) (fun _ _ hk => hk),
    ⟨hpc.1, hpc.2.1, (hfile c).trans hpc.2.2.1, fun hne => absurd hr hne⟩, todo_of_finished hr⟩

theorem inv_recoverEntries (h : Inv crc32 c s) (hj : s.journal ≠ .down) (hrec : s.recovery = .start)
    (hst : recoverEntrySegments crc32 fuel { s.store with stats := {} } = some store) :
    Inv crc32 c { s with store, recovery := .entriesDone } := by
  have hr : s.recovery ≠ .finished := by rw [hrec]; simp
  have hw := recoverEntries_sameWal crc32 hst
  refine ⟨h.store.sameWal hw, PcInv.recovering h.pc hj hr rfl
    (Booting.sameWal (PcInv.booting h.pc hj hr) hw) ?_, fun todo ht => by cases ht⟩
  unfold ActiveRow
  rw [hw.registry]
  exact id

theorem inv_registerFiles (h : Inv crc32 c s) (hj : s.journal ≠ .down)
    (hrec : s.recovery = .entriesDone) :
    Inv crc32 c { s with store := registerWalFiles s.store, recovery := .registered } := by
  have hr : s.recovery ≠ .finished := by rw [hrec]; simp
  have hb := PcInv.booting h.pc hj hr
  rcases registerWalFiles_cases s.store h.store.fileRow with
    heq | ⟨m, stats, hid, hlive, hpath, hnone, heq⟩
  · rw [heq]
    exact ⟨h.store, PcInv.recovering h.pc hj hr rfl hb fun hrow => hrow, fun todo ht => by cases ht⟩
  · obtain rfl : m.id = c := by
      rw [hid] at hnone ⊢
      exact scanNext_of_booting h.store hb hnone
    rw [heq]
    have hrow : ActiveRow m.id
        { s.store with walRegistry := s.store.walRegistry.put m.id m, stats } :=
      ⟨m, Table.get_put_self _ _ _, hlive, hpath⟩
    have hst := h.store.putActive rfl hlive hpath hb.noFile
    exact ⟨hst.frame rfl (fun _ => rfl) (fun _ => rfl) (fun _ _ hk => hk),
      PcInv.recovering h.pc hj hr rfl ⟨hb.blank, hb.noFile, not_sealed_of_active hrow⟩
        fun _ => hrow, fun todo ht => by cases ht⟩

theorem inv_listSegments (h : Inv crc32 c s) (hj : s.journal ≠ .down)
    (hrec : s.recovery = .registered) :
    Inv crc32 c { s with recovery := .replaying (segmentsToReplay s.store.walRegistry) } := by
  have hr : s.recovery ≠ .finished := by rw [hrec]; simp
  have hb := PcInv.booting h.pc hj hr
  refine ⟨h.store, PcInv.recovering h.pc hj hr rfl hb fun hrow => hrow, ?_⟩
  intro todo ht
  cases ht
  refine ⟨hj, fun m hm => ?_⟩
  obtain ⟨id, hid, -⟩ := mem_segmentsToReplay hm
  obtain ⟨rfl, -, hrow⟩ := h.store.rows id m hid
  refine hrow.imp_left fun hpath => ⟨?_, hpath⟩
  refine Nat.lt_of_le_of_ne (h.store.upto _ m hid) fun hc => hb.notSealed ?_
  exact ⟨m, hc ▸ hid, hc ▸ hpath⟩

theorem blank_of_crash (h : Inv crc32 c s) (hno : NoActiveRow s.store.walRegistry) :
    Blank s.store := by
  have hactive (hrow : ActiveRow c s.store) : Blank s.store := by
    obtain ⟨m, hm, hlive, hpath⟩ := hrow
    exact absurd hpath (hno m ((Table.mem_values_iff _ _).mpr ⟨c, hm⟩) hlive)
  have hpc := h.pc
  cases hs : s.journal <;> simp only [PcInv, hs] at hpc
  case down => exact hpc hno
  case opened => exact hpc.2.blank
  case resumed => exact hpc.2.blank
  case created => exact hpc.2.blank
  case ready => exact hactive hpc.2.1
  case renamed => exact hactive hpc.2.1
  case upserted => exact hpc.2.2.1
  case reopened => exact hpc.2.2.1

theorem inv_step {a : Act} (h : Inv crc32 c s) (hg : freshOpen s a) (ht : Trans crc32 s a t) :
    ∃ c', Inv crc32 c' t := by
  have hpc := h.pc
  cases ht with
  | openJournal hj =>
    simp only [PcInv, hj] at hpc
    obtain ⟨hst, hfile, hrow⟩ := h.store.openNext hg
    refine ⟨_, hst, ⟨rfl, hpc hg, hfile, ?_⟩, fun todo ht => by cases ht⟩
    rintro ⟨m, hm, -⟩
    rw [hrow] at hm
    cases hm
  | resume id hj =>
    simp only [PcInv, hj] at hpc
    exact ⟨c, h.store, hpc, fun todo ht => ⟨by simp, (h.todo todo ht).2⟩⟩
  | create id off hj =>
    simp only [PcInv, hj] at hpc
    have hfile : ∀ j, (openOdirect s.store.files).get (.sealedSeg j) =
        s.store.files.get (.sealedSeg j) := fun j => openOdirect_get _ _ (by simp)
    refine ⟨c, h.store.frame rfl hfile (fun _ => rfl) (fun _ _ hk => hk), ⟨hpc.1, ?_, ?_, ?_⟩,
      fun todo ht => ⟨by simp, (h.todo todo ht).2⟩⟩
    · simp only [Blank, State.withFiles, openOdirect_active, Option.getD_some]
      exact hpc.2.blank
    · exact (hfile c).trans hpc.2.noFile
    · exact hpc.2.notSealed
  | register id off hj =>
    simp only [PcInv, hj] at hpc
    obtain ⟨rfl, hb⟩ := hpc
    refine ⟨id, h.store.putActive (m := ⟨id, .Wal, .Active, some .activeSeg, none, 0⟩) rfl
      (.inr rfl) rfl hb.noFile, ⟨rfl, ⟨_, Table.get_put_self _ _ _, .inr rfl, rfl⟩, hb.noFile,
      fun _ => hb.blank⟩, fun todo ht => ⟨by simp, (h.todo todo ht).2⟩⟩
  | recoverEntries fuel store hj hrec hst => exact ⟨c, inv_recoverEntries h hj hrec hst⟩
  | registerFiles hj hrec => exact ⟨c, inv_registerFiles h hj hrec⟩
  | listSegments hj hrec => exact ⟨c, inv_listSegments h hj hrec⟩
  | replayNext fuel m todo store hj hrec hm => exact ⟨c, inv_replayNext h hj hrec hm⟩
  | finish hj hrec =>
    have hr : s.recovery ≠ .finished := by rw [hrec]; simp
    have hb := PcInv.booting hpc hj hr
    exact ⟨c, h.store, PcInv.recovering hpc hj hr rfl hb fun hrow => hrow, todo_of_finished rfl⟩
  | batch b id off hj hr => exact ⟨c, inv_writeActive h hj hr⟩
  | failedBatch tail id off hj hr =>
    let data := ((s.store.files.get .activeSeg).getD []).take off ++ tail
    have hw : Inv crc32 c { s.withFiles (s.store.files.put .activeSeg data) with
        journal := .ready id off, active := s.active } := inv_writeActive h hj hr
    rw [← hj] at hw
    exact ⟨c, hw⟩
  | rename id off files hj hr hf =>
    simp only [PcInv, hj] at hpc
    obtain ⟨rfl, hrow, -, -⟩ := hpc
    obtain ⟨hst, hnone, data, -, hdata⟩ := h.store.rename hrow hf
    exact ⟨id, hst, ⟨rfl, hrow, hnone, ⟨data, hdata⟩, hr⟩, todo_of_finished hr⟩
  | upsert id hj hr =>
    simp only [PcInv, hj] at hpc
    obtain ⟨rfl, hrow, hnone, -, -⟩ := hpc
    obtain ⟨hst, hs⟩ := h.store.upsertSealed hrow
    exact ⟨id, hst, ⟨rfl, hs, by simp [Blank, State.withRegistry, hnone], hr⟩, todo_of_finished hr⟩
  | reopen id hj hr =>
    simp only [PcInv, hj] at hpc
    refine ⟨c, h.store.frame rfl (fun j => openOdirect_get _ _ (by simp)) (fun _ => rfl)
      (fun _ _ hk => hk), ⟨hpc.1, hpc.2.1, ?_, hr⟩, todo_of_finished hr⟩
    simp only [Blank, State.withFiles, openOdirect_active, Option.getD_some]
    exact hpc.2.2.1
  | registerNext id hj hr =>
    simp only [PcInv, hj] at hpc
    obtain ⟨rfl, hs, hblank, -⟩ := hpc
    obtain ⟨hst, hfile⟩ := h.store.advance hs
    exact ⟨id + 1, hst.putActive (m := ⟨id + 1, .Wal, .Active, some .activeSeg, none, 0⟩) rfl
      (.inr rfl) rfl hfile, ⟨rfl, ⟨_, Table.get_put_self _ _ _, .inr rfl, rfl⟩, hfile,
      fun _ => hblank⟩, todo_of_finished hr⟩
  | flush index segId bytes migrated => exact ⟨c, inv_flush h index segId bytes migrated⟩
  | crash =>
    refine ⟨c, h.store.frame rfl (fun _ => rfl) (fun _ => rfl) (fun _ _ hk => hk), ?_,
      fun todo ht => by cases ht⟩
    intro hno
    have hblank : Blank s.store := blank_of_crash h hno
    exact hblank

end Steps

theorem inv_fresh (h : Fresh s) : Inv crc32 0 s := by
  obtain ⟨hj, hr, hreg, hidx, hact, hsealed, -, -⟩ := h
  refine ⟨⟨?_, ?_, ?_, ?_, ?_, ?_⟩, ?_, ?_⟩
  · simp [hreg]
  · simp [hreg]
  · exact fun id hlt => absurd hlt (Nat.not_lt_zero id)
  · simp [hsealed]
  · simp [hidx, FjallIndex.getLocation, FjallIndex.empty]
  · simp [hidx, FjallIndex.getCheckpoint, FjallIndex.empty]
  · simp [PcInv, hj, Blank, hact]
  · simp [TodoInv, hr]

theorem reach_inv (h : Reach (guarded freshOpen (step crc32)) Fresh s) : ∃ c, Inv crc32 c s := by
  refine Reach.invariant (P := fun s => ∃ c, Inv crc32 c s) (fun s hs => ⟨0, inv_fresh hs⟩) ?_ h
  rintro s a t ⟨c, hinv⟩ hst
  obtain ⟨hg, hst⟩ := (guarded_eq_some freshOpen).mp hst
  exact inv_step hinv hg (step_trans crc32 hst)

/-- When every boot opens the journal with no row for `active.seg`, all locations lead to
their records and no two live rows share a file. -/
theorem wal_locations_stay_true (h : Reach (guarded freshOpen (step crc32)) Fresh s) :
    LocationsTrue crc32 s.store ∧ PathsDistinct s.store.walRegistry := by
  obtain ⟨c, hinv⟩ := reach_inv h
  constructor
  · intro k iv hk
    obtain ⟨⟨m, hm, hpath⟩, data, r, n, hd, hdec, hkey, -⟩ := hinv.store.locs k iv hk
    simp [walRead, hk, hm, hpath, hd, hdec, hkey]
  · intro id id' m m' path hm hm' _ _ hp hp'
    rcases (hinv.store.rows id m hm).2.2 with hs | ⟨hc, ha⟩ <;>
      rcases (hinv.store.rows id' m' hm').2.2 with hs' | ⟨hc', ha'⟩
    · rw [hp, Option.some.injEq] at hs
      rw [hp', hs, Option.some.injEq] at hs'
      exact SegPath.sealedSeg.inj hs'
    · rw [hp, Option.some.injEq] at hs
      rw [hp', hs] at ha'
      cases ha'
    · rw [hp', Option.some.injEq] at hs'
      rw [hp, hs'] at ha
      cases ha
    · rw [hc, hc']

section Runs

def blankNode : State := ⟨emptyStore, .down, .start, [], []⟩

theorem blankNode_fresh : Fresh blankNode := by
  simp [Fresh, blankNode, emptyStore]

def bootActs (n : Nat) : List Act :=
  [.openJournal, .resume, .create, .register, .recoverEntries 1, .registerFiles, .listSegments] ++
    List.replicate n (.replayNext 4) ++ [.finish]

/- The crash falls between the seal's upsert and the registration of the next segment. -/
theorem crash_after_upsert_keeps_locations :
    ∃ s, Reach (guarded freshOpen (step Crc32.crc32)) Fresh s ∧
      (s.store.walIndex.getLocation (1, 0)).isSome = true ∧
      LocationsTrue Crc32.crc32 s.store ∧ PathsDistinct s.store.walRegistry := by
  obtain ⟨s, hreach, hloc⟩ := reach_check (guarded freshOpen (step Crc32.crc32)) blankNode_fresh
    (fun s => (s.store.walIndex.getLocation (1, 0)).isSome = true)
    (bootActs 1 ++ [.batch plainBatch, .rename, .upsert, .crash] ++ bootActs 2)
    (by decide +kernel)
  exact ⟨s, hreach, hloc, wal_locations_stay_true hreach⟩

/- An ordinary crash leaves row 0 at `active.seg`. The next boot indexes entry 0 under it
and calls the same file segment 1; after a seal row 0 leads to the file of segment 2. -/
theorem leftover_row_misleads_reads :
    ∃ s, Reach (step Crc32.crc32) Fresh s ∧ walRead Crc32.crc32 s.store (1, 0) = some (1, 1) ∧
      ¬ LocationsTrue Crc32.crc32 s.store ∧ ¬ PathsDistinct s.store.walRegistry := by
  obtain ⟨s, hrun, hbad⟩ := run_check (step Crc32.crc32) blankNode
    (fun s => decide (walRead Crc32.crc32 s.store (1, 0) = some (1, 1)) &&
      (s.store.walIndex.getLocation (1, 0)).isSome &&
      (s.store.walRegistry.get 0).any (fun m => decide (live m ∧ m.localPath = some .activeSeg)) &&
      (s.store.walRegistry.get 2).any (fun m => decide (live m ∧ m.localPath = some .activeSeg)))
    (bootActs 1 ++ [.batch plainBatch, .crash] ++ bootActs 2 ++
      [.rename, .upsert, .reopen, .registerNext, .batch nextBatch])
    (by decide +kernel)
  simp only [Bool.and_eq_true, decide_eq_true_eq, Option.any_eq_true] at hbad
  obtain ⟨⟨⟨hread, hloc⟩, m, hm, hlive, hpath⟩, m', hm', hlive', hpath'⟩ := hbad
  refine ⟨s, reach_of_run _ (.start blankNode_fresh) hrun, hread, fun htrue => ?_, fun hdist => ?_⟩
  · obtain ⟨iv, hiv⟩ := Option.isSome_iff_exists.mp hloc
    have := htrue _ iv hiv
    rw [hread] at this
    cases this
  · cases hdist 0 2 m m' _ hm hm' hlive hlive' hpath hpath'

end Runs
end Folio.WalLocations
