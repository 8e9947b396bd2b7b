import Folio.EntryRecovery
import Folio.WalLocations

/-! Recovery run a second time on what the first run left. Only `entry_index` can still change:
a key whose location was cut off with the tail of its segment is found again in an earlier
record that the first run had already passed. -/
namespace Folio.RecoverTwice
open KeyedTable Protocol Fjall RecoveryScan CrashRecovery ScanLocality RestartFile ReplayEffect
open Journal WalLocations EntryRecovery
variable {crc32 : Bytes → UInt32} {fuel : Nat} {st st' : Store} {id : SegmentId}

section EntryPhase

theorem foldl_recoverVisit_located (vs : List Visit)
    (h : ∀ v ∈ vs, (st.entryIndex.getLocation v.record.key).isSome) :
    vs.foldl (recoverVisit id) st = st := by
  induction vs with
  | nil => rfl
  | cons v vs ih =>
    obtain ⟨iv, hiv⟩ := Option.isSome_iff_exists.mp (h v List.mem_cons_self)
    have hv : recoverVisit id st v = st := by simp [recoverVisit, hiv]
    rw [List.foldl_cons, hv]
    exact ih fun u hu => h u (List.mem_cons_of_mem v hu)

variable (crc32 fuel) in
def EntriesDone (st : Store) : Prop :=
  ∀ id data, st.files.get (.entrySeg id) = some data → (st.entryRegistry.get id).isSome ∧
    ∃ e, scan crc32 data fuel 0 0 = some e ∧ e.torn = false ∧
      ∀ v ∈ e.state, (st.entryIndex.getLocation v.record.key).isSome

theorem EntriesDone.segment (h : EntriesDone crc32 fuel st) (id : SegmentId) :
    recoverEntrySegment crc32 fuel id (.entrySeg id) st = some st := by
  cases hfile : st.files.get (.entrySeg id) with
  | none => simp [recoverEntrySegment, hfile]
  | some data =>
    obtain ⟨hrow, e, he, htorn, hloc⟩ := h id data hfile
    obtain ⟨m, hm⟩ := Option.isSome_iff_exists.mp hrow
    have hreg : registerEntryIfAbsent st id (.entrySeg id) data.length = st := by
      simp [registerEntryIfAbsent, hm]
    simp [recoverEntrySegment, hfile, recoverEntryLoop, scanLoop_eq_foldl, he, hreg, htorn,
      foldl_recoverVisit_located e.state hloc]

theorem EntriesDone.recover (h : EntriesDone crc32 fuel st) :
    recoverEntrySegments crc32 fuel st = some st := by
  unfold recoverEntrySegments
  induction entrySegmentIds st.files with
  | nil => rfl
  | cons id ids ih =>
    rw [List.foldlM_cons, h.segment id]
    exact ih

end EntryPhase

section Replay

variable {id : SegmentId} {path : SegPath} {data : Bytes} {e : ScanEnd (List Visit)}
  {m m' : SegmentMeta} {rows : List SegmentMeta}

structure Kept (rows : List SegmentMeta) (st st' : Store) : Prop where
  absent : ∀ p, st.files.get p = none → st'.files.get p = none
  present : ∀ p data, st.files.get p = some data → ∃ n, st'.files.get p = some (data.take n)
  others : ∀ p, (∀ m ∈ rows, m.localPath ≠ some p) → st'.files.get p = st.files.get p
  walRegistry : st'.walRegistry = st.walRegistry
  entryRegistry : st'.entryRegistry = st.entryRegistry
  entryIndex : st'.entryIndex = st.entryIndex
  checkpoint : ∀ j, (∀ m ∈ rows, m.id ≠ j) →
    st'.walIndex.getCheckpoint j = st.walIndex.getCheckpoint j

theorem Kept.refl (st : Store) (rows : List SegmentMeta) : Kept rows st st :=
  ⟨fun _ h => h, fun p data h => ⟨data.length, by rw [h, List.take_length]⟩, fun _ _ => rfl, rfl,
    rfl, rfl, fun _ _ => rfl⟩

theorem replayMeta_kept (h : replayMeta crc32 fuel st m = some st') : Kept [m] st st' := by
  obtain ⟨rfl, -⟩ | ⟨path, data, hpath, hfile, hrun⟩ := replayMeta_file crc32 h
  · exact Kept.refl _ _
  · obtain ⟨e, he, eff⟩ := replayWalSegment_replayed crc32 hfile hrun
    obtain ⟨hown, hother⟩ := eff.cut crc32 hfile he
    refine ⟨fun p hp => ?_, fun p d hd => ?_, fun p hp => ?_, eff.walRegistry, eff.entryRegistry,
      eff.entryIndex, fun j hj => ?_⟩
    · rw [hother p fun heq => by simp [heq, hfile] at hp, hp]
    · by_cases heq : p = path
      · subst heq
        obtain rfl : data = d := Option.some.inj (hfile.symm.trans hd)
        exact ⟨_, hown⟩
      · exact ⟨d.length, by rw [hother p heq, hd, List.take_length]⟩
    · exact hother p fun heq => hp m (List.mem_singleton.mpr rfl) (heq ▸ hpath)
    · rw [eff.checkpoint, if_neg fun heq => hj m (List.mem_singleton.mpr rfl) heq.symm]

theorem Kept.cons {mid : Store} (h : Kept [m] st mid)
    (h' : Kept rows mid st') : Kept (m :: rows) st st' where
  absent p hp := h'.absent p (h.absent p hp)
  present p data hp := by
    obtain ⟨n, hn⟩ := h.present p data hp
    obtain ⟨n', hn'⟩ := h'.present p _ hn
    exact ⟨min n' n, by rw [hn', List.take_take]⟩
  others p hp := by
    rw [h'.others p fun m' hm' => hp m' (List.mem_cons_of_mem m hm'),
      h.others p fun m' hm' => hp m' (by simp_all)]
  walRegistry := h'.walRegistry.trans h.walRegistry
  entryRegistry := h'.entryRegistry.trans h.entryRegistry
  entryIndex := h'.entryIndex.trans h.entryIndex
  checkpoint j hj := by
    rw [h'.checkpoint j fun m' hm' => hj m' (List.mem_cons_of_mem m hm'),
      h.checkpoint j fun m' hm' => hj m' (by simp_all)]

theorem replayRows_kept
    (h : rows.foldlM (replayMeta crc32 fuel) st = some st') : Kept rows st st' := by
  induction rows generalizing st with
  | nil =>
    cases h
    exact Kept.refl _ _
  | cons m rows ih =>
    rw [List.foldlM_cons] at h
    obtain ⟨mid, hmid, hrest⟩ := Option.bind_eq_some_iff.mp h
    exact (replayMeta_kept hmid).cons (ih hrest)

variable (crc32 fuel) in
/-- From the checkpoint of the row there is nothing to replay in its file, however much more is
cut off the file by another row that names it. -/
def Settled (st : Store) (m : SegmentMeta) : Prop :=
  ∀ path data, m.localPath = some path → st.files.get path = some data →
    ∀ n, scan crc32 (data.take n) fuel (st.walIndex.getCheckpoint m.id)
      (st.walIndex.getCheckpoint m.id) = some ⟨[], st.walIndex.getCheckpoint m.id, false⟩

theorem scan_short {pos : Nat} (hfuel : 0 < fuel) (h : data.length ≤ pos) :
    scan crc32 data fuel pos pos = some ⟨[], pos, false⟩ := by
  obtain ⟨fuel, rfl⟩ := Nat.exists_eq_succ_of_ne_zero (Nat.ne_of_gt hfuel)
  rw [scan, if_pos (by omega)]

theorem replayMeta_settles (h : replayMeta crc32 fuel st m = some st') :
    Settled crc32 fuel st' m := by
  obtain ⟨rfl, hnone⟩ | ⟨path, data, hpath, hfile, hrun⟩ := replayMeta_file crc32 h
  · intro path data hp hd
    simp [hnone path hp] at hd
  · intro p d hp hd n
    obtain rfl : path = p := Option.some.inj (hpath.symm.trans hp)
    obtain ⟨e, he, eff⟩ := replayWalSegment_replayed crc32 hfile hrun
    rw [(eff.cut crc32 hfile he).1] at hd
    cases hd
    rw [eff.checkpoint, if_pos rfl]
    have hagain := scan_again crc32 he
    cases htorn : e.torn with
    | true =>
      have hfuel : 0 < fuel := by
        by_contra hz
        obtain rfl : fuel = 0 := by omega
        simp [scan] at he
      apply scan_short hfuel
      simp only [if_true, List.length_take]
      omega
    | false =>
      rw [htorn] at hagain
      simp only [Bool.false_eq_true, if_false, List.take_length]
      exact scan_take_quiet crc32 n hagain

theorem Settled.later (h : Settled crc32 fuel st m)
    (hk : Kept rows st st') (hid : ∀ m' ∈ rows, m'.id ≠ m.id) : Settled crc32 fuel st' m := by
  intro path data hp hd n
  rw [hk.checkpoint m.id hid]
  cases hfile : st.files.get path with
  | none => simp [hk.absent path hfile] at hd
  | some d =>
    obtain ⟨n', hn'⟩ := hk.present path d hfile
    obtain rfl : d.take n' = data := Option.some.inj (hn'.symm.trans hd)
    rw [List.take_take]
    exact h path d hp hfile _

theorem replayRows_settled (hids : rows.Pairwise fun a b => a.id ≠ b.id)
    (h : rows.foldlM (replayMeta crc32 fuel) st = some st') :
    ∀ m ∈ rows, Settled crc32 fuel st' m := by
  induction rows generalizing st with
  | nil => simp
  | cons m rows ih =>
    obtain ⟨hm, hids⟩ := List.pairwise_cons.mp hids
    rw [List.foldlM_cons] at h
    obtain ⟨mid, hmid, hrest⟩ := Option.bind_eq_some_iff.mp h
    intro m' hm'
    rcases List.mem_cons.mp hm' with rfl | hm'
    · exact (replayMeta_settles hmid).later (replayRows_kept hrest) fun b hb heq =>
        hm b hb heq.symm
    · exact ih hids hrest m' hm'

/-- The stores a second replay goes through: nothing but the order of the checkpoints moves. -/
structure Idle (st st' : Store) : Prop where
  files : st'.files = st.files
  walRegistry : st'.walRegistry = st.walRegistry
  entryRegistry : st'.entryRegistry = st.entryRegistry
  entryIndex : st'.entryIndex = st.entryIndex
  stats : st'.stats = st.stats
  location : ∀ k, st'.walIndex.getLocation k = st.walIndex.getLocation k
  checkpoint : ∀ j, st'.walIndex.getCheckpoint j = st.walIndex.getCheckpoint j

theorem Settled.replay {b : Store} (h : Settled crc32 fuel st m) (hb : Idle st b) :
    ∃ b', replayMeta crc32 fuel b m = some b' ∧ Idle st b' := by
  cases hpath : m.localPath with
  | none => exact ⟨b, by simp [replayMeta, hpath], hb⟩
  | some path =>
    cases hfile : b.files.get path with
    | none => exact ⟨b, by simp [replayMeta, hpath, replayWalSegment, hfile], hb⟩
    | some data =>
      have hscan := h path data hpath (hb.files ▸ hfile) data.length
      rw [List.take_length, ← hb.checkpoint] at hscan
      refine ⟨{ b with walIndex :=
        b.walIndex.setCheckpoint m.id (b.walIndex.getCheckpoint m.id) }, ?_, ?_⟩
      · simp [replayMeta, hpath, replayWalSegment, hfile, replayWalLoop, scanLoop_eq_foldl, hscan]
      · refine ⟨hb.files, hb.walRegistry, hb.entryRegistry, hb.entryIndex, hb.stats,
          fun k => hb.location k, fun j => ?_⟩
        dsimp only
        rw [getCheckpoint_set, ← hb.checkpoint j]
        split_ifs with hj
        · rw [hj]
        · rfl

theorem replayRows_idle {b : Store} (h : ∀ m ∈ rows, Settled crc32 fuel st m) (hb : Idle st b) :
    ∃ b', rows.foldlM (replayMeta crc32 fuel) b = some b' ∧ Idle st b' := by
  induction rows generalizing b with
  | nil => exact ⟨b, rfl, hb⟩
  | cons m rows ih =>
    obtain ⟨b₁, hrun, hb₁⟩ := (h m List.mem_cons_self).replay hb
    obtain ⟨b₂, hrest, hb₂⟩ := ih (fun m' hm' => h m' (List.mem_cons_of_mem m hm')) hb₁
    exact ⟨b₂, by rw [List.foldlM_cons, hrun]; exact hrest, hb₂⟩

end Replay

section Registration
variable {registry : SegmentRegistry}

def WalRows (registry : SegmentRegistry) : Prop :=
  registry.WellKeyed ∧ ∀ id m path, registry.get id = some m → m.localPath = some path →
    ∀ j, path ≠ .entrySeg j

theorem WalRows.upsert (h : WalRows registry) (m : SegmentMeta)
    (hm : ∀ path, m.localPath = some path → ∀ j, path ≠ .entrySeg j) :
    WalRows (registry.upsert m) := by
  refine ⟨h.1.upsert m, fun id m' path hm' hpath => ?_⟩
  dsimp only [SegmentRegistry.upsert] at hm'
  rw [Table.get_put] at hm'
  split_ifs at hm'
  · cases hm'
    exact hm path hpath
  · exact h.2 id m' path hm' hpath

/-- A row that registration writes for segment `id`. -/
def Registers (files : Table SegPath Bytes) (id : SegmentId) (path : SegPath) : Prop :=
  path = .activeSeg ∨ path = .sealedSeg id ∧ (files.get path).isSome

structure Registered (st st' : Store) : Prop where
  files : st'.files = st.files
  entryRegistry : st'.entryRegistry = st.entryRegistry
  entryIndex : st'.entryIndex = st.entryIndex
  walIndex : st'.walIndex = st.walIndex
  cache : st'.cache = st.cache
  rows : ∀ id m, st.walRegistry.get id = some m → st'.walRegistry.get id = some m
  new : ∀ id m, st'.walRegistry.get id = some m → st.walRegistry.get id = some m ∨
    st.walRegistry.get id = none ∧ m.id = id ∧
      ∃ path, m.localPath = some path ∧ Registers st.files id path

theorem Registered.refl (st : Store) : Registered st st :=
  ⟨rfl, rfl, rfl, rfl, rfl, fun _ _ h => h, fun _ _ h => .inl h⟩

theorem Registered.trans {a b c : Store} (h : Registered a b) (h' : Registered b c) :
    Registered a c where
  files := h'.files.trans h.files
  entryRegistry := h'.entryRegistry.trans h.entryRegistry
  entryIndex := h'.entryIndex.trans h.entryIndex
  walIndex := h'.walIndex.trans h.walIndex
  cache := h'.cache.trans h.cache
  rows id m hm := h'.rows id m (h.rows id m hm)
  new id m hm := by
    rcases h'.new id m hm with hb | ⟨hnone, hid, path, hpath, hreg⟩
    · exact h.new id m hb
    · rw [h.files] at hreg
      refine .inr ⟨?_, hid, path, hpath, hreg⟩
      cases ha : a.walRegistry.get id with
      | none => rfl
      | some m' => simp [h.rows id m' ha] at hnone

theorem Registered.isSome (h : Registered st st')
    (hid : (st.walRegistry.get id).isSome) : (st'.walRegistry.get id).isSome := by
  obtain ⟨m, hm⟩ := Option.isSome_iff_exists.mp hid
  rw [h.rows id m hm]
  rfl

theorem Registered.walRows (h : Registered st st') (hrows : WalRows st.walRegistry) :
    WalRows st'.walRegistry := by
  refine ⟨fun id m hm => ?_, fun id m path hm hpath => ?_⟩
  · rcases h.new id m hm with hold | ⟨-, hid, -⟩
    · exact hrows.1 id m hold
    · exact hid
  · rcases h.new id m hm with hold | ⟨-, -, p, hp, hreg⟩
    · exact hrows.2 id m path hold hpath
    · obtain rfl : p = path := Option.some.inj (hp.symm.trans hpath)
      rcases hreg with rfl | ⟨rfl, -⟩ <;> simp

theorem registerWalIfAbsent_registered (st : Store) (id : SegmentId) (path : SegPath)
    (hpath : Registers st.files id path) :
    Registered st (registerWalIfAbsent st id path) ∧
      ((registerWalIfAbsent st id path).walRegistry.get id).isSome := by
  unfold registerWalIfAbsent
  split_ifs with hnone
  · rw [Option.isNone_iff_eq_none] at hnone
    refine ⟨⟨rfl, rfl, rfl, rfl, rfl, fun j m hm => ?_, fun j m hm => ?_⟩, ?_⟩
    · have hj : j ≠ id := fun heq => by simp [heq, hnone] at hm
      exact (Table.get_put_ne _ _ hj).trans hm
    · dsimp only [SegmentRegistry.upsert] at hm
      rw [Table.get_put] at hm
      split_ifs at hm with hj
      · cases hm
        exact .inr ⟨hj ▸ hnone, hj.symm, path, rfl, hj ▸ hpath⟩
      · exact .inl hm
    · dsimp only [SegmentRegistry.upsert]
      rw [Table.get_put_self]
      rfl
  · exact ⟨Registered.refl st, by simpa [Option.isSome_iff_ne_none] using hnone⟩

theorem foldl_register_registered (ids : List SegmentId) (st : Store)
    (hids : ∀ id ∈ ids, (st.files.get (.sealedSeg id)).isSome) :
    Registered st (ids.foldl (fun st id => registerWalIfAbsent st id (.sealedSeg id)) st) ∧
      ∀ id ∈ ids, ((ids.foldl (fun st id => registerWalIfAbsent st id (.sealedSeg id))
        st).walRegistry.get id).isSome := by
  induction ids generalizing st with
  | nil => exact ⟨Registered.refl st, by simp⟩
  | cons id ids ih =>
    obtain ⟨hone, hrow⟩ := registerWalIfAbsent_registered st id (.sealedSeg id)
      (.inr ⟨rfl, hids id List.mem_cons_self⟩)
    obtain ⟨hrest, hrows⟩ := ih (registerWalIfAbsent st id (.sealedSeg id)) fun j hj => by
      rw [hone.files]
      exact hids j (List.mem_cons_of_mem id hj)
    refine ⟨hone.trans hrest, fun j hj => ?_⟩
    rcases List.mem_cons.mp hj with rfl | hj
    · exact hrest.isSome hrow
    · exact hrows j hj

def FilesRegistered (st : Store) : Prop :=
  (∀ id ∈ walSegmentIds st.files, (st.walRegistry.get id).isSome) ∧
    ((st.files.get .activeSeg).isSome →
      (st.walRegistry.get (scanNextSegmentId st.files)).isSome)

theorem registerWalFiles_registered (st : Store) :
    Registered st (registerWalFiles st) ∧ FilesRegistered (registerWalFiles st) := by
  obtain ⟨hfold, hrows⟩ := foldl_register_registered (walSegmentIds st.files) st fun id hid => by
    rw [Option.isSome_iff_exists]
    exact (mem_walSegmentIds _ id).mp hid
  unfold registerWalFiles
  generalize (walSegmentIds st.files).foldl
    (fun st id => registerWalIfAbsent st id (.sealedSeg id)) st = mid at hfold hrows
  rw [← hfold.files] at hrows
  dsimp only
  split_ifs with hactive
  · obtain ⟨hone, hrow⟩ := registerWalIfAbsent_registered mid (scanNextSegmentId mid.files)
      .activeSeg (.inl rfl)
    refine ⟨hfold.trans hone, fun id hid => ?_, fun _ => ?_⟩
    · rw [hone.files] at hid
      exact hone.isSome (hrows id hid)
    · rw [hone.files]
      exact hrow
  · exact ⟨hfold, hrows, fun h => absurd h hactive⟩

theorem FilesRegistered.again (h : FilesRegistered st) : registerWalFiles st = st := by
  have hfold := foldl_registerWalIfAbsent (walSegmentIds st.files) st
    fun id hid => Option.isSome_iff_exists.mp (h.1 id hid)
  unfold registerWalFiles
  simp only [hfold]
  split_ifs with hactive
  · obtain ⟨m, hm⟩ := Option.isSome_iff_exists.mp (h.2 hactive)
    simp [registerWalIfAbsent, hm]
  · rfl

theorem FilesRegistered.later {rows : List SegmentMeta} (h : FilesRegistered st)
    (hk : Kept rows st st') : FilesRegistered st' := by
  have hsome (p : SegPath) : (st'.files.get p).isSome ↔ (st.files.get p).isSome := by
    cases hp : st.files.get p with
    | none => simp [hk.absent p hp]
    | some data =>
      obtain ⟨n, hn⟩ := hk.present p data hp
      simp [hn]
  have hids (id : SegmentId) : id ∈ walSegmentIds st'.files ↔ id ∈ walSegmentIds st.files := by
    simp only [mem_walSegmentIds, ← Option.isSome_iff_exists, hsome]
  have hnext : scanNextSegmentId st'.files = scanNextSegmentId st.files := by
    refine eq_of_forall_lt_iff fun i => ?_
    simp only [lt_scanNext_iff, ← Option.isSome_iff_exists, hsome]
  refine ⟨fun id hid => ?_, fun hactive => ?_⟩
  · rw [hk.walRegistry]
    exact h.1 id ((hids id).mp hid)
  · rw [hk.walRegistry, hnext]
    exact h.2 ((hsome _).mp hactive)

theorem segmentsToReplay_ids (h : registry.WellKeyed) :
    (segmentsToReplay registry).Pairwise fun a b => a.id ≠ b.id := by
  have hvalues : registry.values.Pairwise fun a b => a.id ≠ b.id := by
    have hkeys : registry.values.map SegmentMeta.id = registry.keys := by
      rw [Table.values, Table.keys, List.map_map]
      refine List.map_congr_left fun entry hentry => ?_
      exact h _ _ ((Table.mem_entries_iff _ _ _).mp hentry)
    have hnd : (registry.values.map SegmentMeta.id).Nodup := hkeys ▸ registry.nodup
    exact List.pairwise_map.mp hnd
  have hsymm : Std.Symm fun a b : SegmentMeta => a.id ≠ b.id := ⟨fun _ _ hab heq => hab heq.symm⟩
  unfold segmentsToReplay SegmentRegistry.listByStatus
  rw [(List.perm_insertionSort _ _).pairwise_iff fun hab heq => hab heq.symm, List.pairwise_append]
  refine ⟨hvalues.filter _, hvalues.filter _, fun a ha b hb => ?_⟩
  obtain ⟨ha, hlocal⟩ := List.mem_filter.mp ha
  obtain ⟨hb, hactive⟩ := List.mem_filter.mp hb
  have hne : a ≠ b := by
    rintro rfl
    simp_all
  exact hvalues.forall ha hb hne

end Registration

section TwoRuns
variable {files : Table SegPath Bytes} {e : ScanEnd (List Visit)} {iv : IndexValue}

/-- A store as the code's own registry writes leave it. -/
structure KeyedStore extends Store where
  walRows : WalRows walRegistry

structure Unchanged (st st' : Store) : Prop where
  files : ∀ path, st'.files.get path = st.files.get path
  walRegistry : ∀ id, st'.walRegistry.get id = st.walRegistry.get id
  entryRegistry : ∀ id, st'.entryRegistry.get id = st.entryRegistry.get id
  walLocation : ∀ k, st'.walIndex.getLocation k = st.walIndex.getLocation k
  entryLocation : ∀ k, st'.entryIndex.getLocation k = st.entryIndex.getLocation k
  walCheckpoint : ∀ id, st'.walIndex.getCheckpoint id = st.walIndex.getCheckpoint id
  entryCheckpoint : ∀ id, st'.entryIndex.getCheckpoint id = st.entryIndex.getCheckpoint id

variable (crc32 fuel)

def NothingToDo (st : Store) : Prop :=
  ∃ st', recover crc32 fuel st = some st' ∧ Unchanged st st' ∧ st'.stats = {}

def Shows (files : Table SegPath Bytes) (id : SegmentId) (k : Key) : Prop :=
  ∃ e, scanOf crc32 fuel files id = some e ∧ ∃ v ∈ e.state, v.record.key = k

/-- The location of `k` is in the torn tail of its segment, and records of `k` are found in this
segment or earlier ones only. -/
def Stale (st : Store) (k : Key) : Prop :=
  ∃ iv e, st.entryIndex.getLocation k = some iv ∧
    scanOf crc32 fuel st.files iv.segmentId = some e ∧ e.torn = true ∧ e.lastValid ≤ iv.offset ∧
    (∃ id, Shows crc32 fuel st.files id k) ∧
    ∀ id, Shows crc32 fuel st.files id k → id ≤ iv.segmentId

structure AfterRecover (d st : Store) : Prop where
  entryFile : ∀ id data, d.files.get (.entrySeg id) = some data →
    ∃ e, scan crc32 data fuel 0 0 = some e ∧
      st.files.get (.entrySeg id) = some (leftFile data e)
  noEntryFile : ∀ id, d.files.get (.entrySeg id) = none → st.files.get (.entrySeg id) = none
  entryRow : ∀ id, (d.files.get (.entrySeg id)).isSome → (st.entryRegistry.get id).isSome
  registered : FilesRegistered st
  settled : ∀ m ∈ segmentsToReplay st.walRegistry, Settled crc32 fuel st m

variable {crc32 fuel} {k : Key}

theorem recover_split (h : recover crc32 fuel st = some st') :
    ∃ mid, recoverEntrySegments crc32 fuel { st with stats := {} } = some mid ∧
      (segmentsToReplay (registerWalFiles mid).walRegistry).foldlM (replayMeta crc32 fuel)
        (registerWalFiles mid) = some st' :=
  Option.bind_eq_some_iff.mp h

theorem recover_entryLocation (h : recover crc32 fuel st = some st') (k : Key) :
    st'.entryIndex.getLocation k = (entrySegmentIds st.files).foldl
      (stepLocation crc32 fuel st.files k) (st.entryIndex.getLocation k) := by
  obtain ⟨mid, hphase, hreplay⟩ := recover_split h
  rw [(replayRows_kept hreplay).entryIndex, (registerWalFiles_registered mid).1.entryIndex]
  exact (recoverEntrySegments_effect hphase).location k

theorem recover_after (d : KeyedStore) (h : recover crc32 fuel d.toStore = some st) :
    AfterRecover crc32 fuel d.toStore st := by
  obtain ⟨mid, hphase, hreplay⟩ := recover_split h
  have eff := recoverEntrySegments_effect hphase
  have hwal := recoverEntries_sameWal crc32 hphase
  obtain ⟨hreg, hfiles⟩ := registerWalFiles_registered mid
  have hkept := replayRows_kept hreplay
  have hrows : WalRows (registerWalFiles mid).walRegistry :=
    hreg.walRows (hwal.registry ▸ d.walRows)
  have hentry (id : SegmentId) : st.files.get (.entrySeg id) = mid.files.get (.entrySeg id) := by
    rw [← hreg.files]
    refine hkept.others _ fun m hm hpath => ?_
    obtain ⟨j, hj, -⟩ := mem_segmentsToReplay hm
    exact hrows.2 j m _ hj hpath id rfl
  have hmem {id : SegmentId} (hid : (d.files.get (.entrySeg id)).isSome) :
      id ∈ entrySegmentIds d.files := (mem_entrySegmentIds id).mpr hid
  refine ⟨fun id data hdata => ?_, fun id hnone => ?_, fun id hid => ?_, hfiles.later hkept, ?_⟩
  · rw [hentry]
    exact eff.file id (hmem (by rw [hdata]; rfl)) data hdata
  · rw [hentry, eff.others _ fun j hj heq => ?_]
    · exact hnone
    · cases heq
      rw [mem_entrySegmentIds] at hj
      dsimp only at hj
      rw [hnone] at hj
      cases hj
  · rw [hkept.entryRegistry, hreg.entryRegistry]
    exact eff.row id (hmem hid)
  · rw [hkept.walRegistry]
    exact replayRows_settled (segmentsToReplay_ids hrows.1) hreplay

variable {d : Store}

theorem AfterRecover.scanOf (h : AfterRecover crc32 fuel d st) (id : SegmentId) :
    scanOf crc32 fuel st.files id =
      (EntryRecovery.scanOf crc32 fuel d.files id).map fun e => ⟨e.state, e.lastValid, false⟩ := by
  cases hfile : d.files.get (.entrySeg id) with
  | none => simp [EntryRecovery.scanOf, hfile, h.noEntryFile id hfile]
  | some data =>
    obtain ⟨e, he, hleft⟩ := h.entryFile id data hfile
    simp [EntryRecovery.scanOf, hfile, hleft, he, scan_leftFile crc32 he]

theorem Shows.mem (h : Shows crc32 fuel files id k) : id ∈ entrySegmentIds files := by
  obtain ⟨e, hs, -⟩ := h
  obtain ⟨data, hdata, -⟩ := scanOf_eq_some.mp hs
  rw [mem_entrySegmentIds, hdata]
  rfl

theorem dropped_none_iff (hs : EntryRecovery.scanOf crc32 fuel files iv.segmentId = some e)
    (hdrop : keeps iv.segmentId e iv = false) :
    (entrySegmentIds files).foldl (stepLocation crc32 fuel files k) (some iv) = none ↔
      ∀ id, Shows crc32 fuel files id k → id ≤ iv.segmentId := by
  obtain ⟨pre, post, hids, hrest⟩ :=
    @foldl_stepLocation_dropped crc32 fuel files k iv e hs hdrop
  rw [hrest]
  have hsorted := @entrySegmentIds_sorted files
  rw [hids, List.pairwise_append, List.pairwise_cons] at hsorted
  obtain ⟨-, ⟨hpost, hsort⟩, hpre⟩ := hsorted
  obtain ⟨hfold, hshow⟩ | ⟨iv', hfold, hseg, hshow⟩ :=
    @foldl_stepLocation_none crc32 fuel files post k (hsort.imp Nat.ne_of_lt)
  · refine ⟨fun _ id hid => ?_, fun _ => hfold⟩
    have hin := hid.mem
    obtain ⟨e', he', v, hv, hkey⟩ := hid
    rw [hids, List.mem_append, List.mem_cons] at hin
    rcases hin with hin | rfl | hin
    · exact Nat.le_of_lt (hpre id hin _ List.mem_cons_self)
    · exact Nat.le_refl _
    · exact absurd hkey (hshow id hin e' he' v hv)
  · refine ⟨fun hnone => ?_, fun hle => ?_⟩
    · simp [hfold] at hnone
    · exact absurd (hle _ hshow) (Nat.not_le_of_lt (hpost _ hseg))

theorem dropped_of_none {o : Option IndexValue}
    (hnone : (entrySegmentIds files).foldl (stepLocation crc32 fuel files k) o = none)
    (hid : Shows crc32 fuel files id k) :
    ∃ iv e, o = some iv ∧ EntryRecovery.scanOf crc32 fuel files iv.segmentId = some e ∧
      keeps iv.segmentId e iv = false := by
  cases o with
  | none =>
    obtain ⟨-, hshow⟩ | ⟨iv, hfold, -⟩ := @foldl_stepLocation_none crc32 fuel files
      (entrySegmentIds files) k (entrySegmentIds_sorted.imp Nat.ne_of_lt)
    · have hin := hid.mem
      obtain ⟨e, he, v, hv, hkey⟩ := hid
      exact absurd hkey (hshow id hin e he v hv)
    · simp [hfold] at hnone
  | some iv =>
    by_contra hno
    have hkept : (entrySegmentIds files).foldl (stepLocation crc32 fuel files k) (some iv) =
        some iv :=
      foldl_stepLocation_kept fun e he => by
        simpa using fun hfalse => hno ⟨iv, e, rfl, he, hfalse⟩
    simp [hkept] at hnone

theorem keeps_own_eq_false :
    keeps iv.segmentId e iv = false ↔ e.torn = true ∧ e.lastValid ≤ iv.offset := by
  simp [keeps]

theorem missing_iff_stale (h : recover crc32 fuel d = some st) :
    (st.entryIndex.getLocation k = none ∧ ∃ id, Shows crc32 fuel d.files id k) ↔
      Stale crc32 fuel d k := by
  rw [recover_entryLocation h]
  constructor
  · rintro ⟨hnone, id, hid⟩
    obtain ⟨iv, e, hloc, hs, hdrop⟩ := dropped_of_none hnone hid
    rw [hloc] at hnone
    obtain ⟨htorn, htail⟩ := keeps_own_eq_false.mp hdrop
    exact ⟨iv, e, hloc, hs, htorn, htail, ⟨id, hid⟩, (dropped_none_iff hs hdrop).mp hnone⟩
  · rintro ⟨iv, e, hloc, hs, htorn, htail, hshow, hlast⟩
    refine ⟨?_, hshow⟩
    rw [hloc]
    exact (dropped_none_iff hs (keeps_own_eq_false.mpr ⟨htorn, htail⟩)).mpr hlast

theorem AfterRecover.left {id : SegmentId} {data : Bytes} (h : AfterRecover crc32 fuel d st)
    (hdata : st.files.get (.entrySeg id) = some data) :
    ∃ old e, d.files.get (.entrySeg id) = some old ∧ scan crc32 old fuel 0 0 = some e ∧
      data = leftFile old e := by
  cases hold : d.files.get (.entrySeg id) with
  | none => simp [h.noEntryFile id hold] at hdata
  | some old =>
    obtain ⟨e, he, hleft⟩ := h.entryFile id old hold
    exact ⟨old, e, rfl, he, Option.some.inj (hdata.symm.trans hleft)⟩

theorem AfterRecover.entriesDone_iff (h : AfterRecover crc32 fuel d st)
    (hrun : recover crc32 fuel d = some st) :
    EntriesDone crc32 fuel st ↔ ∀ k, ¬Stale crc32 fuel d k := by
  simp only [← missing_iff_stale hrun, not_and]
  constructor
  · rintro hdone k hnone ⟨id, e, hs, v, hv, rfl⟩
    obtain ⟨data, hdata, -⟩ := scanOf_eq_some.mp hs
    obtain ⟨e', he', hleft⟩ := h.entryFile id data hdata
    obtain ⟨-, e₁, he₁, -, hloc⟩ := hdone id _ hleft
    have hsame := h.scanOf id
    rw [hs, scanOf_eq_some.mpr ⟨_, hleft, he₁⟩, Option.map_some, Option.some.injEq] at hsame
    have hv₁ := hloc v (by rw [hsame]; exact hv)
    simp [hnone] at hv₁
  · intro hloc id data hdata
    obtain ⟨old, e, hold, he, rfl⟩ := h.left hdata
    refine ⟨h.entryRow id (by rw [hold]; rfl), _, scan_leftFile crc32 he, rfl, fun v hv => ?_⟩
    rw [Option.isSome_iff_ne_none]
    exact fun hnone => hloc _ hnone ⟨id, e, scanOf_eq_some.mpr ⟨old, hold, he⟩, v, hv, rfl⟩

theorem AfterRecover.nothingToDo (h : AfterRecover crc32 fuel d st)
    (hdone : EntriesDone crc32 fuel st) : NothingToDo crc32 fuel st := by
  have hentries : recoverEntrySegments crc32 fuel { st with stats := {} } =
      some { st with stats := {} } := EntriesDone.recover hdone
  have hfiles : registerWalFiles { st with stats := {} } = { st with stats := {} } :=
    FilesRegistered.again h.registered
  have hsettled : ∀ m ∈ segmentsToReplay st.walRegistry,
      Settled crc32 fuel { st with stats := {} } m := h.settled
  obtain ⟨st', hrun, hidle⟩ := replayRows_idle hsettled
    ⟨rfl, rfl, rfl, rfl, rfl, fun _ => rfl, fun _ => rfl⟩
  refine ⟨st', ?_, ?_, hidle.stats⟩
  · rw [recover, hentries, Option.bind_some, recoverWal, hfiles]
    exact hrun
  · exact ⟨fun _ => by rw [hidle.files], fun _ => by rw [hidle.walRegistry],
      fun _ => by rw [hidle.entryRegistry], hidle.location, fun _ => by rw [hidle.entryIndex],
      hidle.checkpoint, fun _ => by rw [hidle.entryIndex]⟩

theorem AfterRecover.entriesDone (h : AfterRecover crc32 fuel d st)
    (hidle : NothingToDo crc32 fuel st) : EntriesDone crc32 fuel st := by
  obtain ⟨st', hrun, hsame, -⟩ := hidle
  intro id data hdata
  obtain ⟨old, e, hold, he, rfl⟩ := h.left hdata
  have hscan := scan_leftFile crc32 he
  refine ⟨h.entryRow id (by rw [hold]; rfl), _, hscan, rfl, fun v hv => ?_⟩
  rw [Option.isSome_iff_ne_none]
  intro hnone
  have hafter := recover_entryLocation hrun v.record.key
  rw [hsame.entryLocation, hnone] at hafter
  obtain ⟨-, hshow⟩ | ⟨iv, hfold, -⟩ := @foldl_stepLocation_none crc32 fuel st.files
    (entrySegmentIds st.files) v.record.key (entrySegmentIds_sorted.imp Nat.ne_of_lt)
  · exact hshow id ((mem_entrySegmentIds id).mpr (by rw [hdata]; rfl)) _
      (scanOf_eq_some.mpr ⟨_, hdata, hscan⟩) v hv rfl
  · simp [hfold] at hafter

/-- A second run right after the first ends with nothing changed and nothing reported exactly when
the first one met no stale key. -/
theorem second_run_idle_iff (d : KeyedStore) (st : Store)
    (h : recover crc32 fuel d.toStore = some st) :
    NothingToDo crc32 fuel st ↔ ∀ k, ¬Stale crc32 fuel d.toStore k := by
  have hafter := recover_after d h
  rw [← hafter.entriesDone_iff h]
  exact ⟨hafter.entriesDone, hafter.nothingToDo⟩

theorem walRows_empty : WalRows .empty := by
  constructor
  · intro id m h
    simp at h
  · intro id m path h
    simp at h

/-- An entry segment and a WAL file, both with a torn tail. -/
def twoTornTails : KeyedStore where
  toStore := { oneSegment tornTail Segment.firstRec 0 with
    files := (Table.empty.put (.entrySeg 0) tornTail).put .activeSeg
      (Segment.secondRec.encode Crc32.crc32 ++ [1, 0, 0, 0, 0]) }
  walRows := walRows_empty

/-- Two segments hold a record of one entry; the index has that of the second, which is damaged. -/
def damagedCopy : KeyedStore where
  toStore := { oneSegment [] Segment.firstRec 0 with
    files := (Table.empty.put (.entrySeg 1) (Segment.firstRec.encode Crc32.crc32)).put
      (.entrySeg 2) ((Segment.firstRec.encode Crc32.crc32).set 20 8)
    entryIndex := FjallIndex.empty.insertLocation (1, 0) 2 0 25 }
  walRows := walRows_empty

theorem torn_tails_recovered_once :
    ∃ st, recover Crc32.crc32 3 twoTornTails.toStore = some st ∧
      st.stats.tornWrites = 2 ∧ st.walIndex.getLocation (1, 1) = some ⟨0, 0, 25⟩ ∧
      NothingToDo Crc32.crc32 3 st := by
  have hrun : (recover Crc32.crc32 3 twoTornTails.toStore).map (fun st =>
      (st.stats.tornWrites, st.walIndex.getLocation (1, 1))) = some (2, some ⟨0, 0, 25⟩) := by
    decide +kernel
  obtain ⟨st, hst, hseen⟩ := Option.map_eq_some_iff.mp hrun
  refine ⟨st, hst, congrArg Prod.fst hseen, congrArg Prod.snd hseen,
    (second_run_idle_iff twoTornTails st hst).mpr fun k hstale => ?_⟩
  obtain ⟨iv, e, hloc, hs, -, htail, -⟩ := hstale
  have hscan : (EntryRecovery.scanOf Crc32.crc32 3 twoTornTails.files 0).map
      (fun e => e.lastValid) = some 25 := by
    decide +kernel
  obtain rfl : iv = ⟨0, 0, 25⟩ := by
    dsimp only [twoTornTails, oneSegment] at hloc
    rw [FjallIndex.getLocation_insert] at hloc
    split_ifs at hloc <;> cases hloc
    rfl
  dsimp only at hs htail
  rw [hs, Option.map_some, Option.some.injEq] at hscan
  omega

theorem copy_indexed_by_second_run :
    ∃ st st', recover Crc32.crc32 3 damagedCopy.toStore = some st ∧
      recover Crc32.crc32 3 st = some st' ∧ st.entryIndex.getLocation (1, 0) = none ∧
      st'.entryIndex.getLocation (1, 0) = some ⟨1, 0, 25⟩ ∧ st'.stats.entrySegEntries = 1 := by
  have hrun : ((recover Crc32.crc32 3 damagedCopy.toStore).bind fun st =>
      (recover Crc32.crc32 3 st).map fun st' => (st.entryIndex.getLocation (1, 0),
        st'.entryIndex.getLocation (1, 0), st'.stats.entrySegEntries)) =
      some (none, some ⟨1, 0, 25⟩, 1) := by
    decide +kernel
  obtain ⟨st, hst, hagain⟩ := Option.bind_eq_some_iff.mp hrun
  obtain ⟨st', hst', hseen⟩ := Option.map_eq_some_iff.mp hagain
  exact ⟨st, st', hst, hst', congrArg Prod.fst hseen, congrArg (fun p => p.2.1) hseen,
    congrArg (fun p => p.2.2) hseen⟩

end TwoRuns
end Folio.RecoverTwice
