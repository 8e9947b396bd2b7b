import Folio.ScanLocality
import Folio.CrashRecovery

/-! What the phases of recovery do to the store, said once. -/
namespace Folio.ReplayEffect
open KeyedTable Protocol Fjall RecoveryScan CrashRecovery ScanLocality
variable (crc32 : Bytes → UInt32) {e : ScanEnd (List Visit)} {id : SegmentId} {st st' : Store}
  {data : Bytes} {path : SegPath} {fuel : Nat}

section Visits
variable (id : SegmentId) (vs : List Visit) (st : Store) {iv : IndexValue}

structure SameFrame (st st' : Store) : Prop where
  files : st'.files = st.files
  registry : st'.walRegistry = st.walRegistry
  entries : st'.entryIndex = st.entryIndex
  checkpoints : st'.walIndex.checkpoints = st.walIndex.checkpoints

theorem replayVisit_frame (v : Visit) : SameFrame st (replayVisit id st v) := by
  unfold replayVisit indexWal
  split_ifs <;> exact ⟨rfl, rfl, rfl, rfl⟩

theorem foldl_replayVisit_frame : SameFrame st (vs.foldl (replayVisit id) st) := by
  induction vs generalizing st with
  | nil => exact ⟨rfl, rfl, rfl, rfl⟩
  | cons v vs ih =>
    have h := replayVisit_frame id st v
    have h' := ih (replayVisit id st v)
    exact ⟨h'.files.trans h.files, h'.registry.trans h.registry, h'.entries.trans h.entries,
      h'.checkpoints.trans h.checkpoints⟩

theorem foldl_replayVisit_entryRegistry :
    (vs.foldl (replayVisit id) st).entryRegistry = st.entryRegistry := by
  induction vs generalizing st with
  | nil => rfl
  | cons v vs ih =>
    rw [List.foldl_cons, ih]
    unfold replayVisit indexWal
    split_ifs <;> rfl

theorem replayVisit_location (v : Visit) (k : Key) :
    (replayVisit id st v).walIndex.getLocation k =
      if k = v.record.key ∧ st.entryIndex.getLocation k = none ∧ st.walIndex.getLocation k = none
      then some ⟨id, v.pos, v.len % 256 ^ 4⟩ else st.walIndex.getLocation k := by
  by_cases hk : k = v.record.key
  · subst hk
    unfold replayVisit indexWal
    split_ifs <;> simp_all [FjallIndex.getLocation_insert]
  · unfold replayVisit indexWal
    split_ifs <;> simp_all [FjallIndex.getLocation_insert]

theorem foldl_keeps {k : Key} (h : st.walIndex.getLocation k = some iv) :
    (vs.foldl (replayVisit id) st).walIndex.getLocation k = some iv := by
  induction vs generalizing st with
  | nil => exact h
  | cons v vs ih =>
    apply ih
    rw [replayVisit_location, if_neg (by simp [h]), h]

theorem foldl_origin {k : Key}
    (h : (vs.foldl (replayVisit id) st).walIndex.getLocation k = some iv) :
    st.walIndex.getLocation k = some iv ∨
      ∃ v ∈ vs, v.record.key = k ∧ iv.segmentId = id ∧ iv.offset = v.pos := by
  induction vs generalizing st with
  | nil => exact .inl h
  | cons v vs ih =>
    rcases ih _ h with hold | ⟨u, hu, hrest⟩
    · rw [replayVisit_location] at hold
      split_ifs at hold with hnew
      · cases hold
        exact .inr ⟨v, List.mem_cons_self, hnew.1.symm, rfl, rfl⟩
      · exact .inl hold
    · exact .inr ⟨u, List.mem_cons_of_mem v hu, hrest⟩

theorem foldl_indexes {v : Visit} (hv : v ∈ vs) :
    (st.entryIndex.getLocation v.record.key).isSome ∨
      ((vs.foldl (replayVisit id) st).walIndex.getLocation v.record.key).isSome := by
  induction vs generalizing st with
  | nil => simp at hv
  | cons u vs ih =>
    rcases List.mem_cons.mp hv with rfl | hv
    · by_cases hentry : (st.entryIndex.getLocation v.record.key).isSome
      · exact .inl hentry
      · right
        have hsome : ∃ iv, (replayVisit id st v).walIndex.getLocation v.record.key = some iv := by
          rw [replayVisit_location]
          cases hw : st.walIndex.getLocation v.record.key with
          | none => exact ⟨_, if_pos ⟨rfl, by simpa using hentry, rfl⟩⟩
          | some iv => exact ⟨iv, by simp⟩
        obtain ⟨iv, hiv⟩ := hsome
        rw [List.foldl_cons, foldl_keeps id vs _ hiv]
        rfl
    · have h := ih (replayVisit id st u) hv
      rwa [(replayVisit_frame id st u).entries] at h

end Visits

theorem getCheckpoint_set (x : FjallIndex) (id n j : Nat) :
    (x.setCheckpoint id n).getCheckpoint j = if j = id then n else x.getCheckpoint j := by
  by_cases h : j = id
  · subst h
    simp [FjallIndex.getCheckpoint, FjallIndex.setCheckpoint, Table.get_put_self]
  · simp [FjallIndex.getCheckpoint, FjallIndex.setCheckpoint, Table.get_put_ne, h]

structure Replayed (st st' : Store) (id : SegmentId) (path : SegPath) (data : Bytes)
    (e : ScanEnd (List Visit)) : Prop where
  files : st'.files =
    if e.torn then st.files.put path (setLen data e.lastValid) else st.files
  walRegistry : st'.walRegistry = st.walRegistry
  entryRegistry : st'.entryRegistry = st.entryRegistry
  entryIndex : st'.entryIndex = st.entryIndex
  checkpoint : ∀ j, st'.walIndex.getCheckpoint j =
    if j = id then e.lastValid else st.walIndex.getCheckpoint j
  location : ∀ k, st'.walIndex.getLocation k =
    ((e.state.foldl (replayVisit id) st).walIndex.getLocation k).filter fun iv =>
      !(e.torn && FjallIndex.inTail id e.lastValid (k, iv))
  cache : st'.cache = (e.state.foldl (replayVisit id) st).cache

theorem replayWalSegment_replayed (hfile : st.files.get path = some data)
    (h : replayWalSegment crc32 fuel id path st = some st') :
    ∃ e, scan crc32 data fuel (st.walIndex.getCheckpoint id) (st.walIndex.getCheckpoint id) =
      some e ∧ Replayed st st' id path data e := by
  simp only [replayWalSegment, hfile, replayWalLoop, scanLoop_eq_foldl, Option.map_map,
    Option.map_eq_some_iff] at h
  obtain ⟨e, he, rfl⟩ := h
  refine ⟨e, he, ?_⟩
  have hfr := foldl_replayVisit_frame id e.state st
  have hrows := foldl_replayVisit_entryRegistry id e.state st
  have hcp (j : Nat) : (e.state.foldl (replayVisit id) st).walIndex.getCheckpoint j =
      st.walIndex.getCheckpoint j := by
    simp [FjallIndex.getCheckpoint, hfr.checkpoints]
  dsimp only [Function.comp_apply]
  cases htorn : e.torn with
  | true =>
    have hget : (e.state.foldl (replayVisit id) st).files.get path = some data := by
      rw [hfr.files, hfile]
    simp only [if_true, purgeWalLocationsAfterTornSegment, truncateFile, hget]
    refine ⟨by simp [htorn, hfr.files], hfr.registry, hrows, hfr.entries, fun j => ?_,
      fun k => ?_, rfl⟩
    · rw [getCheckpoint_set, ← hcp j]
      simp [FjallIndex.getCheckpoint, FjallIndex.deleteLocationsInSegmentTail,
        FjallIndex.foldl_deleteLocation_checkpoints]
    · simp only [htorn, Bool.true_and]
      exact FjallIndex.getLocation_deleteTail _ _ _ k
  | false =>
    simp only [Bool.false_eq_true, if_false]
    refine ⟨by simp [htorn, hfr.files], hfr.registry, hrows, hfr.entries, fun j => ?_,
      fun k => ?_, rfl⟩
    · rw [getCheckpoint_set, hcp j]
    · simp only [htorn, Bool.false_and, Bool.not_false]
      change (e.state.foldl (replayVisit id) st).walIndex.getLocation k = _
      cases (e.state.foldl (replayVisit id) st).walIndex.getLocation k <;> rfl

theorem Replayed.cut {fuel cp : Nat} (h : Replayed st st' id path data e)
    (hfile : st.files.get path = some data) (he : scan crc32 data fuel cp cp = some e) :
    st'.files.get path = some (data.take (if e.torn then e.lastValid else data.length)) ∧
      ∀ p, p ≠ path → st'.files.get p = st.files.get p := by
  rw [h.files]
  cases htorn : e.torn with
  | true =>
    have hfit := scan_torn_fits crc32 (Nat.le_refl _) he htorn
    refine ⟨?_, fun p hp => Table.get_put_ne _ _ hp⟩
    rw [if_pos rfl, if_pos rfl, Table.get_put_self, setLen_of_le hfit]
  | false => simp [hfile]

theorem replayMeta_file {m : SegmentMeta} (h : replayMeta crc32 fuel st m = some st') :
    (st' = st ∧ ∀ path, m.localPath = some path → st.files.get path = none) ∨
      ∃ path data, m.localPath = some path ∧ st.files.get path = some data ∧
        replayWalSegment crc32 fuel m.id path st = some st' := by
  cases hpath : m.localPath with
  | none =>
    simp only [replayMeta, hpath] at h
    cases h
    exact .inl ⟨rfl, by simp⟩
  | some path =>
    simp only [replayMeta, hpath] at h
    cases hfile : st.files.get path with
    | none =>
      simp only [replayWalSegment, hfile] at h
      cases h
      exact .inl ⟨rfl, by simp [hfile]⟩
    | some data => exact .inr ⟨path, data, rfl, hfile, h⟩

def Below (x : FjallIndex) : Prop :=
  ∀ k iv, x.getLocation k = some iv → iv.offset < x.getCheckpoint iv.segmentId

structure Effect (st st' : Store) (id : SegmentId) (path : SegPath) (data : Bytes)
    (e : ScanEnd (List Visit)) : Prop where
  files : st'.files =
    if e.torn then st.files.put path (setLen data e.lastValid) else st.files
  registry : st'.walRegistry = st.walRegistry
  entries : st'.entryIndex = st.entryIndex
  checkpoint : ∀ j, st'.walIndex.getCheckpoint j =
    if j = id then e.lastValid else st.walIndex.getCheckpoint j
  keeps : ∀ k iv, st.walIndex.getLocation k = some iv → st'.walIndex.getLocation k = some iv
  origin : ∀ k iv, st'.walIndex.getLocation k = some iv → st.walIndex.getLocation k = some iv ∨
    ∃ v ∈ e.state, v.record.key = k ∧ iv.segmentId = id ∧ iv.offset = v.pos
  indexes : ∀ v ∈ e.state, (st.entryIndex.getLocation v.record.key).isSome ∨
    (st'.walIndex.getLocation v.record.key).isSome

theorem foldl_front {st : Store}
    (hb : Below st.walIndex)
    (he : scan crc32 data fuel (st.walIndex.getCheckpoint id) (st.walIndex.getCheckpoint id) =
      some e) {k : Key} {iv : IndexValue}
    (hk : (e.state.foldl (replayVisit id) st).walIndex.getLocation k = some iv) :
    FjallIndex.inTail id e.lastValid (k, iv) = false := by
  have hlast := scan_lastValid_ge crc32 (Nat.le_refl _) he
  simp only [FjallIndex.inTail, Bool.and_eq_false_iff, beq_eq_false_iff_ne,
    decide_eq_false_iff_not]
  rcases foldl_origin id e.state st hk with hold | ⟨v, hv, -, hid, hoff⟩
  · by_cases hid : iv.segmentId = id
    · have := hb k iv hold
      rw [hid] at this
      exact .inr (by omega)
    · exact .inl hid
  · have hv := scan_sound crc32 he v hv
    have hlen := decode_len crc32 hv.2.2
    exact .inr (by omega)

theorem replay_effect (hb : Below st.walIndex) (hfile : st.files.get path = some data)
    (h : replayWalSegment crc32 fuel id path st = some st') :
    ∃ e, scan crc32 data fuel (st.walIndex.getCheckpoint id) (st.walIndex.getCheckpoint id) =
        some e ∧ Effect st st' id path data e := by
  obtain ⟨e, he, hr⟩ := replayWalSegment_replayed crc32 hfile h
  -- the purge finds nothing
  have hset (k : Key) : st'.walIndex.getLocation k =
      (e.state.foldl (replayVisit id) st).walIndex.getLocation k := by
    rw [hr.location]
    cases hk : (e.state.foldl (replayVisit id) st).walIndex.getLocation k with
    | none => rfl
    | some iv => simp [Option.filter, foldl_front crc32 hb he hk]
  refine ⟨e, he, hr.files, hr.walRegistry, hr.entryIndex, hr.checkpoint, fun k iv hk => ?_,
    fun k iv hk => ?_, fun v hv => ?_⟩
  · rw [hset]
    exact foldl_keeps id e.state st hk
  · rw [hset] at hk
    exact foldl_origin id e.state st hk
  · rw [hset]
    exact foldl_indexes id e.state st hv

theorem Effect.other_file {path path' : SegPath} (h : Effect st st' id path data e)
    (hne : path' ≠ path) : st'.files.get path' = st.files.get path' := by
  rw [h.files]
  split_ifs
  · exact Table.get_put_ne _ _ hne
  · rfl

theorem Effect.front (h : Effect st st' id path data e) (hfile : st.files.get path = some data)
    (hfit : e.lastValid ≤ data.length) :
    ∃ data', st'.files.get path = some data' ∧
      data.take e.lastValid = data'.take e.lastValid ∧ e.lastValid ≤ data'.length := by
  rw [h.files]
  split_ifs
  · refine ⟨_, Table.get_put_self _ _ _, ?_, by rw [setLen_length]⟩
    rw [setLen_of_le hfit, List.take_take, Nat.min_self]
  · exact ⟨data, hfile, rfl, hfit⟩

theorem Effect.below
    (hb : Below st.walIndex)
    (he : scan crc32 data fuel (st.walIndex.getCheckpoint id) (st.walIndex.getCheckpoint id) =
      some e)
    (h : Effect st st' id path data e) : Below st'.walIndex := by
  have hlast := scan_lastValid_ge crc32 (Nat.le_refl _) he
  intro k iv hk
  rw [h.checkpoint]
  rcases h.origin k iv hk with hold | ⟨v, hv, -, hid, hoff⟩
  · have := hb k iv hold
    split_ifs with hid
    · rw [hid] at this
      omega
    · exact this
  · have hv := scan_sound crc32 he v hv
    have hlen := decode_len crc32 hv.2.2
    rw [if_pos hid]
    omega

theorem replayMeta_cases {m : SegmentMeta}
    (hb : Below st.walIndex) (h : replayMeta crc32 fuel st m = some st') :
    (st' = st ∧ ∀ path, m.localPath = some path → st.files.get path = none) ∨
      ∃ path data e, m.localPath = some path ∧ st.files.get path = some data ∧
        scan crc32 data fuel (st.walIndex.getCheckpoint m.id) (st.walIndex.getCheckpoint m.id) =
          some e ∧ Effect st st' m.id path data e := by
  obtain hnone | ⟨path, data, hpath, hfile, hrun⟩ := replayMeta_file crc32 h
  · exact .inl hnone
  · obtain ⟨e, he, eff⟩ := replay_effect crc32 hb hfile hrun
    exact .inr ⟨path, data, e, hpath, hfile, he, eff⟩

section EntryPhase
variable {st st' : Store} {fuel : Nat}

structure SameWal (st st' : Store) : Prop where
  files : ∀ path, (∀ id, path ≠ .entrySeg id) → st'.files.get path = st.files.get path
  registry : st'.walRegistry = st.walRegistry
  index : st'.walIndex = st.walIndex

theorem SameWal.trans {a b c : Store} (h : SameWal a b) (h' : SameWal b c) : SameWal a c where
  files path hp := (h'.files path hp).trans (h.files path hp)
  registry := h'.registry.trans h.registry
  index := h'.index.trans h.index

theorem recoverVisit_sameWal (id : SegmentId) (st : Store) (v : Visit) :
    SameWal st (recoverVisit id st v) := by
  unfold recoverVisit
  split_ifs <;> exact ⟨fun _ _ => rfl, rfl, rfl⟩

theorem foldl_recoverVisit_sameWal (id : SegmentId) (vs : List Visit) (st : Store) :
    SameWal st (vs.foldl (recoverVisit id) st) := by
  induction vs generalizing st with
  | nil => exact ⟨fun _ _ => rfl, rfl, rfl⟩
  | cons v vs ih => exact (recoverVisit_sameWal id st v).trans (ih _)

theorem recoverEntrySegment_sameWal
    (h : recoverEntrySegment crc32 fuel id (.entrySeg id) st = some st') : SameWal st st' := by
  unfold recoverEntrySegment at h
  split at h
  · cases h
    exact ⟨fun _ _ => rfl, rfl, rfl⟩
  · simp only [recoverEntryLoop, scanLoop_eq_foldl, Option.map_map, Option.map_eq_some_iff] at h
    obtain ⟨e, -, rfl⟩ := h
    rename_i data hdata
    have hreg : SameWal st (registerEntryIfAbsent st id (.entrySeg id) data.length) := by
      unfold registerEntryIfAbsent
      split_ifs <;> exact ⟨fun _ _ => rfl, rfl, rfl⟩
    refine (hreg.trans (foldl_recoverVisit_sameWal id e.state _)).trans ?_
    dsimp only [Function.comp_apply]
    split_ifs
    · refine ⟨fun path hp => ?_, ?_, ?_⟩ <;>
        simp only [purgeEntryLocationsAfterTornSegment, truncateFile] <;> split <;> try rfl
      exact Table.get_put_ne _ _ (hp id)
    · exact ⟨fun _ _ => rfl, rfl, rfl⟩

theorem recoverEntrySegments_sameWal
    (h : recoverEntrySegments crc32 fuel st = some st') : SameWal st st' := by
  unfold recoverEntrySegments at h
  generalize entrySegmentIds st.files = ids at h
  induction ids generalizing st with
  | nil =>
    cases h
    exact ⟨fun _ _ => rfl, rfl, rfl⟩
  | cons id ids ih =>
    rw [List.foldlM_cons] at h
    obtain ⟨mid, hmid, hrest⟩ := Option.bind_eq_some_iff.mp h
    exact (recoverEntrySegment_sameWal crc32 hmid).trans (ih hrest)

theorem recoverEntries_sameWal
    (h : recoverEntrySegments crc32 fuel { st with stats := {} } = some st') : SameWal st st' :=
  have hreset : SameWal st { st with stats := {} } := ⟨fun _ _ => rfl, rfl, rfl⟩
  hreset.trans (recoverEntrySegments_sameWal crc32 h)

end EntryPhase
end Folio.ReplayEffect
