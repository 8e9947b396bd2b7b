import Folio.Crc32
import Folio.EntrySegment
import Folio.RestartFile

/-! The first phase of recovery over all entry segment files: what it leaves of the files and of
`entry_index`. A location in the cut-off tail of its own segment goes; a key without location gets
that of the first record of it that the phase still comes to. -/
namespace Folio.EntryRecovery
open ByteCodec KeyedTable Protocol Fjall Segment RecoveryScan CrashRecovery RestartFile
variable (crc32 : Bytes → UInt32)

section OneSegment

def firstVisit (id : SegmentId) (vs : List Visit) (k : Key) : Option IndexValue :=
  (vs.find? fun v => decide (v.record.key = k)).map fun v => ⟨id, v.pos, v.len % 256 ^ 4⟩

def keeps (id : SegmentId) (e : ScanEnd (List Visit)) (iv : IndexValue) : Bool :=
  !(e.torn && (iv.segmentId == id && decide (e.lastValid ≤ iv.offset)))

variable {crc32} {fuel : Nat} {id : SegmentId} {data : Bytes} {st st' : Store} {k : Key}
  {e : ScanEnd (List Visit)} {iv : IndexValue}

theorem recoverVisit_location (v : Visit) :
    (recoverVisit id st v).entryIndex.getLocation k =
      (st.entryIndex.getLocation k).or (firstVisit id [v] k) := by
  unfold recoverVisit
  by_cases hk : v.record.key = k
  · subst hk
    cases hloc : st.entryIndex.getLocation v.record.key <;>
      simp [hloc, firstVisit, FjallIndex.getLocation_insert]
  · have hk' : k ≠ v.record.key := fun heq => hk heq.symm
    split_ifs <;> simp [firstVisit, hk, hk', FjallIndex.getLocation_insert]

theorem foldl_recoverVisit_location (vs : List Visit) :
    (vs.foldl (recoverVisit id) st).entryIndex.getLocation k =
      (st.entryIndex.getLocation k).or (firstVisit id vs k) := by
  induction vs generalizing st with
  | nil => simp [firstVisit]
  | cons v vs ih =>
    rw [List.foldl_cons, ih, recoverVisit_location, Option.or_assoc]
    congr 1
    by_cases hk : v.record.key = k <;> simp [firstVisit, hk]

theorem firstVisit_eq_none (vs : List Visit) :
    firstVisit id vs k = none ↔ ∀ v ∈ vs, v.record.key ≠ k := by
  simp [firstVisit]

theorem keeps_firstVisit (he : scan crc32 data fuel 0 0 = some e)
    (h : firstVisit id e.state k = some iv) : iv.segmentId = id ∧ keeps id e iv = true := by
  obtain ⟨v, hv, rfl⟩ := Option.map_eq_some_iff.mp h
  obtain ⟨-, hend, hd⟩ := scan_sound crc32 he v (List.mem_of_find?_eq_some hv)
  have hlen := decode_len crc32 hd
  refine ⟨rfl, ?_⟩
  have hfront : ¬e.lastValid ≤ v.pos := by omega
  simp [keeps, hfront]

theorem keeps_other (h : iv.segmentId ≠ id) : keeps id e iv = true := by
  simp [keeps, h]

structure SegEffect (st st' : Store) (id : SegmentId) (data : Bytes) (e : ScanEnd (List Visit)) :
    Prop where
  file : st'.files.get (.entrySeg id) = some (leftFile data e)
  others : ∀ path, path ≠ .entrySeg id → st'.files.get path = st.files.get path
  location : ∀ k, st'.entryIndex.getLocation k =
    ((st.entryIndex.getLocation k).or (firstVisit id e.state k)).filter (keeps id e)
  row : (st'.entryRegistry.get id).isSome
  rows : ∀ j, (st.entryRegistry.get j).isSome → (st'.entryRegistry.get j).isSome
  cache : st'.cache = st.cache

theorem foldl_recoverVisit_frame (vs : List Visit) :
    (vs.foldl (recoverVisit id) st).files = st.files ∧
      (vs.foldl (recoverVisit id) st).entryRegistry = st.entryRegistry ∧
      (vs.foldl (recoverVisit id) st).cache = st.cache := by
  induction vs generalizing st with
  | nil => exact ⟨rfl, rfl, rfl⟩
  | cons v vs ih =>
    have hstep : (recoverVisit id st v).files = st.files ∧
        (recoverVisit id st v).entryRegistry = st.entryRegistry ∧
        (recoverVisit id st v).cache = st.cache := by
      unfold recoverVisit
      split_ifs <;> exact ⟨rfl, rfl, rfl⟩
    rw [List.foldl_cons, ih.1, ih.2.1, ih.2.2]
    exact hstep

theorem registerEntry_frame (path : SegPath) (n : Nat) :
    (registerEntryIfAbsent st id path n).files = st.files ∧
      (registerEntryIfAbsent st id path n).entryIndex = st.entryIndex ∧
      (registerEntryIfAbsent st id path n).cache = st.cache ∧
      ((registerEntryIfAbsent st id path n).entryRegistry.get id).isSome ∧
      ∀ j, (st.entryRegistry.get j).isSome →
        ((registerEntryIfAbsent st id path n).entryRegistry.get j).isSome := by
  unfold registerEntryIfAbsent
  split_ifs with hnone
  · refine ⟨rfl, rfl, rfl, ?_, fun j hj => Table.isSome_put _ hj⟩
    dsimp only [SegmentRegistry.upsert]
    rw [Table.get_put_self]
    rfl
  · refine ⟨rfl, rfl, rfl, ?_, fun _ hj => hj⟩
    simpa [Option.isSome_iff_ne_none] using hnone

theorem recoverEntrySegment_effect (hfile : st.files.get (.entrySeg id) = some data)
    (h : recoverEntrySegment crc32 fuel id (.entrySeg id) st = some st') :
    ∃ e, scan crc32 data fuel 0 0 = some e ∧ SegEffect st st' id data e := by
  simp only [recoverEntrySegment, hfile, recoverEntryLoop, scanLoop_eq_foldl, Option.map_map,
    Option.map_eq_some_iff] at h
  obtain ⟨e, he, rfl⟩ := h
  refine ⟨e, he, ?_⟩
  obtain ⟨hfiles, hindex, hcache, hrow, hrows⟩ :=
    @registerEntry_frame id st (.entrySeg id) data.length
  obtain ⟨hfiles', hrows', hcache'⟩ := @foldl_recoverVisit_frame id
    (registerEntryIfAbsent st id (.entrySeg id) data.length) e.state
  have hloc := fun k => @foldl_recoverVisit_location id
    (registerEntryIfAbsent st id (.entrySeg id) data.length) k e.state
  generalize hfold : e.state.foldl (recoverVisit id)
    (registerEntryIfAbsent st id (.entrySeg id) data.length) = mid at *
  rw [hfiles] at hfiles'
  rw [hindex] at hloc
  dsimp only [Function.comp_apply]
  rw [hfold]
  cases htorn : e.torn with
  | true =>
    have hget : mid.files.get (.entrySeg id) = some data := by rw [hfiles', hfile]
    simp only [if_true, purgeEntryLocationsAfterTornSegment, truncateFile, hget]
    refine ⟨?_, fun path hp => ?_, fun k => ?_, ?_, fun j hj => ?_, hcache'.trans hcache⟩
    · rw [Table.get_put_self, leftFile, if_pos htorn]
    · rw [Table.get_put_ne _ _ hp, hfiles']
    · rw [FjallIndex.getLocation_deleteTail, hloc]
      congr 1
      funext iv
      simp [keeps, FjallIndex.inTail, htorn]
    · rw [hrows']
      exact hrow
    · rw [hrows']
      exact hrows j hj
  | false =>
    have hall : keeps id e = fun _ => true := by
      funext iv
      simp [keeps, htorn]
    simp only [Bool.false_eq_true, if_false]
    refine ⟨?_, fun path _ => by rw [hfiles'], fun k => ?_, ?_, fun j hj => ?_,
      hcache'.trans hcache⟩
    · rw [hfiles', hfile, leftFile, htorn]
      rfl
    · rw [hloc, hall]
      cases (st.entryIndex.getLocation k).or (firstVisit id e.state k) <;> rfl
    · rw [hrows']
      exact hrow
    · rw [hrows']
      exact hrows j hj

end OneSegment

section Phase
variable (fuel : Nat) (files : Table SegPath Bytes)

def scanOf (id : SegmentId) : Option (ScanEnd (List Visit)) :=
  (files.get (.entrySeg id)).bind fun data => scan crc32 data fuel 0 0

def stepLocation (k : Key) (o : Option IndexValue) (id : SegmentId) : Option IndexValue :=
  match scanOf crc32 fuel files id with
  | none => o
  | some e => (o.or (firstVisit id e.state k)).filter (keeps id e)

structure PhaseEffect (ids : List SegmentId) (st st' : Store) : Prop where
  file : ∀ id ∈ ids, ∀ data, st.files.get (.entrySeg id) = some data →
    ∃ e, scan crc32 data fuel 0 0 = some e ∧
      st'.files.get (.entrySeg id) = some (leftFile data e)
  others : ∀ path, (∀ id ∈ ids, path ≠ .entrySeg id) → st'.files.get path = st.files.get path
  location : ∀ k, st'.entryIndex.getLocation k =
    ids.foldl (stepLocation crc32 fuel st.files k) (st.entryIndex.getLocation k)
  row : ∀ id ∈ ids, (st'.entryRegistry.get id).isSome
  rows : ∀ j, (st.entryRegistry.get j).isSome → (st'.entryRegistry.get j).isSome
  cache : st'.cache = st.cache

variable {crc32} {fuel} {files} {st st' : Store} {ids : List SegmentId} {k : Key}
  {iv : IndexValue}

theorem scanOf_eq_some {id : SegmentId} {e : ScanEnd (List Visit)} :
    scanOf crc32 fuel files id = some e ↔
      ∃ data, files.get (.entrySeg id) = some data ∧ scan crc32 data fuel 0 0 = some e :=
  Option.bind_eq_some_iff

theorem SegEffect.phase {mid : Store} {id : SegmentId} {data : Bytes}
    {e : ScanEnd (List Visit)} (hfile : st.files.get (.entrySeg id) = some data)
    (he : scan crc32 data fuel 0 0 = some e) (h : SegEffect st mid id data e) (hid : id ∉ ids)
    (hrest : PhaseEffect crc32 fuel ids mid st') :
    PhaseEffect crc32 fuel (id :: ids) st st' := by
  have hother (j : SegmentId) (hj : j ∈ ids) :
      mid.files.get (.entrySeg j) = st.files.get (.entrySeg j) :=
    h.others _ fun heq => hid (SegPath.entrySeg.inj heq ▸ hj)
  refine ⟨fun j hj d hd => ?_, fun path hp => ?_, fun k => ?_, fun j hj => ?_,
    fun j hj => hrest.rows j (h.rows j hj), hrest.cache.trans h.cache⟩
  · rcases List.mem_cons.mp hj with rfl | hj
    · obtain rfl : data = d := Option.some.inj (hfile.symm.trans hd)
      have hlater := hrest.others (.entrySeg j) fun i hi heq =>
        hid ((SegPath.entrySeg.inj heq).symm ▸ hi)
      exact ⟨e, he, hlater.trans h.file⟩
    · exact hrest.file j hj d (by rw [hother j hj, hd])
  · rw [hrest.others path fun j hj => hp j (List.mem_cons_of_mem _ hj),
      h.others path (hp id List.mem_cons_self)]
  · have hstep : stepLocation crc32 fuel st.files k (st.entryIndex.getLocation k) id =
        mid.entryIndex.getLocation k := by
      rw [stepLocation, scanOf_eq_some.mpr ⟨data, hfile, he⟩, h.location]
    rw [hrest.location, List.foldl_cons, hstep]
    refine List.foldl_ext _ _ _ fun o j hj => ?_
    rw [stepLocation, stepLocation, scanOf, scanOf, hother j hj]
  · rcases List.mem_cons.mp hj with rfl | hj
    · exact hrest.rows _ h.row
    · exact hrest.row j hj

theorem phase_effect (hnd : ids.Nodup) (hfiles : ∀ id ∈ ids, (st.files.get (.entrySeg id)).isSome)
    (h : ids.foldlM (fun st id => recoverEntrySegment crc32 fuel id (.entrySeg id) st) st =
      some st') : PhaseEffect crc32 fuel ids st st' := by
  induction ids generalizing st with
  | nil =>
    cases h
    exact ⟨by simp, fun _ _ => rfl, fun _ => rfl, by simp, fun _ h => h, rfl⟩
  | cons id ids ih =>
    obtain ⟨hid, hnd⟩ := List.nodup_cons.mp hnd
    rw [List.foldlM_cons] at h
    obtain ⟨mid, hmid, hrest⟩ := Option.bind_eq_some_iff.mp h
    obtain ⟨data, hdata⟩ := Option.isSome_iff_exists.mp (hfiles id List.mem_cons_self)
    obtain ⟨e, he, eff⟩ := recoverEntrySegment_effect hdata hmid
    refine eff.phase hdata he hid (ih hnd (fun j hj => ?_) hrest)
    rw [eff.others _ fun heq => hid (SegPath.entrySeg.inj heq ▸ hj)]
    exact hfiles j (List.mem_cons_of_mem _ hj)

theorem mem_entrySegmentIds (id : SegmentId) :
    id ∈ entrySegmentIds files ↔ (files.get (.entrySeg id)).isSome := by
  rw [entrySegmentIds, sortedIds, (List.perm_insertionSort _ _).mem_iff, List.mem_filterMap,
    Option.isSome_iff_exists, ← Table.mem_keys_iff]
  constructor
  · rintro ⟨path, hpath, hid⟩
    cases path <;> simp_all
  · exact fun h => ⟨_, h, rfl⟩

theorem entrySegmentIds_sorted : (entrySegmentIds files).Pairwise (· < ·) := by
  have hle : (entrySegmentIds files).Pairwise (· ≤ ·) := List.pairwise_insertionSort _ _
  have hnd : (entrySegmentIds files).Nodup := by
    rw [entrySegmentIds, sortedIds, (List.perm_insertionSort _ _).nodup_iff]
    refine List.Nodup.filterMap (fun a b i ha hb => ?_) files.nodup
    cases a <;> cases b <;> simp_all
  exact (hle.and hnd).imp fun h => Nat.lt_of_le_of_ne h.1 h.2

theorem recoverEntrySegments_effect (h : recoverEntrySegments crc32 fuel st = some st') :
    PhaseEffect crc32 fuel (entrySegmentIds st.files) st st' :=
  phase_effect (entrySegmentIds_sorted.imp Nat.ne_of_lt)
    (fun id hid => (mem_entrySegmentIds id).mp hid) h

theorem foldl_stepLocation_keeps
    (h : ∀ id ∈ ids, ∀ e, scanOf crc32 fuel files id = some e → keeps id e iv = true) :
    ids.foldl (stepLocation crc32 fuel files k) (some iv) = some iv := by
  induction ids with
  | nil => rfl
  | cons id ids ih =>
    have hstep : stepLocation crc32 fuel files k (some iv) id = some iv := by
      cases hs : scanOf crc32 fuel files id with
      | none => simp [stepLocation, hs]
      | some e => simp [stepLocation, hs, Option.filter, h id List.mem_cons_self e hs]
    rw [List.foldl_cons, hstep]
    exact ih fun j hj => h j (List.mem_cons_of_mem _ hj)

theorem foldl_stepLocation_none (hnd : ids.Nodup) :
    (ids.foldl (stepLocation crc32 fuel files k) none = none ∧
      ∀ id ∈ ids, ∀ e, scanOf crc32 fuel files id = some e → ∀ v ∈ e.state, v.record.key ≠ k) ∨
    ∃ iv, ids.foldl (stepLocation crc32 fuel files k) none = some iv ∧ iv.segmentId ∈ ids ∧
      ∃ e, scanOf crc32 fuel files iv.segmentId = some e ∧ ∃ v ∈ e.state, v.record.key = k := by
  induction ids with
  | nil => exact .inl ⟨rfl, by simp⟩
  | cons id ids ih =>
    obtain ⟨hid, hnd⟩ := List.nodup_cons.mp hnd
    -- whether this segment shows the key
    by_cases hshow : ∃ e, scanOf crc32 fuel files id = some e ∧ firstVisit id e.state k ≠ none
    · obtain ⟨e, hs, hfirst⟩ := hshow
      obtain ⟨iv, hiv⟩ := Option.ne_none_iff_exists'.mp hfirst
      obtain ⟨data, -, he⟩ := scanOf_eq_some.mp hs
      obtain ⟨hseg, hkeep⟩ := keeps_firstVisit he hiv
      have hstep : stepLocation crc32 fuel files k none id = some iv := by
        simp [stepLocation, hs, hiv, Option.filter, hkeep]
      right
      refine ⟨iv, ?_, hseg ▸ List.mem_cons_self, e, hseg ▸ hs, ?_⟩
      · rw [List.foldl_cons, hstep]
        exact foldl_stepLocation_keeps fun j hj e' _ =>
          keeps_other fun heq => hid (hseg ▸ heq ▸ hj)
      · simpa [firstVisit_eq_none] using hfirst
    · have hnone : ∀ e, scanOf crc32 fuel files id = some e → firstVisit id e.state k = none := by
        simpa using hshow
      have hstep : stepLocation crc32 fuel files k none id = none := by
        cases hs : scanOf crc32 fuel files id with
        | none => simp [stepLocation, hs]
        | some e => simp [stepLocation, hs, hnone e hs]
      rw [List.foldl_cons, hstep]
      obtain ⟨hfold, hrest⟩ | ⟨iv, hfold, hmem, hvisit⟩ := ih hnd
      · refine .inl ⟨hfold, fun j hj e he => ?_⟩
        rcases List.mem_cons.mp hj with rfl | hj
        · exact (firstVisit_eq_none _).mp (hnone e he)
        · exact hrest j hj e he
      · exact .inr ⟨iv, hfold, List.mem_cons_of_mem _ hmem, hvisit⟩

theorem foldl_stepLocation_kept
    (h : ∀ e, scanOf crc32 fuel files iv.segmentId = some e → keeps iv.segmentId e iv = true) :
    ids.foldl (stepLocation crc32 fuel files k) (some iv) = some iv := by
  refine foldl_stepLocation_keeps fun id _ e he => ?_
  by_cases hid : iv.segmentId = id
  · subst hid
    exact h e he
  · exact keeps_other hid

theorem foldl_stepLocation_dropped {e : ScanEnd (List Visit)}
    (hs : scanOf crc32 fuel files iv.segmentId = some e) (hdrop : keeps iv.segmentId e iv = false) :
    ∃ pre post, entrySegmentIds files = pre ++ iv.segmentId :: post ∧
      (entrySegmentIds files).foldl (stepLocation crc32 fuel files k) (some iv) =
        post.foldl (stepLocation crc32 fuel files k) none := by
  obtain ⟨data, hdata, -⟩ := scanOf_eq_some.mp hs
  obtain ⟨pre, post, hids⟩ := List.append_of_mem
    ((mem_entrySegmentIds iv.segmentId).mpr (by rw [hdata]; rfl))
  have hnd := (@entrySegmentIds_sorted files).imp Nat.ne_of_lt
  refine ⟨pre, post, hids, ?_⟩
  rw [hids] at hnd ⊢
  have hpre : pre.foldl (stepLocation crc32 fuel files k) (some iv) = some iv := by
    refine foldl_stepLocation_keeps fun id hid e' _ => keeps_other fun heq => ?_
    subst heq
    exact (List.nodup_append.mp hnd).2.2 _ hid _ List.mem_cons_self rfl
  rw [List.foldl_append, hpre, List.foldl_cons]
  congr 1
  simp [stepLocation, hs, Option.filter, hdrop]

end Phase

section Readable

/-- A store whose every `entry_index` location points at a valid record of its key. -/
structure IndexedStore extends Store where
  readable : ∀ k iv, entryIndex.getLocation k = some iv →
    ∃ data r n, files.get (.entrySeg iv.segmentId) = some data ∧
      decodeRecord crc32 data iv.offset = .ok (r, n) ∧ r.key = k

/-- Every location is still there, and the bytes of its record are still in the file. -/
def StillReadable (st st' : Store) : Prop :=
  ∀ k iv data r n, st.entryIndex.getLocation k = some iv →
    st.files.get (.entrySeg iv.segmentId) = some data →
    decodeRecord crc32 data iv.offset = .ok (r, n) →
    st'.entryIndex.getLocation k = some iv ∧
      ∃ data', st'.files.get (.entrySeg iv.segmentId) = some data' ∧
        window data' iv.offset n = window data iv.offset n

/-- Where the scan of a file meets damage, it has passed every indexed record of the file. -/
def DamageBehind (fuel : Nat) (st : Store) : Prop :=
  ∀ k iv data r n e, st.entryIndex.getLocation k = some iv →
    st.files.get (.entrySeg iv.segmentId) = some data →
    decodeRecord crc32 data iv.offset = .ok (r, n) →
    scan crc32 data fuel 0 0 = some e → e.torn = true → iv.offset + n ≤ e.lastValid

variable {crc32} {fuel : Nat} {data : Bytes} {r : Rec} {n : Nat} {e : ScanEnd (List Visit)}

theorem window_leftFile_iff {pos : Nat} (h : decodeRecord crc32 data pos = .ok (r, n))
    (he : scan crc32 data fuel 0 0 = some e) :
    window (leftFile data e) pos n = window data pos n ↔
      (e.torn = true → pos + n ≤ e.lastValid) := by
  have hfit := decode_len crc32 h
  rw [leftFile_eq_take crc32 he]
  cases htorn : e.torn with
  | false => simp
  | true =>
    simp only [if_true, true_implies]
    constructor
    · intro heq
      have hlen := congrArg List.length heq
      rw [window_length, window_length_of_le data pos n hfit.2, List.length_take] at hlen
      omega
    · intro hle
      exact window_congr (by rw [List.take_take, Nat.min_self]) hle

theorem location_kept_iff {st st' : Store} {k : Key} {iv : IndexValue}
    (h : recoverEntrySegments crc32 fuel st = some st')
    (hk : st.entryIndex.getLocation k = some iv)
    (hs : scanOf crc32 fuel st.files iv.segmentId = some e) :
    st'.entryIndex.getLocation k = some iv ↔ keeps iv.segmentId e iv = true := by
  rw [(recoverEntrySegments_effect h).location k, hk]
  constructor
  · intro hkept
    by_contra hdrop
    obtain ⟨pre, post, hids, hfold⟩ :=
      @foldl_stepLocation_dropped crc32 fuel st.files k iv e hs (by simpa using hdrop)
    rw [hfold] at hkept
    -- a location found later is in a later segment
    have hnd := (@entrySegmentIds_sorted st.files).imp Nat.ne_of_lt
    obtain ⟨hnot, hpost⟩ := List.nodup_cons.mp (List.nodup_append.mp (hids ▸ hnd)).2.1
    obtain ⟨hnone, -⟩ | ⟨iv', hsome, hseg, -⟩ :=
      @foldl_stepLocation_none crc32 fuel st.files post k hpost
    · simp [hnone] at hkept
    · obtain rfl : iv' = iv := Option.some.inj (hsome.symm.trans hkept)
      exact hnot hseg
  · intro hkeep
    refine foldl_stepLocation_kept fun e' he' => ?_
    obtain rfl : e = e' := Option.some.inj (hs.symm.trans he')
    exact hkeep

/-- The first phase keeps every readable entry readable exactly when all damage lies behind the
indexed records of its file. -/
theorem readable_kept_iff (st : IndexedStore crc32) (st' : Store)
    (h : recoverEntrySegments crc32 fuel st.toStore = some st') :
    StillReadable crc32 st.toStore st' ↔ DamageBehind crc32 fuel st.toStore := by
  have eff := recoverEntrySegments_effect h
  -- the scan and the recovered file of a segment that a location points into
  have hend {data : Bytes} {id : SegmentId} (hfile : st.files.get (.entrySeg id) = some data) :
      ∃ e, scan crc32 data fuel 0 0 = some e ∧
        st'.files.get (.entrySeg id) = some (leftFile data e) :=
    eff.file id ((mem_entrySegmentIds id).mpr (by rw [hfile]; rfl)) data hfile
  constructor
  · intro hread k iv data r n e hk hfile hd he htorn
    obtain ⟨-, data', hfile', hwin⟩ := hread k iv data r n hk hfile hd
    obtain ⟨e', he', hleft⟩ := hend hfile
    obtain rfl := scan_deterministic crc32 he he'
    obtain rfl : leftFile data e = data' := Option.some.inj (hleft.symm.trans hfile')
    exact (window_leftFile_iff hd he).mp hwin htorn
  · intro hbehind k iv data r n hk hfile hd
    obtain ⟨e, he, hleft⟩ := hend hfile
    have hcut := hbehind k iv data r n e hk hfile hd he
    refine ⟨(location_kept_iff h hk (scanOf_eq_some.mpr ⟨data, hfile, he⟩)).mpr ?_, _, hleft,
      (window_leftFile_iff hd he).mpr hcut⟩
    have hlen := decode_len crc32 hd
    cases htorn : e.torn with
    | false => simp [keeps, htorn]
    | true =>
      have := hcut htorn
      have hfront : ¬e.lastValid ≤ iv.offset := by omega
      simp [keeps, hfront]

def oneSegment (data : Bytes) (r : Rec) (pos : Nat) : Store where
  files := Table.empty.put (.entrySeg 0) data
  walIndex := .empty
  entryIndex := FjallIndex.empty.insertLocation r.key 0 pos r.len
  walRegistry := .empty
  entryRegistry := .empty
  cache := .new 65536
  stats := {}

theorem oneSegment_readable {pos : Nat} (h : decodeRecord crc32 data pos = .ok (r, r.len)) (k : Key)
    (iv : IndexValue) (hk : (oneSegment data r pos).entryIndex.getLocation k = some iv) :
    ∃ data' r' n, (oneSegment data r pos).files.get (.entrySeg iv.segmentId) = some data' ∧
      decodeRecord crc32 data' iv.offset = .ok (r', n) ∧ r'.key = k := by
  rw [oneSegment, FjallIndex.getLocation_insert] at hk
  split_ifs at hk with heq
  · cases hk
    exact ⟨data, r, r.len, Table.get_put_self _ _ _, h, heq.symm⟩
  · cases hk

def tornTail : Bytes := Segment.firstRec.encode Crc32.crc32 ++ [1, 0, 0, 0, 0]

/-- A record with one damaged payload byte, followed by a whole one. -/
def damagedFront : Bytes :=
  (Segment.firstRec.encode Crc32.crc32).set 20 8 ++ Segment.secondRec.encode Crc32.crc32

theorem tornTail_decodes : decodeRecord Crc32.crc32 tornTail 0 =
    .ok (Segment.firstRec, Segment.firstRec.len) :=
  decodeRecord_of_encode _ _ _ _ (by decide +kernel)

theorem damagedFront_decodes : decodeRecord Crc32.crc32 damagedFront 25 =
    .ok (Segment.secondRec, Segment.secondRec.len) :=
  decodeRecord_of_encode _ _ _ _ (by decide +kernel)

theorem torn_tail_kept_readable :
    ∃ st : IndexedStore Crc32.crc32, ∃ st',
      recoverEntrySegments Crc32.crc32 3 st.toStore = some st' ∧
      st.entryIndex.getLocation (1, 0) = some ⟨0, 0, 25⟩ ∧
      st'.files.get (.entrySeg 0) = some (tornTail.take 25) ∧
      StillReadable Crc32.crc32 st.toStore st' := by
  let st : IndexedStore Crc32.crc32 :=
    ⟨oneSegment tornTail Segment.firstRec 0, oneSegment_readable tornTail_decodes⟩
  have hrun : (recoverEntrySegments Crc32.crc32 3 st.toStore).map
      (fun st' => st'.files.get (.entrySeg 0)) = some (some (tornTail.take 25)) := by
    decide +kernel
  obtain ⟨st', hst', hfile⟩ := Option.map_eq_some_iff.mp hrun
  refine ⟨st, st', hst', rfl, hfile, (readable_kept_iff st st' hst').mpr ?_⟩
  intro k iv data r n e hk hdata hd he _
  have hscan : (scan Crc32.crc32 tornTail 3 0 0).map (fun e => e.lastValid) = some 25 := by
    decide +kernel
  obtain rfl : iv = ⟨0, 0, 25⟩ := by
    dsimp only [st, oneSegment] at hk
    rw [FjallIndex.getLocation_insert] at hk
    split_ifs at hk <;> cases hk
    rfl
  obtain rfl : tornTail = data := Option.some.inj hdata
  rw [he, Option.map_some, Option.some.injEq] at hscan
  rw [tornTail_decodes] at hd
  cases hd
  exact Nat.le_of_eq hscan.symm

theorem record_behind_damage_lost :
    ∃ st : IndexedStore Crc32.crc32, ∃ st',
      recoverEntrySegments Crc32.crc32 3 st.toStore = some st' ∧
      st.entryIndex.getLocation (1, 1) = some ⟨0, 25, 25⟩ ∧
      st.files.get (.entrySeg 0) = some damagedFront ∧
      decodeRecord Crc32.crc32 damagedFront 25 = .ok (Segment.secondRec, 25) ∧
      st'.entryIndex.getLocation (1, 1) = none ∧ st'.files.get (.entrySeg 0) = some [] := by
  let st : IndexedStore Crc32.crc32 :=
    ⟨oneSegment damagedFront Segment.secondRec 25, oneSegment_readable damagedFront_decodes⟩
  have hrun : (recoverEntrySegments Crc32.crc32 3 st.toStore).map (fun st' =>
      (st'.entryIndex.getLocation (1, 1), st'.files.get (.entrySeg 0))) = some (none, some []) := by
    decide +kernel
  obtain ⟨st', hst', hleft⟩ := Option.map_eq_some_iff.mp hrun
  exact ⟨st, st', hst', rfl, rfl, damagedFront_decodes, congrArg Prod.fst hleft,
    congrArg Prod.snd hleft⟩

end Readable
end Folio.EntryRecovery
