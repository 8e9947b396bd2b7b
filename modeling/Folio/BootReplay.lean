import Folio.RecoverTwice

/-! The replay of one row when its checkpoint belongs to its file: what is indexed is cached or
comes up again in the rows behind it, and every location leads to a record that a scan of the whole
file still comes to. -/
namespace Folio.BootReplay
open KeyedTable Protocol Fjall EntryCache RecoveryScan CrashRecovery ScanLocality ReplayEffect
open Journal WalSession WalLocations RecoverTwice
variable (crc32 : Bytes → UInt32)

section OneFile

def Seen (data : Bytes) (v : Visit) : Prop :=
  ∃ fuel e, scan crc32 data fuel 0 0 = some e ∧ v ∈ e.state

/-- The checkpoint is the start of the file, the end of one of its records, or so far behind that
nothing is left to scan. -/
def OnTrack (data : Bytes) (checkpoint : Nat) : Prop :=
  checkpoint = 0 ∨ (∃ v, Seen crc32 data v ∧ v.pos + v.len = checkpoint) ∨
    data.length < checkpoint + 4

def cutFile (data : Bytes) (e : ScanEnd (List Visit)) : Bytes :=
  data.take (if e.torn then e.lastValid else data.length)

variable {crc32} {data : Bytes} {fuel cp : Nat} {e : ScanEnd (List Visit)}

theorem seen_iff (he : scan crc32 data fuel 0 0 = some e) (v : Visit) :
    Seen crc32 data v ↔ v ∈ e.state := by
  constructor
  · rintro ⟨fuel', e', he', hv⟩
    rwa [scan_deterministic crc32 he he']
  · exact fun hv => ⟨fuel, e, he, hv⟩

theorem OnTrack.end_cases (h : OnTrack crc32 data cp) (he : scan crc32 data fuel cp cp = some e) :
    (e = ⟨[], cp, false⟩ ∧ data.length < cp + 4) ∨
      ∃ fuel₀ e₀, scan crc32 data fuel₀ 0 0 = some e₀ ∧
        (∀ v, v ∈ e.state ↔ v ∈ e₀.state ∧ cp ≤ v.pos) ∧
        e.lastValid = e₀.lastValid ∧ e.torn = e₀.torn := by
  rcases h with rfl | ⟨v, ⟨fuel₀, e₀, he₀, hv⟩, rfl⟩ | hshort
  · exact .inr ⟨fuel, e, he, by simp, rfl, rfl⟩
  · obtain ⟨e', he', hsub, hlast, htorn⟩ := scan_suffix crc32 he₀ hv
    obtain rfl := scan_deterministic crc32 he he'
    exact .inr ⟨fuel₀, e₀, he₀, hsub, hlast, htorn⟩
  · left
    cases fuel with
    | zero => simp [scan] at he
    | succ fuel =>
      rw [scan, if_pos hshort] at he
      exact ⟨(Option.some.inj he).symm, hshort⟩

theorem OnTrack.visits_iff (h : OnTrack crc32 data cp)
    (he : scan crc32 data fuel cp cp = some e) (v : Visit) :
    v ∈ e.state ↔ Seen crc32 data v ∧ cp ≤ v.pos := by
  rcases h.end_cases he with ⟨rfl, hshort⟩ | ⟨fuel₀, e₀, he₀, hsub, -⟩
  · simp only [List.not_mem_nil, false_iff, not_and, Nat.not_le]
    rintro ⟨fuel₀, e₀, he₀, hv⟩
    have hlen := decode_len crc32 (scan_sound crc32 he₀ v hv).2.2
    omega
  · rw [hsub, seen_iff he₀]

theorem OnTrack.front (h : OnTrack crc32 data cp)
    (he : scan crc32 data fuel cp cp = some e) (htorn : e.torn = true) {v : Visit}
    (hv : Seen crc32 data v) : v.pos < e.lastValid := by
  rcases h.end_cases he with ⟨rfl, -⟩ | ⟨fuel₀, e₀, he₀, -, hlast, -⟩
  · simp at htorn
  · obtain ⟨-, hend, hd⟩ := scan_sound crc32 he₀ v ((seen_iff he₀ v).mp hv)
    have hlen := decode_len crc32 hd
    omega

theorem OnTrack.cut (h : OnTrack crc32 data cp)
    (he : scan crc32 data fuel cp cp = some e) :
    (∀ v, Seen crc32 (cutFile data e) v ↔ Seen crc32 data v) ∧
      OnTrack crc32 (cutFile data e) e.lastValid := by
  rcases h.end_cases he with ⟨rfl, hshort⟩ | ⟨fuel₀, e₀, he₀, -, hlast, htorn⟩
  · have hsame : cutFile data ⟨[], cp, false⟩ = data := by simp [cutFile]
    rw [hsame]
    exact ⟨fun _ => Iff.rfl, .inr (.inr hshort)⟩
  · -- the shorter file shows what the old one showed
    have hscan : ∃ e₁, scan crc32 (cutFile data e) fuel₀ 0 0 = some e₁ ∧
        e₁.state = e₀.state := by
      rw [cutFile, htorn, hlast]
      cases e₀.torn with
      | true => exact ⟨_, scan_take crc32 (Nat.le_refl 0) he₀, rfl⟩
      | false => exact ⟨e₀, by simpa using he₀, rfl⟩
    obtain ⟨e₁, he₁, hstate⟩ := hscan
    have hseen (v : Visit) : Seen crc32 (cutFile data e) v ↔ Seen crc32 data v := by
      rw [seen_iff he₁, seen_iff he₀, hstate]
    refine ⟨hseen, ?_⟩
    rw [hlast]
    rcases scan_lastValid_end crc32 he₀ with ⟨-, hzero⟩ | ⟨v, hv, hend⟩
    · exact .inl hzero
    · exact .inr (.inl ⟨v, (hseen v).mpr ((seen_iff he₀ v).mpr hv), hend⟩)

theorem OnTrack.mono {data' : Bytes} (h : OnTrack crc32 data cp)
    (hseen : ∀ v, Seen crc32 data v → Seen crc32 data' v) (hlen : data'.length ≤ data.length) :
    OnTrack crc32 data' cp := by
  rcases h with hzero | ⟨v, hv, hend⟩ | hshort
  · exact .inl hzero
  · exact .inr (.inl ⟨v, hseen v hv, hend⟩)
  · exact .inr (.inr (Nat.lt_of_le_of_lt hlen hshort))

theorem cutFile_length (data : Bytes) (e : ScanEnd (List Visit)) :
    (cutFile data e).length ≤ data.length := by
  rw [cutFile, List.length_take]
  exact Nat.min_le_right _ _

end OneFile

section Store

/-- Every row's checkpoint is on track in the row's file, and all WAL records of one key have the
payload `P` gives it. -/
structure Tracked (P : Key → Bytes) (st : Store) : Prop where
  track : ∀ id m path data, st.walRegistry.get id = some m → m.localPath = some path →
    st.files.get path = some data → OnTrack crc32 data (st.walIndex.getCheckpoint id)
  one : ∀ path data v, (∀ j, path ≠ .entrySeg j) → st.files.get path = some data →
    Seen crc32 data v → v.record.payload = P v.record.key

def Shown (st : Store) (id : SegmentId) (off : Nat) (k : Key) : Prop :=
  ∃ m path data v, st.walRegistry.get id = some m ∧ m.localPath = some path ∧
    st.files.get path = some data ∧ Seen crc32 data v ∧ v.pos = off ∧ v.record.key = k

def Located (st : Store) : Prop :=
  ∀ k iv, st.walIndex.getLocation k = some iv → Shown crc32 st iv.segmentId iv.offset k

def Awaits (todo : List SegmentMeta) (st : Store) (k : Key) : Prop :=
  ∃ m ∈ todo, ∃ path data v, m.localPath = some path ∧ st.files.get path = some data ∧
    Seen crc32 data v ∧ v.record.key = k ∧ st.walIndex.getCheckpoint m.id ≤ v.pos

/-- What `wal_index` holds is in the cache or will be put there by the rows `todo`, and it is not
in `entry_index`. -/
structure Held (P : Key → Bytes) (todo : List SegmentMeta) (st : Store) : Prop where
  warm : st.cache.warm = .empty
  cached : ∀ k, (st.cache.get k).isSome → (st.walIndex.getLocation k).isSome
  waiting : ∀ k, (st.walIndex.getLocation k).isSome →
    (st.cache.get k).isSome ∨ Awaits crc32 todo st k
  payload : ∀ k p, st.cache.get k = some p → p = P k
  apart : ∀ k, (st.walIndex.getLocation k).isSome → st.entryIndex.getLocation k = none
  located : Located crc32 st

variable {crc32} {P : Key → Bytes} {st st' : Store} {id : SegmentId} {todo : List SegmentMeta}

section Visits

theorem get_insert (c : EntrySegmentCache) (k k' : Key) (b : Bytes) :
    (c.insert k b).get k' =
      if k' = k ∧ (c.warm.get k).isNone then some b else c.get k' := by
  unfold EntrySegmentCache.get
  rw [EntrySegmentCache.insert_warm, EntrySegmentCache.insert_hot_get]
  split_ifs <;> simp

theorem insert_isSome (c : EntrySegmentCache) (k k' : Key) (b : Bytes) :
    ((c.insert k b).get k').isSome ↔ k' = k ∨ (c.get k').isSome := by
  rw [get_insert]
  by_cases hk : k' = k
  · subst hk
    cases hw : c.warm.get k' <;> simp [EntrySegmentCache.get, hw]
  · simp [hk]

theorem replayVisit_cache (st : Store) (v : Visit) :
    (replayVisit id st v).cache =
      if st.entryIndex.getLocation v.record.key = none
      then st.cache.insert v.record.key v.record.payload else st.cache := by
  unfold replayVisit indexWal
  split_ifs <;> simp_all

theorem replayVisit_cached_iff (k : Key) (st : Store) (v : Visit) :
    ((replayVisit id st v).cache.get k).isSome ↔
      (st.cache.get k).isSome ∨ st.entryIndex.getLocation k = none ∧ v.record.key = k := by
  rw [replayVisit_cache]
  split_ifs with hin
  · rw [insert_isSome]
    grind
  · grind

theorem replayVisit_located_iff (k : Key) (st : Store) (v : Visit) :
    ((replayVisit id st v).walIndex.getLocation k).isSome ↔
      (st.walIndex.getLocation k).isSome ∨
        st.entryIndex.getLocation k = none ∧ v.record.key = k := by
  rw [replayVisit_location]
  split_ifs with hnew
  · simp [hnew.1.symm, hnew.2.1]
  · cases hk : st.walIndex.getLocation k <;> grind

theorem foldl_visits_iff {f : Store → Prop} {k : Key}
    (hf : ∀ st v, f (replayVisit id st v) ↔
      f st ∨ st.entryIndex.getLocation k = none ∧ v.record.key = k) (vs : List Visit) :
    f (vs.foldl (replayVisit id) st) ↔
      f st ∨ st.entryIndex.getLocation k = none ∧ ∃ v ∈ vs, v.record.key = k := by
  induction vs generalizing st with
  | nil => simp
  | cons v vs ih =>
    rw [List.foldl_cons, ih, hf, (replayVisit_frame id st v).entries]
    simp only [List.mem_cons, exists_eq_or_imp]
    tauto

theorem foldl_payload (vs : List Visit) (hvs : ∀ v ∈ vs, v.record.payload = P v.record.key)
    (h : ∀ k p, st.cache.get k = some p → p = P k) (k : Key) (p : Bytes)
    (hp : (vs.foldl (replayVisit id) st).cache.get k = some p) : p = P k := by
  induction vs generalizing st with
  | nil => exact h k p hp
  | cons v vs ih =>
    refine ih (fun u hu => hvs u (List.mem_cons_of_mem v hu)) (fun k' p' hp' => ?_) hp
    rw [replayVisit_cache] at hp'
    split_ifs at hp'
    · rw [get_insert] at hp'
      split_ifs at hp' with hk
      · rw [hk.1, ← hvs v List.mem_cons_self]
        exact (Option.some.inj hp').symm
      · exact h k' p' hp'
    · exact h k' p' hp'

theorem foldl_warm (vs : List Visit) :
    (vs.foldl (replayVisit id) st).cache.warm = st.cache.warm := by
  induction vs generalizing st with
  | nil => rfl
  | cons v vs ih =>
    rw [List.foldl_cons, ih, replayVisit_cache]
    split_ifs
    · exact EntrySegmentCache.insert_warm _ _ _
    · rfl

end Visits

section Row
variable {m : SegmentMeta} {path : SegPath} {data : Bytes} {fuel : Nat}
  {e : ScanEnd (List Visit)}

theorem replay_files (hfile : st.files.get path = some data)
    (ht : OnTrack crc32 data (st.walIndex.getCheckpoint id))
    (he : scan crc32 data fuel (st.walIndex.getCheckpoint id) (st.walIndex.getCheckpoint id) =
      some e) (hr : Replayed st st' id path data e) (p : SegPath) (d : Bytes)
    (hd : st.files.get p = some d) : ∃ d', st'.files.get p = some d' ∧
      d'.length ≤ d.length ∧ ∀ v, Seen crc32 d' v ↔ Seen crc32 d v := by
  obtain ⟨hown, hother⟩ := hr.cut crc32 hfile he
  by_cases hp : p = path
  · subst hp
    obtain rfl : data = d := Option.some.inj (hfile.symm.trans hd)
    exact ⟨_, hown, cutFile_length data e, (ht.cut he).1⟩
  · exact ⟨d, (hother p hp).trans hd, Nat.le_refl _, fun _ => Iff.rfl⟩

theorem Tracked.replay (h : Tracked crc32 P st) (hrow : st.walRegistry.get id = some m)
    (hpath : m.localPath = some path) (hfile : st.files.get path = some data)
    (he : scan crc32 data fuel (st.walIndex.getCheckpoint id) (st.walIndex.getCheckpoint id) =
      some e) (hr : Replayed st st' id path data e) : Tracked crc32 P st' := by
  have ht := h.track id m path data hrow hpath hfile
  have hfiles := replay_files hfile ht he hr
  obtain ⟨hown, hother⟩ := hr.cut crc32 hfile he
  have hback {p : SegPath} {d' : Bytes} (hd' : st'.files.get p = some d') :
      ∃ d, st.files.get p = some d := by
    by_cases hp : p = path
    · exact ⟨data, hp ▸ hfile⟩
    · exact ⟨d', (hother p hp).symm.trans hd'⟩
  refine ⟨fun j m' p d' hj hp hd' => ?_, fun p d' v hp hd' hv => ?_⟩
  · rw [hr.walRegistry] at hj
    obtain ⟨d, hd⟩ := hback hd'
    obtain ⟨d₁, hd₁, hlen, hseen⟩ := hfiles p d hd
    obtain rfl : d₁ = d' := Option.some.inj (hd₁.symm.trans hd')
    rw [hr.checkpoint]
    split_ifs with hid
    · subst hid
      obtain rfl : m = m' := Option.some.inj (hrow.symm.trans hj)
      obtain rfl : path = p := Option.some.inj (hpath.symm.trans hp)
      obtain rfl : cutFile data e = d₁ := Option.some.inj (hown.symm.trans hd₁)
      exact (ht.cut he).2
    · exact (h.track j m' p d hj hp hd).mono (fun v => (hseen v).mpr) hlen
  · obtain ⟨d, hd⟩ := hback hd'
    obtain ⟨d₁, hd₁, -, hseen⟩ := hfiles p d hd
    obtain rfl : d₁ = d' := Option.some.inj (hd₁.symm.trans hd')
    exact h.one p d v hp hd ((hseen v).mp hv)

theorem replay_location (h : Tracked crc32 P st) (hrow : st.walRegistry.get id = some m)
    (hpath : m.localPath = some path) (hfile : st.files.get path = some data)
    (he : scan crc32 data fuel (st.walIndex.getCheckpoint id) (st.walIndex.getCheckpoint id) =
      some e) (hr : Replayed st st' id path data e) (hloc : Located crc32 st) (k : Key) :
    st'.walIndex.getLocation k =
      (e.state.foldl (replayVisit id) st).walIndex.getLocation k := by
  have ht := h.track id m path data hrow hpath hfile
  rw [hr.location]
  cases hk : (e.state.foldl (replayVisit id) st).walIndex.getLocation k with
  | none => rfl
  | some iv =>
    have hfront : (e.torn && FjallIndex.inTail id e.lastValid (k, iv)) = false := by
      cases htorn : e.torn with
      | false => rfl
      | true =>
        -- either an older location of this segment or one of the loop's own
        have hseen : iv.segmentId = id → ∃ v, Seen crc32 data v ∧ v.pos = iv.offset := by
          intro hid
          rcases foldl_origin id e.state st hk with hold | ⟨v, hv, -, -, hoff⟩
          · obtain ⟨m', p, d, v, hm', hp, hd, hv, hoff, -⟩ := hloc k iv hold
            rw [hid, hrow, Option.some.injEq] at hm'
            subst hm'
            obtain rfl : path = p := Option.some.inj (hpath.symm.trans hp)
            obtain rfl : data = d := Option.some.inj (hfile.symm.trans hd)
            exact ⟨v, hv, hoff⟩
          · exact ⟨v, ((ht.visits_iff he v).mp hv).1, hoff.symm⟩
        simp only [FjallIndex.inTail, Bool.true_and, Bool.and_eq_false_iff, beq_eq_false_iff_ne,
          decide_eq_false_iff_not]
        by_cases hid : iv.segmentId = id
        · obtain ⟨v, hv, hoff⟩ := hseen hid
          have := ht.front he htorn hv
          exact .inr (by omega)
        · exact .inl hid
    simp [Option.filter, hfront]

theorem Awaits.replay {k : Key} (h : Awaits crc32 todo st k) (hids : ∀ m ∈ todo, m.id ≠ id)
    (hfile : st.files.get path = some data)
    (ht : OnTrack crc32 data (st.walIndex.getCheckpoint id))
    (he : scan crc32 data fuel (st.walIndex.getCheckpoint id) (st.walIndex.getCheckpoint id) =
      some e) (hr : Replayed st st' id path data e) : Awaits crc32 todo st' k := by
  obtain ⟨m, hm, p, d, v, hp, hd, hv, hk, hcp⟩ := h
  obtain ⟨d', hd', -, hseen⟩ := replay_files hfile ht he hr p d hd
  refine ⟨m, hm, p, d', v, hp, hd', (hseen v).mpr hv, hk, ?_⟩
  rwa [hr.checkpoint, if_neg (hids m hm)]

theorem Held.replay {row : SegmentMeta} (h : Held crc32 P (row :: todo) st)
    (htr : Tracked crc32 P st) (hrow : st.walRegistry.get row.id = some m)
    (hsame : m.localPath = row.localPath) (hpath : row.localPath = some path)
    (hids : ∀ m' ∈ todo, m'.id ≠ row.id) (hwal : ∀ j, path ≠ .entrySeg j)
    (hfile : st.files.get path = some data)
    (he : scan crc32 data fuel (st.walIndex.getCheckpoint row.id)
      (st.walIndex.getCheckpoint row.id) = some e)
    (hr : Replayed st st' row.id path data e) : Held crc32 P todo st' := by
  have hpath' := hsame.trans hpath
  have ht := htr.track row.id m path data hrow hpath' hfile
  have hvisit := ht.visits_iff he
  have hloc := replay_location htr hrow hpath' hfile he hr h.located
  have hcached (k : Key) : (st'.cache.get k).isSome ↔ (st.cache.get k).isSome ∨
      st.entryIndex.getLocation k = none ∧ ∃ v ∈ e.state, v.record.key = k := by
    rw [hr.cache]
    exact foldl_visits_iff (f := fun st => (st.cache.get k).isSome) (replayVisit_cached_iff k) _
  have hlocated (k : Key) : (st'.walIndex.getLocation k).isSome ↔
      (st.walIndex.getLocation k).isSome ∨
        st.entryIndex.getLocation k = none ∧ ∃ v ∈ e.state, v.record.key = k := by
    rw [hloc]
    exact foldl_visits_iff (f := fun st => (st.walIndex.getLocation k).isSome)
      (replayVisit_located_iff k) _
  refine ⟨?_, fun k hk => ?_, fun k hk => ?_, fun k p hp => ?_, fun k hk => ?_, fun k iv hk => ?_⟩
  · rw [hr.cache, foldl_warm, h.warm]
  · rw [hlocated]
    exact ((hcached k).mp hk).imp_left (h.cached k)
  · rw [hcached]
    rcases (hlocated k).mp hk with hold | hnew
    · rcases h.waiting k hold with hin | ⟨m', hm', p, d, v, hp, hd, hv, hkey, hcp⟩
      · exact .inl (.inl hin)
      · rcases List.mem_cons.mp hm' with rfl | hm'
        · -- the record the key was waiting for is one this row visits
          obtain rfl : path = p := Option.some.inj (hpath.symm.trans hp)
          obtain rfl : data = d := Option.some.inj (hfile.symm.trans hd)
          exact .inl (.inr ⟨h.apart k hold, v, (hvisit v).mpr ⟨hv, hcp⟩, hkey⟩)
        · have hawaits : Awaits crc32 todo st k := ⟨m', hm', p, d, v, hp, hd, hv, hkey, hcp⟩
          exact .inr (hawaits.replay hids hfile ht he hr)
    · exact .inl (.inr hnew)
  · rw [hr.cache] at hp
    exact foldl_payload e.state (fun v hv => htr.one path data v hwal hfile ((hvisit v).mp hv).1)
      h.payload k p hp
  · rw [hr.entryIndex]
    rcases (hlocated k).mp hk with hold | hnew
    · exact h.apart k hold
    · exact hnew.1
  · rw [hloc] at hk
    have hshown : Shown crc32 st iv.segmentId iv.offset k := by
      rcases foldl_origin row.id e.state st hk with hold | ⟨v, hv, hkey, hid, hoff⟩
      · exact h.located k iv hold
      · exact ⟨m, path, data, v, hid ▸ hrow, hpath', hfile, ((hvisit v).mp hv).1, hoff.symm, hkey⟩
    obtain ⟨m', p, d, v, hm', hp, hd, hv, hrest⟩ := hshown
    obtain ⟨d', hd', -, hseen⟩ := replay_files hfile ht he hr p d hd
    exact ⟨m', p, d', v, by rw [hr.walRegistry, hm'], hp, hd', (hseen v).mpr hv, hrest⟩

end Row

section Growth
variable {todo' : List SegmentMeta}

structure Grown (st st' : Store) : Prop where
  files : ∀ p data, st.files.get p = some data → st'.files.get p = some data
  fresh : ∀ p data, st'.files.get p = some data → st.files.get p = some data ∨ data = []
  walIndex : st'.walIndex = st.walIndex
  entryIndex : st'.entryIndex = st.entryIndex
  cache : st'.cache = st.cache
  rows : ∀ id m, st.walRegistry.get id = some m →
    ∃ m', st'.walRegistry.get id = some m' ∧ m'.localPath = m.localPath ∧ (live m → live m')
  new : ∀ id m', st'.walRegistry.get id = some m' →
    (∃ m, st.walRegistry.get id = some m ∧ m'.localPath = m.localPath) ∨
      st.walRegistry.get id = none

theorem not_seen_nil (v : Visit) : ¬Seen crc32 [] v := by
  rintro ⟨fuel, e, he, hv⟩
  have hlen := decode_len crc32 (scan_sound crc32 he v hv).2.2
  simp only [List.length_nil] at hlen
  omega

theorem Tracked.grown (h : Tracked crc32 P st) (hg : Grown st st')
    (hmarked : ∀ id, st.walIndex.getCheckpoint id ≠ 0 → (st.walRegistry.get id).isSome) :
    Tracked crc32 P st' := by
  refine ⟨fun id m path data hm hpath hdata => ?_, fun path data v hpath hdata hv => ?_⟩
  · rw [hg.walIndex]
    rcases hg.fresh path data hdata with hold | rfl
    · rcases hg.new id m hm with ⟨m', hm', hsame⟩ | hnone
      · exact h.track id m' path data hm' (hsame ▸ hpath) hold
      · -- a segment without a row has no checkpoint
        refine .inl (by_contra fun hcp => ?_)
        simpa [hnone] using hmarked id hcp
    · exact .inr (.inr (by simp))
  · rcases hg.fresh path data hdata with hold | rfl
    · exact h.one path data v hpath hold hv
    · exact absurd hv (not_seen_nil v)

theorem Held.grown (h : Held crc32 P todo st) (hg : Grown st st')
    (htodo : ∀ m ∈ todo, ∃ m' ∈ todo', m'.id = m.id ∧ m'.localPath = m.localPath) :
    Held crc32 P todo' st' := by
  refine ⟨hg.cache ▸ h.warm, fun k => ?_, fun k hk => ?_, fun k p hp => ?_, fun k hk => ?_,
    fun k iv hk => ?_⟩
  · rw [hg.cache, hg.walIndex]
    exact h.cached k
  · rw [hg.walIndex] at hk
    rw [hg.cache]
    refine (h.waiting k hk).imp_right ?_
    rintro ⟨m, hm, path, data, v, hpath, hdata, hv, hkey, hcp⟩
    obtain ⟨m', hm', hid, hsame⟩ := htodo m hm
    refine ⟨m', hm', path, data, v, hsame.trans hpath, hg.files _ _ hdata, hv, hkey, ?_⟩
    rwa [hg.walIndex, hid]
  · rw [hg.cache] at hp
    exact h.payload k p hp
  · rw [hg.walIndex] at hk
    rw [hg.entryIndex]
    exact h.apart k hk
  · rw [hg.walIndex] at hk
    obtain ⟨m, path, data, v, hm, hpath, hdata, hrest⟩ := h.located k iv hk
    obtain ⟨m', hm', hsame, -⟩ := hg.rows _ m hm
    exact ⟨m', path, data, v, hm', hsame.trans hpath, hg.files _ _ hdata, hrest⟩

theorem Grown.segmentsToReplay (hg : Grown st st') (hrows : WalRows st.walRegistry)
    (hrows' : WalRows st'.walRegistry) : ∀ m ∈ segmentsToReplay st.walRegistry,
      ∃ m' ∈ segmentsToReplay st'.walRegistry, m'.id = m.id ∧ m'.localPath = m.localPath := by
  intro m hm
  obtain ⟨id, hid, hlive⟩ := mem_segmentsToReplay hm
  obtain ⟨m', hm', hsame, hlive'⟩ := hg.rows id m hid
  refine ⟨m', mem_segmentsToReplay_of_live hm' (hlive' hlive), ?_, hsame⟩
  rw [hrows'.1 id m' hm', hrows.1 id m hid]

theorem grown_create (st : Store) : Grown st { st with files := openOdirect st.files } where
  files p data hdata := by
    by_cases hp : p = .activeSeg
    · subst hp
      simp [openOdirect, hdata]
    · exact (openOdirect_get _ _ hp).trans hdata
  fresh p data hdata := by
    by_cases hp : p = .activeSeg
    · subst hp
      dsimp only at hdata
      rw [openOdirect_active] at hdata
      cases hfile : st.files.get .activeSeg <;> simp_all
    · exact .inl ((openOdirect_get _ _ hp).symm.trans hdata)
  walIndex := rfl
  entryIndex := rfl
  cache := rfl
  rows id m hm := ⟨m, hm, rfl, fun h => h⟩
  new id m hm := .inl ⟨m, hm, rfl⟩

theorem grown_register (st : Store) (n : SegmentId)
    (hn : ∀ m, st.walRegistry.get n = some m → m.localPath = some .activeSeg) :
    Grown st { st with walRegistry := registerActive st.walRegistry n } where
  files _ _ h := h
  fresh _ _ h := .inl h
  walIndex := rfl
  entryIndex := rfl
  cache := rfl
  rows id m hm := by
    dsimp only [registerActive, SegmentRegistry.upsert]
    rw [Table.get_put]
    split_ifs with hid
    · subst hid
      exact ⟨_, rfl, (hn m hm).symm, fun _ => .inr rfl⟩
    · exact ⟨m, hm, rfl, fun h => h⟩
  new id m hm := by
    dsimp only [registerActive, SegmentRegistry.upsert] at hm
    rw [Table.get_put] at hm
    split_ifs at hm with hid
    · subst hid
      cases hm
      cases hold : st.walRegistry.get id with
      | none => exact .inr rfl
      | some m => exact .inl ⟨m, rfl, (hn m hold).symm⟩
    · exact .inl ⟨m, hm, rfl⟩

theorem grown_registerFiles (st : Store) : Grown st (registerWalFiles st) := by
  have hreg := (registerWalFiles_registered st).1
  refine ⟨fun p data h => by rw [hreg.files, h], fun p data h => .inl (by rw [← hreg.files, h]),
    hreg.walIndex, hreg.entryIndex, hreg.cache,
    fun id m hm => ⟨m, hreg.rows id m hm, rfl, fun hlive => hlive⟩, fun id m hm => ?_⟩
  rcases hreg.new id m hm with hold | ⟨hnone, -⟩
  · exact .inl ⟨m, hold, rfl⟩
  · exact .inr hnone

end Growth

end Store
end Folio.BootReplay
