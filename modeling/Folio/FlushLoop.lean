import Folio.Crc32
import Folio.EntryCache
import Folio.EntrySegment
import Folio.TransitionSystem

/-! The flush loop, statement by statement, between add requests that complete and reads.
An entry is in the cache or its location is in `entry_index` at every point of it. -/
namespace Folio.FlushLoop
open KeyedTable Protocol Fjall Segment EntryCache EntrySegment Journal TransitionSystem

abbrev Writer := EntrySegmentWriter

inductive Pc where
  | starting
  | created (w : Writer)
  | waiting (w : Writer)
  | drained (w : Writer) (batch : List Rec)
  | written (w : Writer) (todo : List (Rec × Nat × Nat))
  | indexing (w : Writer) (todo : List (Rec × Nat × Nat))
  | located (w : Writer) (k : Key) (todo : List (Rec × Nat × Nat))
  | recorded (w : Writer)
  | sealedSeg (w : Writer)
  | evicted (w : Writer)
  | stopped

inductive ReadPc where
  | started
  | missed
  | hit (payload : Bytes)
  | found (iv : IndexValue)
  | notFound
  deriving DecidableEq

structure Read where
  key : Key
  pc : ReadPc
  deriving DecidableEq

/-- `acked` are the requests that have been acknowledged. -/
structure State where
  cache : EntrySegmentCache
  entryIndex : FjallIndex
  walIndex : FjallIndex
  registry : SegmentRegistry
  files : Files
  pc : Pc
  acked : List Rec
  reads : Table Nat Read

def isAcked (acked : List Rec) (k : Key) : Prop := ∃ r ∈ acked, r.key = k

instance (acked : List Rec) (k : Key) : Decidable (isAcked acked k) :=
  inferInstanceAs (Decidable (∃ r ∈ acked, r.key = k))

def isDuplicate (s : State) (k : Key) : Bool :=
  s.cache.contains k || (s.entryIndex.getLocation k).isSome || (s.walIndex.getLocation k).isSome

def cached (r : Rec) : Key × Bytes := (r.key, r.payload)

/-- `fail` is an error of the next statement; the loop returns on its first one. A failed
write leaves any bytes past the writer's offset. -/
inductive FlushAct where
  | start
  | register
  | drain (order : List Rec)
  | write
  | writeFails (left : Bytes)
  | sync
  | insertLocation
  | deleteLocation (deleted : Bool)
  | upsert
  | checkSeal
  | evict
  | openNext
  | fail

inductive Act where
  | add (r : Rec)
  | duplicate (r : Rec)
  | flush (a : FlushAct)
  | read (id : Nat) (k : Key)
  | readCache (id : Nat)
  | readIndex (id : Nat)

section Steps
variable (crc32 : Bytes → UInt32) (sealThreshold : Nat)

def create (s : State) (id : SegmentId) : State :=
  { s with files := s.files.put id [], pc := .created ⟨id, 0⟩ }

def stepFlush (s : State) (a : FlushAct) : Option State :=
  match a, s.pc with
  | .start, .starting => some (create s (nextEntrySegId s.files s.registry))
  | .register, .created w =>
    some { s with registry := s.registry.upsert (entryMeta w.id .Active 0), pc := .waiting w }
  | .drain order, .waiting w =>
    if (order.map cached).isPerm s.cache.hot.entries then
      some { s with
        cache := s.cache.drainHotToWarm (order.map cached)
        pc := if order.isEmpty then .waiting w else .drained w order }
    else none
  | .write, .drained w batch =>
    (s.files.get w.id).map fun data =>
      { s with
        files := s.files.put w.id (writeAt data w.fileOffset (batchBytes crc32 batch))
        pc := .written ⟨w.id, w.fileOffset + (batchBytes crc32 batch).length⟩
          (batch.zip (perEntry crc32 w.fileOffset batch)) }
  | .writeFails left, .drained w _ =>
    (s.files.get w.id).map fun data =>
      { s with files := s.files.put w.id (data.take w.fileOffset ++ left), pc := .stopped }
  | .sync, .written w todo => some { s with pc := .indexing w todo }
  | .insertLocation, .indexing w ((r, offset, length) :: todo) =>
    some { s with
      entryIndex := s.entryIndex.insertLocation r.key w.id offset length
      pc := .located w r.key todo }
  | .deleteLocation deleted, .located w k todo =>
    some { s with
      walIndex := if deleted then s.walIndex.deleteLocation k else s.walIndex
      pc := .indexing w todo }
  | .upsert, .indexing w [] =>
    some { s with
      registry := s.registry.upsert (entryMeta w.id .Active w.fileOffset)
      pc := .recorded w }
  | .checkSeal, .recorded w =>
    if sealThreshold ≤ w.fileOffset then
      some { s with registry := (s.registry.casStatus w.id .Active .Local).1, pc := .sealedSeg w }
    else some { s with pc := .waiting w }
  | .evict, .sealedSeg w => some { s with cache := s.cache.evictWarm, pc := .evicted w }
  | .openNext, .evicted w => some (create s (w.id + 1))
  | .fail, .stopped => none
  | .fail, _ => some { s with pc := .stopped }
  | _, _ => none

def setRead (s : State) (id : Nat) (k : Key) (pc : ReadPc) : State :=
  { s with reads := s.reads.put id ⟨k, pc⟩ }

/-- Reads are of keys that have been acknowledged: the cache first, `entry_index` on a miss. -/
def step (s : State) : Act → Option State
  | .add r =>
    some { s with cache := s.cache.insert r.key r.payload, acked := r :: s.acked }
  | .duplicate r =>
    if isDuplicate s r.key then some { s with acked := r :: s.acked } else none
  | .flush a => stepFlush crc32 sealThreshold s a
  | .read id k =>
    if (s.reads.get id).isNone ∧ isAcked s.acked k then some (setRead s id k .started) else none
  | .readCache id =>
    match s.reads.get id with
    | some ⟨k, .started⟩ =>
      some (setRead s id k (((s.cache.get k).map ReadPc.hit).getD .missed))
    | _ => none
  | .readIndex id =>
    match s.reads.get id with
    | some ⟨k, .missed⟩ =>
      some (setRead s id k (((s.entryIndex.getLocation k).map ReadPc.found).getD .notFound))
    | _ => none

end Steps

section Invariant
variable (crc32 : Bytes → UInt32)

/-- Everything that is held was acknowledged, and everything that was acknowledged is held:
in the cache, or at a location where its record can be read. -/
structure Stored (cache : EntrySegmentCache) (entryIndex walIndex : FjallIndex) (files : Files)
    (acked : List Rec) : Prop where
  hot : ∀ k p, cache.hot.get k = some p → ∃ r ∈ acked, cached r = (k, p)
  warm : ∀ k p, cache.warm.get k = some p → ∃ r ∈ acked, cached r = (k, p)
  located : ∀ k iv, entryIndex.getLocation k = some iv →
    ∃ r ∈ acked, r.key = k ∧ Holds crc32 files iv.segmentId iv.offset r
  logged : ∀ k, (walIndex.getLocation k).isSome → isAcked acked k
  placed : ∀ k, isAcked acked k → cache.contains k = true ∨ (entryIndex.getLocation k).isSome

def writerOf : Pc → Option Writer
  | .starting | .stopped => none
  | .created w | .waiting w | .drained w _ | .written w _ | .indexing w _ | .located w _ _
  | .recorded w | .sealedSeg w | .evicted w => some w

def batchOf : Pc → List Rec
  | .drained _ batch => batch
  | .written _ todo | .indexing _ todo | .located _ _ todo => todo.map Prod.fst
  | _ => []

def todoOf : Pc → List (Rec × Nat × Nat)
  | .written _ todo | .indexing _ todo | .located _ _ todo => todo
  | _ => []

/-- Until the loop stops, a warm entry is in the batch or has a location; the writer's offset
is the end of the newest file. -/
structure Loop (pc : Pc) (warm : Table Key Bytes) (entryIndex : FjallIndex) (files : Files)
    (acked : List Rec) : Prop where
  pending : pc ≠ .stopped → ∀ k, (warm.get k).isSome →
    (∃ r ∈ batchOf pc, r.key = k) ∨ (entryIndex.getLocation k).isSome
  batch : ∀ r ∈ batchOf pc, r ∈ acked
  file : ∀ w, writerOf pc = some w → ∃ data, files.get w.id = some data ∧
    data.length = w.fileOffset
  newest : ∀ w, writerOf pc = some w → ∀ id data, files.get id = some data → id ≤ w.id
  todo : ∀ w, writerOf pc = some w → ∀ p ∈ todoOf pc, Holds crc32 files w.id p.2.1 p.1

def ReadInv (entryIndex : FjallIndex) (files : Files) (acked : List Rec) (k : Key) :
    ReadPc → Prop
  | .started => True
  | .missed => (entryIndex.getLocation k).isSome
  | .hit p => ∃ r ∈ acked, cached r = (k, p)
  | .found iv => ∃ r ∈ acked, r.key = k ∧ Holds crc32 files iv.segmentId iv.offset r
  | .notFound => False

structure Inv (s : State) : Prop where
  stored : Stored crc32 s.cache s.entryIndex s.walIndex s.files s.acked
  loop : Loop crc32 s.pc s.cache.warm s.entryIndex s.files s.acked
  reads : ∀ id k pc, s.reads.get id = some ⟨k, pc⟩ →
    isAcked s.acked k ∧ ReadInv crc32 s.entryIndex s.files s.acked k pc

end Invariant

section Frame
variable {crc32 : Bytes → UInt32} {cache : EntrySegmentCache} {entryIndex walIndex : FjallIndex}
  {files : Files} {acked : List Rec} {entryIndex' : FjallIndex} {files' : Files} {acked' : List Rec}
  {pc : Pc} {warm : Table Key Bytes} {w : Writer} {k : Key} {r : Rec}

structure Later (crc32 : Bytes → UInt32) (entryIndex entryIndex' : FjallIndex)
    (files files' : Files) (acked acked' : List Rec) : Prop where
  acked : ∀ r ∈ acked, r ∈ acked'
  located : ∀ k, (entryIndex.getLocation k).isSome → (entryIndex'.getLocation k).isSome
  holds : ∀ id offset r, Holds crc32 files id offset r → Holds crc32 files' id offset r

theorem isAcked.mono (h : isAcked acked k) (hsub : ∀ r ∈ acked, r ∈ acked') : isAcked acked' k := by
  obtain ⟨r, hr, hk⟩ := h
  exact ⟨r, hsub r hr, hk⟩

theorem ReadInv.later {pc : ReadPc} (h : ReadInv crc32 entryIndex files acked k pc)
    (hl : Later crc32 entryIndex entryIndex' files files' acked acked') :
    ReadInv crc32 entryIndex' files' acked' k pc := by
  cases pc with
  | started => trivial
  | missed => exact hl.located k h
  | hit p =>
    obtain ⟨r, hr, hk⟩ := h
    exact ⟨r, hl.acked r hr, hk⟩
  | found iv =>
    obtain ⟨r, hr, hk, hh⟩ := h
    exact ⟨r, hl.acked r hr, hk, hl.holds _ _ r hh⟩
  | notFound => exact h

theorem acked_tail {p : Bytes} (r : Rec) (h : ∃ r ∈ acked, cached r = (k, p)) :
    ∃ r' ∈ r :: acked, cached r' = (k, p) := by
  obtain ⟨r', hr', hk⟩ := h
  exact ⟨r', .tail r hr', hk⟩

theorem Stored.update {cache' : EntrySegmentCache}
    (h : Stored crc32 cache entryIndex walIndex files acked) (hsub : ∀ r ∈ acked, r ∈ acked')
    (hhot : ∀ k p, cache'.hot.get k = some p → ∃ r ∈ acked', cached r = (k, p))
    (hwarm : ∀ k p, cache'.warm.get k = some p → ∃ r ∈ acked', cached r = (k, p))
    (hplaced : ∀ k, isAcked acked' k →
      cache'.contains k = true ∨ (entryIndex.getLocation k).isSome) :
    Stored crc32 cache' entryIndex walIndex files acked' where
  hot := hhot
  warm := hwarm
  located := by
    intro k iv hiv
    obtain ⟨r, hr, hk⟩ := h.located k iv hiv
    exact ⟨r, hsub r hr, hk⟩
  logged := fun k hk => (h.logged k hk).mono hsub
  placed := hplaced

theorem Stored.duplicate (h : Stored crc32 cache entryIndex walIndex files acked)
    (hdup : cache.contains r.key = true ∨ (entryIndex.getLocation r.key).isSome ∨
      (walIndex.getLocation r.key).isSome) :
    Stored crc32 cache entryIndex walIndex files (r :: acked) := by
  refine h.update (fun _ => .tail r) (fun k p hp => acked_tail r (h.hot k p hp))
    (fun k p hp => acked_tail r (h.warm k p hp)) fun k hk => ?_
  obtain ⟨r', hr', rfl⟩ := hk
  cases hr' with
  | head =>
    rcases hdup with hc | hi | hw
    · exact .inl hc
    · exact .inr hi
    · exact h.placed r.key (h.logged r.key hw)
  | tail _ hr' => exact h.placed r'.key ⟨r', hr', rfl⟩

theorem Stored.add (h : Stored crc32 cache entryIndex walIndex files acked) (r : Rec) :
    Stored crc32 (cache.insert r.key r.payload) entryIndex walIndex files (r :: acked) := by
  refine h.update (fun _ => .tail r) (fun k p hp => ?_) (fun k p hp => ?_) fun k hk => ?_
  · rw [EntrySegmentCache.insert_hot_get] at hp
    split_ifs at hp with hk
    · cases hp
      exact ⟨r, .head _, Prod.ext hk.1.symm rfl⟩
    · exact acked_tail r (h.hot k p hp)
  · rw [EntrySegmentCache.insert_warm] at hp
    exact acked_tail r (h.warm k p hp)
  · rw [EntrySegmentCache.insert_cached]
    obtain ⟨r', hr', rfl⟩ := hk
    cases hr' with
    | head => exact .inl (.inl rfl)
    | tail _ hr' => exact (h.placed r'.key ⟨r', hr', rfl⟩).imp_left .inr

theorem Stored.drain {order : List (Key × Bytes)}
    (h : Stored crc32 cache entryIndex walIndex files acked)
    (hperm : order.Perm cache.hot.entries) :
    Stored crc32 (cache.drainHotToWarm order) entryIndex walIndex files acked := by
  refine h.update (fun _ hr => hr) (fun k p hp => by cases hp) (fun k p hp => ?_) fun k hk => ?_
  · rw [EntrySegmentCache.drain_warm_get hperm] at hp
    exact (EntrySegmentCache.get_cases hp).elim (h.hot k p) (h.warm k p)
  · rw [EntrySegmentCache.drain_cached hperm]
    exact h.placed k hk

theorem Stored.evict (h : Stored crc32 cache entryIndex walIndex files acked)
    (hloc : ∀ k, (cache.warm.get k).isSome → (entryIndex.getLocation k).isSome) :
    Stored crc32 cache.evictWarm entryIndex walIndex files acked := by
  refine h.update (fun _ hr => hr) h.hot (fun k p hp => by cases hp) fun k hk => ?_
  rcases h.placed k hk with hc | hi
  · rcases Bool.or_eq_true_iff.mp hc with hhot | hwarm
    · exact .inl (Bool.or_eq_true_iff.mpr (.inl hhot))
    · exact .inr (hloc k hwarm)
  · exact .inr hi

theorem Stored.withFiles (h : Stored crc32 cache entryIndex walIndex files acked)
    (hholds : ∀ id offset r, Holds crc32 files id offset r → Holds crc32 files' id offset r) :
    Stored crc32 cache entryIndex walIndex files' acked where
  hot := h.hot
  warm := h.warm
  located := by
    intro k iv hiv
    obtain ⟨r, hr, hk, hh⟩ := h.located k iv hiv
    exact ⟨r, hr, hk, hholds _ _ r hh⟩
  logged := h.logged
  placed := h.placed

theorem Stored.insertLocation {id offset : Nat} (length : Nat)
    (h : Stored crc32 cache entryIndex walIndex files acked) (hr : r ∈ acked)
    (hholds : Holds crc32 files id offset r) :
    Stored crc32 cache (entryIndex.insertLocation r.key id offset length) walIndex files acked where
  hot := h.hot
  warm := h.warm
  located := by
    intro k iv hiv
    rw [FjallIndex.getLocation_insert] at hiv
    split_ifs at hiv with hk
    · cases hiv
      exact ⟨r, hr, hk.symm, hholds⟩
    · exact h.located k iv hiv
  logged := h.logged
  placed := fun k hk => (h.placed k hk).imp_right (FjallIndex.located_insert _ _ _ _ _)

theorem Stored.deleteLocation (h : Stored crc32 cache entryIndex walIndex files acked) (k : Key) :
    Stored crc32 cache entryIndex (walIndex.deleteLocation k) files acked where
  hot := h.hot
  warm := h.warm
  located := h.located
  logged := by
    intro k' hk'
    rw [FjallIndex.getLocation_delete] at hk'
    split_ifs at hk'
    · cases hk'
    · exact h.logged k' hk'
  placed := h.placed

theorem Loop.ack (h : Loop crc32 pc warm entryIndex files acked) (r : Rec) :
    Loop crc32 pc warm entryIndex files (r :: acked) where
  pending := h.pending
  batch := fun r' hr' => .tail r (h.batch r' hr')
  file := h.file
  newest := h.newest
  todo := h.todo

theorem running_of_writer (h : (writerOf pc).isSome) : pc ≠ .stopped := by
  rintro rfl
  cases h

theorem Loop.setPc {pc' : Pc} (h : Loop crc32 pc warm entryIndex files acked)
    (hrun : pc ≠ .stopped) (hw : writerOf pc' = writerOf pc) (hb : batchOf pc' = batchOf pc)
    (ht : todoOf pc' = todoOf pc) : Loop crc32 pc' warm entryIndex files acked where
  pending := fun _ => by
    rw [hb]
    exact h.pending hrun
  batch := by
    rw [hb]
    exact h.batch
  file := by
    rw [hw]
    exact h.file
  newest := by
    rw [hw]
    exact h.newest
  todo := by
    rw [hw, ht]
    exact h.todo

theorem loop_starting : Loop crc32 .starting .empty entryIndex files acked where
  pending := fun _ k hk => by cases hk
  batch := fun r hr => by cases hr
  file := fun w hw => by cases hw
  newest := fun w hw => by cases hw
  todo := fun w hw => by cases hw

theorem loop_stopped : Loop crc32 .stopped warm entryIndex files acked where
  pending := fun hrun => absurd rfl hrun
  batch := fun r hr => by cases hr
  file := fun w hw => by cases hw
  newest := fun w hw => by cases hw
  todo := fun w hw => by cases hw

theorem Loop.create {id : SegmentId} (h : Loop crc32 pc warm entryIndex files acked)
    (hrun : pc ≠ .stopped) (hb : batchOf pc = [])
    (hnew : ∀ id' data, files.get id' = some data → id' < id) :
    Loop crc32 (.created ⟨id, 0⟩) warm entryIndex (files.put id []) acked where
  pending := by
    intro _ k hk
    rcases h.pending hrun k hk with ⟨r, hr, -⟩ | hi
    · rw [hb] at hr
      cases hr
    · exact .inr hi
  batch := fun r hr => by cases hr
  file := by
    intro w hw
    cases hw
    exact ⟨[], Table.get_put_self _ _ _, rfl⟩
  newest := by
    intro w hw id' data hget
    cases hw
    rw [Table.get_put] at hget
    split_ifs at hget with heq
    · exact heq.le
    · exact (hnew id' data hget).le
  todo := fun w hw p hp => by cases hp

theorem cached_injective {r r' : Rec} (h : cached r = cached r') : r = r' := by
  cases r
  cases r'
  simp only [cached, Rec.key, Prod.mk.injEq] at h
  obtain ⟨⟨rfl, rfl⟩, rfl⟩ := h
  rfl

theorem Loop.drain {order : List Rec}
    (h : Loop crc32 (.waiting w) cache.warm entryIndex files acked)
    (hstored : Stored crc32 cache entryIndex walIndex files acked)
    (hperm : (order.map cached).Perm cache.hot.entries) :
    Loop crc32 (if order.isEmpty then .waiting w else .drained w order)
      (cache.drainHotToWarm (order.map cached)).warm entryIndex files acked := by
  have hmem : ∀ r, r ∈ order → r ∈ acked := by
    intro r hr
    have hhot := (cache.hot.mem_entries_iff _ _).mp (hperm.mem_iff.mp (List.mem_map_of_mem hr))
    obtain ⟨r', hr', heq⟩ := hstored.hot r.key r.payload hhot
    exact cached_injective heq ▸ hr'
  have hpending : ∀ k, ((cache.drainHotToWarm (order.map cached)).warm.get k).isSome →
      (∃ r ∈ order, r.key = k) ∨ (entryIndex.getLocation k).isSome := by
    intro k hk
    rw [EntrySegmentCache.drain_warm_get hperm, EntrySegmentCache.get, Option.isSome_or,
      Bool.or_eq_true] at hk
    rcases hk with hhot | hwarm
    · obtain ⟨p, hp⟩ := Option.isSome_iff_exists.mp hhot
      obtain ⟨r, hr, heq⟩ := List.mem_map.mp
        (hperm.mem_iff.mpr ((cache.hot.mem_entries_iff k p).mpr hp))
      exact .inl ⟨r, hr, congrArg Prod.fst heq⟩
    · rcases h.pending (running_of_writer rfl) k hwarm with ⟨r, hr, -⟩ | hi
      · cases hr
      · exact .inr hi
  cases order with
  | nil =>
    refine ⟨fun _ k hk => ?_, h.batch, h.file, h.newest, h.todo⟩
    exact hpending k hk
  | cons r order =>
    exact ⟨fun _ => hpending, hmem, h.file, h.newest, fun w hw p hp => by cases hp⟩

theorem Loop.write {batch : List Rec} {data : Bytes}
    (h : Loop crc32 (.drained w batch) warm entryIndex files acked)
    (hend : data.length = w.fileOffset) :
    Loop crc32 (.written ⟨w.id, w.fileOffset + (batchBytes crc32 batch).length⟩
        (batch.zip (perEntry crc32 w.fileOffset batch)))
      warm entryIndex (files.put w.id (data ++ batchBytes crc32 batch)) acked where
  pending := by
    intro _ k hk
    simp only [batchOf, zip_perEntry_fst]
    exact h.pending (running_of_writer rfl) k hk
  batch := by
    simp only [batchOf, zip_perEntry_fst]
    exact h.batch
  file := by
    intro w' hw'
    cases hw'
    refine ⟨_, Table.get_put_self _ _ _, ?_⟩
    rw [List.length_append, hend]
  newest := by
    intro w' hw' id data' hget
    cases hw'
    rw [Table.get_put] at hget
    split_ifs at hget with heq
    · exact heq.le
    · exact h.newest w rfl id data' hget
  todo := by
    intro w' hw' p hp
    cases hw'
    refine ⟨_, Table.get_put_self _ _ _, ?_⟩
    rw [todoOf, ← hend] at hp
    exact batch_decodes crc32 data batch p hp

theorem Loop.insertLocation {offset length : Nat} {todo : List (Rec × Nat × Nat)}
    (h : Loop crc32 (.indexing w ((r, offset, length) :: todo)) warm entryIndex files acked) :
    Loop crc32 (.located w r.key todo) warm
      (entryIndex.insertLocation r.key w.id offset length) files acked where
  pending := by
    intro _ k hk
    rcases h.pending (running_of_writer rfl) k hk with ⟨r', hr', hkey⟩ | hi
    · rcases List.mem_cons.mp hr' with rfl | hr'
      · refine .inr ?_
        rw [FjallIndex.getLocation_insert, if_pos hkey.symm]
        rfl
      · exact .inl ⟨r', hr', hkey⟩
    · exact .inr (FjallIndex.located_insert _ _ _ _ _ hi)
  batch := fun r' hr' => h.batch r' (.tail _ hr')
  file := h.file
  newest := h.newest
  todo := fun w' hw' p hp => h.todo w' hw' p (.tail _ hp)

theorem Loop.evict (h : Loop crc32 (.sealedSeg w) warm entryIndex files acked) :
    Loop crc32 (.evicted w) .empty entryIndex files acked where
  pending := fun _ k hk => by cases hk
  batch := h.batch
  file := h.file
  newest := h.newest
  todo := h.todo

end Frame

section Runs
variable {crc32 : Bytes → UInt32} {sealThreshold : Nat} {s t : State} {w : Writer} {pc : Pc}
  {k : Key}

theorem Inv.later (h : Inv crc32 s) {cache : EntrySegmentCache}
    {entryIndex walIndex : FjallIndex} {registry : SegmentRegistry} {files : Files}
    {acked : List Rec} (hlater : Later crc32 s.entryIndex entryIndex s.files files s.acked acked)
    (hstored : Stored crc32 cache entryIndex walIndex files acked)
    (hloop : Loop crc32 pc cache.warm entryIndex files acked) :
    Inv crc32 ⟨cache, entryIndex, walIndex, registry, files, pc, acked, s.reads⟩ where
  stored := hstored
  loop := hloop
  reads := fun id k pc hget =>
    ⟨(h.reads id k pc hget).1.mono hlater.acked, (h.reads id k pc hget).2.later hlater⟩

theorem Later.refl (entryIndex : FjallIndex) (files : Files) (acked : List Rec) :
    Later crc32 entryIndex entryIndex files files acked acked :=
  ⟨fun _ h => h, fun _ h => h, fun _ _ _ h => h⟩

theorem Inv.setPc (h : Inv crc32 s)
    (hloop : Loop crc32 pc s.cache.warm s.entryIndex s.files s.acked) :
    Inv crc32 { s with pc := pc } :=
  h.later (.refl _ _ _) h.stored hloop

theorem Inv.withFiles (h : Inv crc32 s) {files : Files}
    (hholds : ∀ id offset r, Holds crc32 s.files id offset r → Holds crc32 files id offset r)
    (hloop : Loop crc32 pc s.cache.warm s.entryIndex files s.acked) :
    Inv crc32 { s with files := files, pc := pc } :=
  h.later ⟨fun _ h => h, fun _ h => h, hholds⟩ (h.stored.withFiles hholds) hloop

theorem Inv.create (h : Inv crc32 s) {id : SegmentId} (hrun : s.pc ≠ .stopped)
    (hb : batchOf s.pc = []) (hnew : ∀ id' data, s.files.get id' = some data → id' < id) :
    Inv crc32 (create s id) := by
  have hfresh : s.files.get id = none := by
    cases hget : s.files.get id with
    | none => rfl
    | some data => exact absurd (hnew id data hget) (Nat.lt_irrefl id)
  exact h.withFiles (fun _ _ _ hh => hh.create hfresh) (h.loop.create hrun hb hnew)

theorem Inv.writer_end (h : Inv crc32 s) (hw : writerOf s.pc = some w)
    {f : Bytes → State} (hst : (s.files.get w.id).map f = some t) :
    ∃ data, s.files.get w.id = some data ∧ data.length = w.fileOffset ∧ t = f data := by
  obtain ⟨data, hdata, hend⟩ := h.loop.file w hw
  rw [hdata] at hst
  exact ⟨data, hdata, hend, (Option.some.inj hst).symm⟩

theorem Inv.write (h : Inv crc32 s) {batch : List Rec} {data : Bytes}
    (hpc : s.pc = .drained w batch) (hdata : s.files.get w.id = some data)
    (hend : data.length = w.fileOffset) :
    Inv crc32 { s with
      files := s.files.put w.id (writeAt data w.fileOffset (batchBytes crc32 batch))
      pc := .written ⟨w.id, w.fileOffset + (batchBytes crc32 batch).length⟩
        (batch.zip (perEntry crc32 w.fileOffset batch)) } := by
  have hloop := h.loop
  rw [hpc] at hloop
  have hwrite : writeAt data w.fileOffset (batchBytes crc32 batch) =
      data ++ batchBytes crc32 batch := by
    rw [← hend, writeAt_end]
  rw [hwrite]
  exact h.withFiles (fun _ _ _ hh => hh.append hdata _) (hloop.write hend)

theorem Inv.drain (h : Inv crc32 s) {order : List Rec} (hpc : s.pc = .waiting w)
    (hperm : (order.map cached).Perm s.cache.hot.entries) :
    Inv crc32 { s with
      cache := s.cache.drainHotToWarm (order.map cached)
      pc := if order.isEmpty then .waiting w else .drained w order } := by
  have hloop := h.loop
  rw [hpc] at hloop
  exact h.later (.refl _ _ _) (h.stored.drain hperm) (hloop.drain h.stored hperm)

theorem Inv.insertLocation (h : Inv crc32 s) {r : Rec} {offset length : Nat}
    {todo : List (Rec × Nat × Nat)} (hpc : s.pc = .indexing w ((r, offset, length) :: todo)) :
    Inv crc32 { s with
      entryIndex := s.entryIndex.insertLocation r.key w.id offset length
      pc := .located w r.key todo } := by
  have hloop := h.loop
  rw [hpc] at hloop
  have hr : r ∈ s.acked := hloop.batch r (.head _)
  have hholds := hloop.todo w rfl (r, offset, length) (.head _)
  exact h.later ⟨fun _ h => h, fun _ => FjallIndex.located_insert _ _ _ _ _, fun _ _ _ h => h⟩
    (h.stored.insertLocation length hr hholds) hloop.insertLocation

theorem Inv.evict (h : Inv crc32 s) (hpc : s.pc = .sealedSeg w) :
    Inv crc32 { s with cache := s.cache.evictWarm, pc := .evicted w } := by
  have hloop := h.loop
  rw [hpc] at hloop
  refine h.later (.refl _ _ _) (h.stored.evict fun k hk => ?_) hloop.evict
  rcases hloop.pending (running_of_writer rfl) k hk with ⟨r, hr, -⟩ | hi
  · cases hr
  · exact hi

theorem Inv.flush {a : FlushAct} (h : Inv crc32 s)
    (hst : stepFlush crc32 sealThreshold s a = some t) : Inv crc32 t := by
  have hloop := h.loop
  unfold stepFlush at hst
  split at hst
  case h_1 hpc =>
    cases hst
    refine h.create (fun heq => by cases hpc.symm.trans heq) (by rw [hpc]; rfl)
      fun id data hget => ?_
    exact nextEntrySegId_fresh s.files s.registry hget
  case h_2 w hpc =>
    cases hst
    rw [hpc] at hloop
    exact h.later (.refl _ _ _) h.stored (hloop.setPc (running_of_writer rfl) rfl rfl rfl)
  case h_3 order w hpc =>
    obtain ⟨hperm, ht⟩ := Option.ite_none_right_eq_some.mp hst
    cases ht
    exact h.drain hpc (List.isPerm_iff.mp hperm)
  case h_4 w batch hpc =>
    obtain ⟨data, hdata, hend, rfl⟩ := h.writer_end (by rw [hpc]; rfl) hst
    exact h.write hpc hdata hend
  case h_5 left w batch hpc =>
    obtain ⟨data, hdata, hend, rfl⟩ := h.writer_end (by rw [hpc]; rfl) hst
    rw [← hend, List.take_length]
    exact h.withFiles (fun _ _ _ hh => hh.append hdata _) loop_stopped
  case h_6 w todo hpc =>
    cases hst
    rw [hpc] at hloop
    exact h.setPc (hloop.setPc (running_of_writer rfl) rfl rfl rfl)
  case h_7 w r offset length todo hpc =>
    cases hst
    exact h.insertLocation hpc
  case h_8 deleted w k todo hpc =>
    cases hst
    rw [hpc] at hloop
    refine h.later (.refl _ _ _) ?_ (hloop.setPc (running_of_writer rfl) rfl rfl rfl)
    cases deleted with
    | false => exact h.stored
    | true => exact h.stored.deleteLocation k
  case h_9 w hpc =>
    cases hst
    rw [hpc] at hloop
    exact h.later (.refl _ _ _) h.stored (hloop.setPc (running_of_writer rfl) rfl rfl rfl)
  case h_10 w hpc =>
    rw [hpc] at hloop
    split_ifs at hst
    · cases hst
      exact h.later (.refl _ _ _) h.stored (hloop.setPc (running_of_writer rfl) rfl rfl rfl)
    · cases hst
      exact h.setPc (hloop.setPc (running_of_writer rfl) rfl rfl rfl)
  case h_11 w hpc =>
    cases hst
    exact h.evict hpc
  case h_12 w hpc =>
    cases hst
    rw [hpc] at hloop
    refine h.create (fun heq => by cases hpc.symm.trans heq) (by rw [hpc]; rfl)
      fun id data hget => ?_
    exact Nat.lt_succ_of_le (hloop.newest w rfl id data hget)
  case h_13 => cases hst
  case h_14 =>
    cases hst
    exact h.setPc loop_stopped
  case h_15 => cases hst

theorem Inv.setRead {id : Nat} {pc : ReadPc} (h : Inv crc32 s) (hk : isAcked s.acked k)
    (hpc : ReadInv crc32 s.entryIndex s.files s.acked k pc) : Inv crc32 (setRead s id k pc) where
  stored := h.stored
  loop := h.loop
  reads := by
    intro id' k' pc' hget
    simp only [FlushLoop.setRead] at hget
    rw [Table.get_put] at hget
    split_ifs at hget
    · cases hget
      exact ⟨hk, hpc⟩
    · exact h.reads id' k' pc' hget

theorem Stored.lookup (h : Stored crc32 s.cache s.entryIndex s.walIndex s.files s.acked)
    (hk : isAcked s.acked k) :
    ReadInv crc32 s.entryIndex s.files s.acked k
      (((s.cache.get k).map ReadPc.hit).getD .missed) := by
  unfold EntrySegmentCache.get
  cases hhot : s.cache.hot.get k with
  | some p => exact h.hot k p hhot
  | none =>
    cases hwarm : s.cache.warm.get k with
    | some p => exact h.warm k p hwarm
    | none =>
      refine (h.placed k hk).resolve_left ?_
      simp [EntrySegmentCache.contains, hhot, hwarm]

theorem inv_step {a : Act} (h : Inv crc32 s) (hst : step crc32 sealThreshold s a = some t) :
    Inv crc32 t := by
  cases a with
  | add r =>
    cases hst
    refine h.later ⟨fun _ => .tail r, fun _ h => h, fun _ _ _ h => h⟩ (h.stored.add r) ?_
    rw [EntrySegmentCache.insert_warm]
    exact h.loop.ack r
  | duplicate r =>
    simp only [step] at hst
    split_ifs at hst with hdup
    cases hst
    have hfound : s.cache.contains r.key = true ∨ (s.entryIndex.getLocation r.key).isSome ∨
        (s.walIndex.getLocation r.key).isSome := by
      simpa [isDuplicate, or_assoc] using hdup
    exact h.later ⟨fun _ => .tail r, fun _ h => h, fun _ _ _ h => h⟩
      (h.stored.duplicate hfound) (h.loop.ack r)
  | flush a => exact h.flush hst
  | read id k =>
    simp only [step] at hst
    split_ifs at hst with hk
    cases hst
    exact h.setRead hk.2 trivial
  | readCache id =>
    simp only [step] at hst
    split at hst
    · rename_i k hget
      cases hst
      exact h.setRead (h.reads id k _ hget).1 (h.stored.lookup (h.reads id k _ hget).1)
    · cases hst
  | readIndex id =>
    simp only [step] at hst
    split at hst
    · rename_i k hget
      cases hst
      obtain ⟨hk, hloc⟩ := h.reads id k _ hget
      obtain ⟨iv, hiv⟩ := Option.isSome_iff_exists.mp hloc
      refine h.setRead hk ?_
      rw [hiv]
      exact h.stored.located k iv hiv
    · cases hst

/-- The loop is about to open its first segment and no read is under way. Whatever the
indices and the cache hold was acknowledged, and the other way round. -/
structure Opened (crc32 : Bytes → UInt32) (s : State) : Prop where
  pc : s.pc = .starting
  warm : s.cache.warm = .empty
  reads : s.reads = .empty
  stored : Stored crc32 s.cache s.entryIndex s.walIndex s.files s.acked

theorem inv_opened (h : Opened crc32 s) : Inv crc32 s where
  stored := h.stored
  loop := by
    rw [h.pc, h.warm]
    exact loop_starting
  reads := by
    intro id k pc hget
    rw [h.reads] at hget
    cases hget

/-- The cache answers for the key, or a location is indexed at which its record is read. -/
def Served (crc32 : Bytes → UInt32) (s : State) (k : Key) : Prop :=
  (∃ r ∈ s.acked, r.key = k ∧ s.cache.get k = some r.payload) ∨
    ∃ r ∈ s.acked, r.key = k ∧ ∃ iv data, s.entryIndex.getLocation k = some iv ∧
      s.files.get iv.segmentId = some data ∧
      decodeRecord crc32 data iv.offset = .ok (r, r.len)

theorem Inv.served (h : Inv crc32 s) (hk : isAcked s.acked k) : Served crc32 s k := by
  have hread := h.stored.lookup hk
  cases hget : s.cache.get k with
  | some p =>
    rw [hget] at hread
    obtain ⟨r, hr, hc⟩ := hread
    exact .inl ⟨r, hr, congrArg Prod.fst hc, hget.trans (congrArg some (congrArg Prod.snd hc).symm)⟩
  | none =>
    rw [hget] at hread
    obtain ⟨iv, hiv⟩ := Option.isSome_iff_exists.mp hread
    obtain ⟨r, hr, hkey, data, hdata, hdec⟩ := h.stored.located k iv hiv
    exact .inr ⟨r, hr, hkey, iv, data, hiv, hdata, hdec⟩

/-- Every acknowledged key can be read at every point of the flush loop, and no read of one
reports it missing. -/
theorem no_read_miss (h : Reach (step crc32 sealThreshold) (Opened crc32) s) :
    (∀ r ∈ s.acked, Served crc32 s r.key) ∧
      ∀ id k, s.reads.get id ≠ some ⟨k, .notFound⟩ := by
  have hinv : Inv crc32 s :=
    h.invariant (fun _ hs => inv_opened hs) fun _ _ _ hs hst => inv_step hs hst
  constructor
  · exact fun r hr => hinv.served ⟨r, hr, rfl⟩
  · exact fun id k hget => (hinv.reads id k _ hget).2

end Runs

section Eviction

def freshNode : State where
  cache := .new 4194304
  entryIndex := .empty
  walIndex := .empty
  registry := .empty
  files := .empty
  pc := .starting
  acked := []
  reads := .empty

theorem freshNode_opened (crc32 : Bytes → UInt32) : Opened crc32 freshNode where
  pc := rfl
  warm := rfl
  reads := rfl
  stored :=
    { hot := fun k p h => by cases h
      warm := fun k p h => by cases h
      located := fun k iv h => by cases h
      logged := fun k h => by cases h
      placed := by
        intro k h
        obtain ⟨r, hr, -⟩ := h
        cases hr }

/-- Two entries are flushed while a third arrives, and the segment is sealed; a read misses
the cache right after the eviction. -/
def evictActs : List Act :=
  [.add firstRec, .add secondRec, .flush .start, .flush .register,
    .flush (.drain [secondRec, firstRec]), .add thirdRec, .flush .write, .flush .sync,
    .flush .insertLocation, .flush (.deleteLocation true), .flush .insertLocation,
    .flush (.deleteLocation false), .flush .upsert, .flush .checkSeal, .read 0 (1, 0),
    .flush .evict, .readCache 0, .flush .openNext, .readIndex 0]

theorem evicted_entry_found :
    ∃ s, run (step Crc32.crc32 4096) freshNode evictActs = some s ∧
      s.cache.get (1, 0) = none ∧
      s.reads.get 0 = some ⟨(1, 0), .found ⟨0, 25, 25⟩⟩ ∧
      (∀ r ∈ s.acked, Served Crc32.crc32 s r.key) ∧
      ∀ id k, s.reads.get id ≠ some ⟨k, .notFound⟩ := by
  obtain ⟨s, hrun, hchk⟩ := run_check (step Crc32.crc32 4096) freshNode
    (fun s => decide (s.cache.get (1, 0) = none ∧
      s.reads.get 0 = some ⟨(1, 0), .found ⟨0, 25, 25⟩⟩)) evictActs (by decide +kernel)
  obtain ⟨hmiss, hfound⟩ := of_decide_eq_true hchk
  exact ⟨s, hrun, hmiss, hfound,
    no_read_miss (reach_of_run evictActs (.start (freshNode_opened _)) hrun)⟩

end Eviction
end Folio.FlushLoop
