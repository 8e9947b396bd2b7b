import Folio.NodeSteps
import Mathlib.Data.List.Perm.Basic

/-! What the WAL collector may remove: where the records of WAL files are kept while they
are on their way to `entry_index`. -/
namespace Folio.WalGc
open KeyedTable Protocol Fjall EntryCache TransitionSystem Node

def Logged : AddPc → Prop
  | .logged | .marked | .kept _ => True
  | _ => False

instance : DecidablePred Logged := fun pc => by
  unfold Logged
  split <;> infer_instance

def inEntryIndex (s : State) (k : Key) : Prop := (s.entryIndex.getLocation k).isSome

def Pending (s : State) (k : Key) : Prop := k ∈ s.flush.waiting.map Prod.fst

def Unflushed (s : State) (k : Key) : Prop :=
  (s.cache.hot.get k).isSome ∨ Pending s k ∨
    ∃ req ∈ s.adds.values, req.entry.key = k ∧ Logged req.pc

instance (s : State) (k : Key) : Decidable (Pending s k) :=
  inferInstanceAs (Decidable (k ∈ s.flush.waiting.map Prod.fst))

instance (s : State) (k : Key) : Decidable (Unflushed s k) := by
  unfold Unflushed
  infer_instance

def fileKeys (s : State) (path : Option SegPath) : List Key :=
  (path.bind s.walFiles.get).getD []

/-- Every file a step removes holds flushed records only. -/
def RemovesFlushed (s t : State) : Prop :=
  ∀ p keys, s.walFiles.get p = some keys → t.walFiles.get p = none → ∀ k ∈ keys, inEntryIndex s k

/-- A file is removed only when nothing of it waits to be flushed. -/
def drained (s : State) (a : Act) : Prop :=
  match a, s.gc with
  | .gc (.visit old removed), .visiting pressure ids (m :: _) =>
    gcRemoves pressure ids m old removed = true → ∀ k ∈ fileKeys s m.localPath, ¬Unflushed s k
  | _, _ => True

instance (s : State) (a : Act) : Decidable (drained s a) := by
  unfold drained
  split <;> infer_instance

/-- After start-up: no request yet, and recovery has put what is not in `entry_index` into
the hot tier. -/
structure Booted (s : State) : Prop where
  adds : s.adds = .empty
  pending : s.flush.pending = []
  warm : s.cache.warm = .empty
  records : ∀ p keys, s.walFiles.get p = some keys →
    ∀ k ∈ keys, inEntryIndex s k ∨ (s.cache.hot.get k).isSome

/-- A warm entry is in `entry_index` or on its way there. -/
def WarmFlushed (s : State) : Prop :=
  ∀ k, (s.cache.warm.get k).isSome → inEntryIndex s k ∨ Pending s k

structure Inv (s : State) : Prop where
  covered : ∀ p keys, s.walFiles.get p = some keys →
    ∀ k ∈ keys, inEntryIndex s k ∨ Unflushed s k
  warm : WarmFlushed s

section Steps
variable {env : Env} {s t : State} {c : Nat} {req : AddReq}

/-- A step keeps every record accounted for if it does so for each place it can be in. -/
theorem kept_of_places (hidx : ∀ k, inEntryIndex s k → inEntryIndex t k)
    (hhot : ∀ k, (s.cache.hot.get k).isSome → inEntryIndex t k ∨ Unflushed t k)
    (hpend : ∀ k, Pending s k → inEntryIndex t k ∨ Unflushed t k)
    (hreq : ∀ c req, s.adds.get c = some req → Logged req.pc →
      inEntryIndex t req.entry.key ∨ Unflushed t req.entry.key) :
    ∀ k, inEntryIndex s k ∨ Unflushed s k → inEntryIndex t k ∨ Unflushed t k := by
  rintro k (hk | hk | hk | ⟨req, hmem, rfl, hpc⟩)
  · exact .inl (hidx k hk)
  · exact hhot k hk
  · exact hpend k hk
  · obtain ⟨c, hget⟩ := (Table.mem_values_iff _ _).mp hmem
    exact hreq c req hget hpc

theorem unflushed_of_logged (hget : s.adds.get c = some req)
    (hpc : Logged req.pc) : Unflushed s req.entry.key :=
  .inr (.inr ⟨req, (Table.mem_values_iff _ _).mpr ⟨c, hget⟩, rfl, hpc⟩)

theorem Inv.move (h : Inv s) (hcache : t.cache = s.cache)
    (hflush : t.flush = s.flush) (hloc : t.entryIndex.locations = s.entryIndex.locations)
    (hadds : t.adds = s.adds.put c req) (hold : ∀ old, s.adds.get c = some old → Logged old.pc →
      Logged req.pc ∧ req.entry.key = old.entry.key)
    (hfiles : ∀ p keys, t.walFiles.get p = some keys → ∀ k ∈ keys,
      (∃ keys', s.walFiles.get p = some keys' ∧ k ∈ keys') ∨ Logged req.pc ∧ req.entry.key = k) :
    Inv t := by
  have hreq : t.adds.get c = some req := by rw [hadds, Table.get_put_self]
  have hidx : ∀ k, inEntryIndex t k ↔ inEntryIndex s k := fun k => by
    unfold inEntryIndex FjallIndex.getLocation
    rw [hloc]
  have hpending : ∀ k, Pending t k ↔ Pending s k := fun k => by
    unfold Pending
    rw [hflush]
  have hkept := @kept_of_places s t (fun k hk => (hidx k).mpr hk)
    (fun k hk => .inr (.inl (by rwa [hcache])))
    (fun k hk => .inr (.inr (.inl ((hpending k).mpr hk))))
    (fun c' old hget hpc => by
      by_cases hc : c' = c
      · subst hc
        obtain ⟨hpc', hkey⟩ := hold old hget hpc
        rw [← hkey]
        exact .inr (unflushed_of_logged hreq hpc')
      · have hget' : t.adds.get c' = some old := by rw [hadds, Table.get_put_ne _ _ hc, hget]
        exact .inr (unflushed_of_logged hget' hpc))
  constructor
  · intro p keys hget k hk
    rcases hfiles p keys hget k hk with ⟨keys', hget', hk'⟩ | ⟨hpc, rfl⟩
    · exact hkept k (h.covered p keys' hget' k hk')
    · exact .inr (unflushed_of_logged hreq hpc)
  · intro k hk
    rw [hcache] at hk
    rw [hidx, hpending]
    exact h.warm k hk

theorem logRecord_files {p : SegPath} {k k' : Key} {keys : List Key}
    (h : (logRecord s k).walFiles.get p = some keys) (hk : k' ∈ keys) :
    (∃ keys', s.walFiles.get p = some keys' ∧ k' ∈ keys') ∨ k' = k := by
  dsimp only [logRecord] at h
  rw [Table.get_put] at h
  split_ifs at h with hp
  · subst hp
    cases h
    rcases List.mem_append.mp hk with hold | hnew
    · cases hg : s.walFiles.get .activeSeg with
      | none => simp [hg] at hold
      | some keys' => exact .inl ⟨keys', rfl, by simpa [hg] using hold⟩
    · exact .inr (List.mem_singleton.mp hnew)
  · exact .inl ⟨keys, h, hk⟩

theorem Inv.move_unlogged {old : Option AddReq} (h : Inv s) (hcache : t.cache = s.cache)
    (hflush : t.flush = s.flush) (hloc : t.entryIndex.locations = s.entryIndex.locations)
    (hadds : t.adds = s.adds.put c req) (hfiles : t.walFiles = s.walFiles)
    (hget : s.adds.get c = old) (hold : ∀ o, old = some o → ¬Logged o.pc) : Inv t := by
  refine h.move hcache hflush hloc hadds (fun o ho hpc => ?_) fun p keys hkeys k hk => ?_
  · exact absurd hpc (hold o (hget.symm.trans ho))
  · rw [hfiles] at hkeys
    exact .inl ⟨keys, hkeys, hk⟩

theorem Inv.cacheInsert {e : Entry} {reply : AddReply} (h : Inv s)
    (hget : s.adds.get c = some ⟨e, .marked⟩) :
    Inv (setAdd (cacheEntry env s e).1 c ⟨e, .marked⟩ (.returned reply)) := by
  have hself : inEntryIndex s e.key ∨ Pending s e.key ∨
      ((s.cache.insert e.key (env.serialize e)).hot.get e.key).isSome := by
    rcases s.cache.insert_contains e.key (env.serialize e) with hhot | hwarm
    · exact .inr (.inr hhot)
    · exact (h.warm _ hwarm).imp_right .inl
  have hkept := @kept_of_places s
    (setAdd (cacheEntry env s e).1 c ⟨e, .marked⟩ (.returned reply)) (fun _ hk => hk)
    (fun k hk => .inr (.inl (s.cache.insert_hot e.key k _ hk)))
    (fun k hk => .inr (.inr (.inl hk)))
    (fun c' old hold hpc => by
      by_cases hc : c' = c
      · subst hc
        obtain rfl := Option.some.inj (hget.symm.trans hold)
        rcases hself with hi | hp | hh
        · exact .inl hi
        · exact .inr (.inr (.inl hp))
        · exact .inr (.inl hh)
      · refine .inr (unflushed_of_logged (c := c') ?_ hpc)
        exact (Table.get_put_ne _ _ hc).trans hold)
  constructor
  · intro p keys hkeys k hk
    exact hkept k (h.covered p keys hkeys k hk)
  · intro k hk
    have hwarm : (s.cache.warm.get k).isSome := by
      rw [← s.cache.insert_warm e.key (env.serialize e)]
      exact hk
    exact h.warm k hwarm

theorem Inv.add (h : Inv s) (hst : AddStep env s c t) : Inv t := by
  cases hst with
  | invoke e hget => exact h.move_unlogged rfl rfl rfl rfl rfl hget nofun
  | fenceCheck e hget =>
    exact h.move_unlogged rfl rfl rfl rfl rfl hget (by rintro _ ⟨⟩ hpc; exact hpc)
  | register e u pc hget hu _ =>
    rw [hu.state]
    exact h.move_unlogged rfl rfl hu.locations rfl rfl hget (by rintro _ ⟨⟩ hpc; exact hpc)
  | dupCheck e hget =>
    exact h.move_unlogged rfl rfl rfl rfl rfl hget (by rintro _ ⟨⟩ hpc; exact hpc)
  | journal e pc hget hopen hpc =>
    rcases hpc with rfl | ⟨err, rfl⟩ <;>
      refine h.move rfl rfl rfl rfl (fun o ho hpc => ?_) fun p keys hkeys k hk =>
        (logRecord_files hkeys hk).imp_right fun hkey => ⟨trivial, hkey.symm⟩ <;>
      · obtain rfl := Option.some.inj (hget.symm.trans ho)
        exact hpc.elim
  | journalLost e err hget =>
    exact h.move_unlogged rfl rfl rfl rfl rfl hget (by rintro _ ⟨⟩ hpc; exact hpc)
  | mark e hget =>
    refine h.move rfl rfl rfl rfl (fun o ho hpc => ?_) fun p keys hkeys k hk => ?_
    · obtain rfl := Option.some.inj (hget.symm.trans ho)
      exact ⟨trivial, rfl⟩
    · exact .inl ⟨keys, hkeys, hk⟩
  | cache e hget => exact h.cacheInsert hget

theorem Inv.files (h : Inv s) (hadds : t.adds = s.adds) (hcache : t.cache = s.cache)
    (hpending : t.flush.waiting = s.flush.waiting)
    (hloc : t.entryIndex.locations = s.entryIndex.locations)
    (hfiles : ∀ p keys, t.walFiles.get p = some keys →
      ∀ k ∈ keys, ∃ p' keys', s.walFiles.get p' = some keys' ∧ k ∈ keys') : Inv t := by
  obtain ⟨hcovered, hwarm⟩ := h
  constructor
  · intro p keys hkeys k hk
    obtain ⟨p', keys', hget, hk'⟩ := hfiles p keys hkeys k hk
    unfold inEntryIndex Unflushed Pending FjallIndex.getLocation
    rw [hadds, hcache, hpending, hloc]
    exact hcovered p' keys' hget k hk'
  · unfold WarmFlushed inEntryIndex Pending FjallIndex.getLocation
    rw [hcache, hpending, hloc]
    exact hwarm

theorem Inv.wal (h : Inv s) (hw : WalStep s t) : Inv t := by
  obtain ⟨hstate, hfiles⟩ := hw
  rw [hstate]
  exact h.files rfl rfl rfl rfl hfiles

theorem Inv.same (h : Inv s) (hadds : t.adds = s.adds) (hcache : t.cache = s.cache)
    (hpending : t.flush.waiting = s.flush.waiting)
    (hloc : t.entryIndex.locations = s.entryIndex.locations) (hfiles : t.walFiles = s.walFiles) :
    Inv t := by
  refine h.files hadds hcache hpending hloc fun p keys hkeys k hk => ?_
  rw [hfiles] at hkeys
  exact ⟨p, keys, hkeys, hk⟩

end Steps

section FlushSteps
variable {s t : State} {b : Bytes} {k₀ k : Key} {rest : List (Key × Bytes)}

theorem pending_index (index : FjallIndex)
    (hpend : s.flush.pending = (k₀, b) :: rest) (hnot : s.flush.indexed = false) :
    Pending s k ↔ k = k₀ ∨
      Pending { s with entryIndex := index, flush := { s.flush with indexed := true } } k := by
  simp [Pending, Flush.waiting, hpend, hnot]

theorem pending_unlink (index : FjallIndex)
    (hpend : s.flush.pending = (k₀, b) :: rest) (hindexed : s.flush.indexed = true) :
    Pending { s with
      walIndex := index, flush := { s.flush with pending := rest, indexed := false } } k ↔
        Pending s k := by
  simp [Pending, Flush.waiting, hpend, hindexed]

theorem pending_drained {order : List (Key × Bytes)} {k : Key}
    (hperm : order.Perm s.cache.hot.entries) (hb : s.cache.hot.get k = some b) :
    k ∈ order.map Prod.fst :=
  List.mem_map.mpr ⟨(k, b), hperm.mem_iff.mpr ((Table.mem_entries_iff _ _ _).mpr hb), rfl⟩

theorem not_pending_of_nil {k : Key} (hnone : s.flush.pending = []) : ¬Pending s k := by
  simp [Pending, Flush.waiting, hnone]

theorem inEntryIndex_insert {segId offset length : Nat} {flush : Flush}
    (h : k = k₀ ∨ inEntryIndex s k) : inEntryIndex { s with
      entryIndex := s.entryIndex.insertLocation k₀ segId offset length, flush } k := by
  unfold inEntryIndex
  rw [FjallIndex.getLocation_insert]
  split_ifs with heq
  · rfl
  · exact h.resolve_left heq

theorem WarmFlushed.flush (h : WarmFlushed s) (hst : FlushStep s t) : WarmFlushed t := by
  intro k hk
  cases hst with
  | drain order hnone hperm =>
    change ((s.cache.drainHotToWarm order).warm.get k).isSome at hk
    rw [EntrySegmentCache.drain_warm_get hperm, EntrySegmentCache.get, Option.isSome_or,
      Bool.or_eq_true] at hk
    rcases hk with hhot | hwarm
    · obtain ⟨b, hb⟩ := Option.isSome_iff_exists.mp hhot
      exact .inr (pending_drained hperm hb)
    · exact .inl ((h k hwarm).resolve_right (not_pending_of_nil hnone))
  | write hpend hsync => exact h k hk
  | index k₀ b rest segId offset length hpend hsync hnot =>
    rcases h k hk with hi | hp
    · exact .inl (inEntryIndex_insert (.inr hi))
    · exact ((pending_index _ hpend hnot).mp hp).imp_left fun heq => inEntryIndex_insert (.inl heq)
  | unlink k₀ b rest hpend hindexed =>
    exact (h k hk).imp_right (pending_unlink _ hpend hindexed).mpr
  | evict hnone => cases hk
  | stop => exact h k hk

theorem covered_flush (hst : FlushStep s t) :
    ∀ k, inEntryIndex s k ∨ Unflushed s k → inEntryIndex t k ∨ Unflushed t k := by
  cases hst with
  | drain order hnone hperm =>
    refine kept_of_places (fun _ hk => hk) (fun k hk => ?_)
      (fun k hk => absurd hk (not_pending_of_nil hnone))
      (fun c req hget hpc => .inr (unflushed_of_logged (c := c) hget hpc))
    obtain ⟨b, hb⟩ := Option.isSome_iff_exists.mp hk
    exact .inr (.inr (.inl (pending_drained hperm hb)))
  | index k₀ b rest segId offset length hpend hsync hnot =>
    refine kept_of_places (fun _ hk => inEntryIndex_insert (.inr hk)) (fun _ hk => .inr (.inl hk))
      (fun k hk => ?_) (fun c req hget hpc => .inr (unflushed_of_logged (c := c) hget hpc))
    exact ((pending_index _ hpend hnot).mp hk).imp (fun heq => inEntryIndex_insert (.inl heq))
      fun hp => .inr (.inl hp)
  | unlink k₀ b rest hpend hindexed =>
    refine fun k hk => hk.imp_right fun hun => ?_
    exact hun.imp_right fun hun => hun.imp_left (pending_unlink _ hpend hindexed).mpr
  | write hpend hsync => exact fun _ hk => hk
  | evict hnone => exact fun _ hk => hk
  | stop => exact fun _ hk => hk

theorem Inv.flush (h : Inv s) (hst : FlushStep s t) : Inv t := by
  have hfiles : t.walFiles = s.walFiles := by cases hst <;> rfl
  refine ⟨fun p keys hkeys k hk => ?_, h.warm.flush hst⟩
  rw [hfiles] at hkeys
  exact covered_flush hst k (h.covered p keys hkeys k hk)

end FlushSteps

section Runs
variable {env : Env} {s t : State}

theorem inv_step {a : Act} (h : Inv s) (hst : step env s a = some t) : Inv t := by
  cases a with
  | add c a => exact h.add (stepAdd_cases env hst)
  | fence f a =>
    have hfence := stepFence_cases hst
    cases hfence <;> exact h.same rfl rfl rfl rfl rfl
  | sealWal a => exact h.wal (stepSeal_wal hst)
  | flush a => exact h.flush (stepFlush_cases hst).2
  | gc a => exact h.wal (stepGc_wal hst)

theorem inv_booted (h : Booted s) : Inv s := by
  constructor
  · intro p keys hkeys k hk
    exact (h.records p keys hkeys k hk).imp_right .inl
  · intro k hk
    rw [h.warm] at hk
    cases hk

theorem removed_by_visit {a : GcAct} {p : SegPath} {keys : List Key}
    (hst : stepGc s a = some t) (hkeys : s.walFiles.get p = some keys)
    (hgone : t.walFiles.get p = none) :
    ∃ old removed pressure ids m todo, a = .visit old removed ∧
      s.gc = .visiting pressure ids (m :: todo) ∧
      gcRemoves pressure ids m old removed = true ∧ m.localPath = some p := by
  have hsame : t.walFiles ≠ s.walFiles := fun heq => by
    rw [heq, hkeys] at hgone
    cases hgone
  unfold stepGc at hst
  split at hst
  case h_3 old removed pressure ids m todo hgc =>
    split at hst <;> cases hst
    · refine ⟨old, removed, pressure, ids, m, todo, rfl, hgc, ‹_›, ?_⟩
      cases hpath : m.localPath with
      | none => exact absurd (by rw [hpath]; rfl) hsame
      | some p' =>
        simp only [hpath, removeFile, Table.get_del] at hgone
        split_ifs at hgone with heq
        · rw [heq]
        · rw [hkeys] at hgone
          cases hgone
    · exact absurd rfl hsame
  all_goals cases hst
  all_goals exact absurd rfl hsame

/-- If no file is removed while one of its records still waits to be flushed, every record
of every file removed is in `entry_index`. -/
theorem gc_removes_flushed_files (h : Reach (guarded drained (step env)) Booted s) (a : GcAct)
    (hst : guarded drained (step env) s (.gc a) = some t) : RemovesFlushed s t := by
  have hinv : Inv s := by
    refine Reach.invariant (fun _ => inv_booted) (fun s a t hs hst => ?_) h
    exact inv_step hs ((guarded_eq_some drained).mp hst).2
  obtain ⟨hg, hst⟩ := (guarded_eq_some drained).mp hst
  intro p keys hkeys hgone k hk
  obtain ⟨old, removed, pressure, ids, m, todo, rfl, hgc, hremoves, hpath⟩ :=
    removed_by_visit hst hkeys hgone
  simp only [drained, hgc] at hg
  have hmem : k ∈ fileKeys s m.localPath := by simp [fileKeys, hpath, hkeys, hk]
  exact (hinv.covered p keys hkeys k hk).resolve_right (hg hremoves k hmem)

theorem newNode_booted : Booted newNode := by
  refine ⟨rfl, rfl, rfl, fun p keys hkeys k hk => ?_⟩
  dsimp only [newNode] at hkeys
  rw [Table.get_put] at hkeys
  split_ifs at hkeys
  · cases hkeys
    cases hk
  · cases hkeys

def sealActs : List Act := [.sealWal .rename, .sealWal .upsert, .sealWal .reopen]

def flushActs (k : Key) (payload : Bytes) : List Act :=
  [.flush (.drain [(k, payload)]), .flush .write, .flush (.index 0 0 payload.length),
    .flush .unlink]

def gcActs : List Act := [.gc (.start true), .gc .listLocal]

theorem flushed_file_collected :
    ∃ s t, Reach (guarded drained (step plainEnv)) Booted s ∧
      guarded drained (step plainEnv) s (.gc (.visit false true)) = some t ∧
      s.walFiles.get (.sealedSeg 0) = some [(1, 0)] ∧ t.walFiles.get (.sealedSeg 0) = none ∧
      RemovesFlushed s t := by
  obtain ⟨s, hreach, hfile, hgone⟩ := reach_check (guarded drained (step plainEnv)) newNode_booted
    (fun s => s.walFiles.get (.sealedSeg 0) = some [(1, 0)] ∧
      ((guarded drained (step plainEnv) s (.gc (.visit false true))).map fun t =>
        t.walFiles.get (.sealedSeg 0)) = some none)
    (addActs 0 (emptyEntry 0) ++ sealActs ++ flushActs (1, 0) [] ++ gcActs) (by decide +kernel)
  obtain ⟨t, hst, hgone⟩ := Option.map_eq_some_iff.mp hgone
  exact ⟨s, t, hreach, hst, hfile, hgone, gc_removes_flushed_files hreach _ hst⟩

/-- One acknowledged entry, a seal and a pass under disk pressure before the first flush:
`wal_index` knows nothing of the entry, so its only durable copy is removed. -/
theorem unflushed_file_collected :
    ∃ s t, Reach (step plainEnv) Booted s ∧ step plainEnv s (.gc (.visit false true)) = some t ∧
      s.adds.get 0 = some ⟨emptyEntry 0, .returned (.written ⟨1, 0, 0, "n1"⟩)⟩ ∧
      s.walFiles.get (.sealedSeg 0) = some [(1, 0)] ∧ t.walFiles.get (.sealedSeg 0) = none ∧
      ¬RemovesFlushed s t := by
  obtain ⟨s, hreach, hack, hfile, hidx, hgone⟩ := reach_check (step plainEnv) newNode_booted
    (fun s => s.adds.get 0 = some ⟨emptyEntry 0, .returned (.written ⟨1, 0, 0, "n1"⟩)⟩ ∧
      s.walFiles.get (.sealedSeg 0) = some [(1, 0)] ∧ s.entryIndex.getLocation (1, 0) = none ∧
      ((step plainEnv s (.gc (.visit false true))).map fun t =>
        t.walFiles.get (.sealedSeg 0)) = some none)
    (addActs 0 (emptyEntry 0) ++ sealActs ++ gcActs) (by decide +kernel)
  obtain ⟨t, hst, hgone⟩ := Option.map_eq_some_iff.mp hgone
  refine ⟨s, t, hreach, hst, hack, hfile, hgone, fun hrem => ?_⟩
  have hloc := hrem _ _ hfile hgone (1, 0) List.mem_cons_self
  rw [inEntryIndex, hidx] at hloc
  cases hloc

end Runs
end Folio.WalGc
