import Folio.Node

/-! What the steps of a node can do, once for all invariants. -/
namespace Folio.Node
open KeyedTable Protocol Fjall

section Inversion
variable (env : Env)

structure SameButLedgers (s t : State) : Prop where
  state : t = { s with entryIndex := t.entryIndex, knownLedgers := t.knownLedgers }
  locations : t.entryIndex.locations = s.entryIndex.locations

inductive AddStep (s : State) (c : Nat) : State → Prop
  | invoke (e : Entry) : s.adds.get c = none →
      AddStep s c { s with adds := s.adds.put c ⟨e, .started⟩ }
  | fenceCheck (e : Entry) : s.adds.get c = some ⟨e, .started⟩ →
      AddStep s c (setAdd s c ⟨e, .started⟩ (fenceCheck env s e))
  | register (e : Entry) (u : State) (pc : AddPc) : s.adds.get c = some ⟨e, .checked⟩ →
      SameButLedgers s u → (pc = .registered ∨ ∃ err, pc = .returned (.failed err)) →
      AddStep s c (setAdd u c ⟨e, .checked⟩ pc)
  | dupCheck (e : Entry) : s.adds.get c = some ⟨e, .registered⟩ →
      AddStep s c (setAdd s c ⟨e, .registered⟩ (dupCheck s e))
  | journal (e : Entry) (pc : AddPc) : s.adds.get c = some ⟨e, .sent⟩ → s.sealing = .open →
      (pc = .logged ∨ ∃ err, pc = .kept err) →
      AddStep s c (setAdd (logRecord s e.key) c ⟨e, .sent⟩ pc)
  | journalLost (e : Entry) (err : FolioError) : s.adds.get c = some ⟨e, .sent⟩ →
      AddStep s c (setAdd s c ⟨e, .sent⟩ (.returned (.failed err)))
  | mark (e : Entry) : s.adds.get c = some ⟨e, .logged⟩ →
      AddStep s c (setAdd { s with hiEntry := raise s.hiEntry e.ledgerId e.entryId } c
        ⟨e, .logged⟩ .marked)
  | cache (e : Entry) : s.adds.get c = some ⟨e, .marked⟩ →
      AddStep s c (setAdd (cacheEntry env s e).1 c ⟨e, .marked⟩
        (.returned (cacheEntry env s e).2))

theorem ensureLedgerKnown_locations {x y : FjallIndex} {ledger : Nat} {key : Option Key32}
    {b : Bool} (h : x.ensureLedgerKnown ledger key = .ok (y, b)) :
    y.locations = x.locations := by
  unfold FjallIndex.ensureLedgerKnown at h
  split at h <;> cases h <;> rfl

theorem registerLedger_frame (s : State) (e : Entry) :
    SameButLedgers s (registerLedger env s e).1 := by
  unfold registerLedger
  cases h : recordLedger s e with
  | error err => exact ⟨rfl, rfl⟩
  | ok t =>
    unfold recordLedger at h
    split_ifs at h
    · cases hr : s.entryIndex.ensureLedgerKnown e.ledgerId e.masterKey <;> rw [hr] at h <;> cases h
      exact ⟨rfl, ensureLedgerKnown_locations hr⟩
    · cases h
      exact ⟨rfl, rfl⟩
    · cases hr : s.entryIndex.ensureLedgerKnown e.ledgerId e.masterKey <;> rw [hr] at h <;> cases h
      exact ⟨rfl, ensureLedgerKnown_locations hr⟩

theorem stepAdd_cases {s t : State} {c : Nat} {a : AddAct} (h : stepAdd env s c a = some t) :
    AddStep env s c t := by
  unfold stepAdd at h
  split at h
  · cases h
    exact .invoke _ ‹_›
  · cases h
    exact .fenceCheck _ ‹_›
  · rename_i e hget
    split at h
    · rename_i t hreg
      cases h
      have hframe := registerLedger_frame env s e
      rw [hreg] at hframe
      exact .register e t _ hget hframe (.inl rfl)
    · rename_i t err hreg
      cases h
      have hframe := registerLedger_frame env s e
      rw [hreg] at hframe
      exact .register e t _ hget hframe (.inr ⟨err, rfl⟩)
  · cases h
    exact .dupCheck _ ‹_›
  · split_ifs at h with hseal
    split at h <;> cases h
    · exact .journal _ _ ‹_› (not_not.mp hseal) (.inl rfl)
    · exact .journal _ _ ‹_› (not_not.mp hseal) (.inr ⟨_, rfl⟩)
    · exact .journalLost _ _ ‹_›
  · cases h
    exact .mark _ ‹_›
  · cases h
    exact .cache _ ‹_›
  · cases h

theorem AddStep.flush {s t : State} {c : Nat} (h : AddStep env s c t) : t.flush = s.flush := by
  cases h with
  | register e u pc _ hu _ =>
    rw [hu.state]
    rfl
  | _ => rfl

end Inversion

section OtherSteps
variable {s t : State}

inductive FenceStep (s : State) (f : Nat) : FenceAct → State → Prop
  | invoke (ledger : Nat) : s.fenceReqs.get f = none → FenceStep s f (.invoke ledger)
      { s with fenceReqs := s.fenceReqs.put f ⟨ledger, .started⟩ }
  | durable (ledger : Nat) : s.fenceReqs.get f = some ⟨ledger, .started⟩ →
      FenceStep s f .durable (setFence { s with entryIndex := s.entryIndex.fenceLedger ledger } f
        ⟨ledger, .started⟩ .durable)
  | inSet (ledger : Nat) : s.fenceReqs.get f = some ⟨ledger, .durable⟩ →
      FenceStep s f .inSet (setFence { s with fences := ledger :: s.fences } f
        ⟨ledger, .durable⟩ .inSet)
  | readHi (ledger : Nat) : s.fenceReqs.get f = some ⟨ledger, .inSet⟩ →
      FenceStep s f .readHi (setFence s f ⟨ledger, .inSet⟩ (.readHi (memMark s ledger)))
  | readEntryIndex (ledger memHi : Nat) : s.fenceReqs.get f = some ⟨ledger, .readHi memHi⟩ →
      FenceStep s f .readEntryIndex
        (setFence s f ⟨ledger, .readHi memHi⟩ (.readEntry memHi (entryMark s ledger)))
  | readWalIndex (ledger memHi hiEntry : Nat) :
      s.fenceReqs.get f = some ⟨ledger, .readEntry memHi hiEntry⟩ →
      FenceStep s f .readWalIndex (setFence s f ⟨ledger, .readEntry memHi hiEntry⟩
        (.returned (max memHi (max hiEntry (walMark s ledger)))))

theorem stepFence_cases {f : Nat} {a : FenceAct} (h : stepFence s f a = some t) :
    FenceStep s f a t := by
  unfold stepFence at h
  split at h <;> cases h
  · exact .invoke _ ‹_›
  · exact .durable _ ‹_›
  · exact .inSet _ ‹_›
  · exact .readHi _ ‹_›
  · exact .readEntryIndex _ _ ‹_›
  · exact .readWalIndex _ _ _ ‹_›

inductive FlushStep (s : State) : State → Prop
  | drain (order : List (Key × Bytes)) : s.flush.pending = [] → order.Perm s.cache.hot.entries →
      FlushStep s { s with
        cache := s.cache.drainHotToWarm order
        flush := { s.flush with pending := order, synced := false, indexed := false } }
  | write : s.flush.pending ≠ [] → s.flush.synced = false →
      FlushStep s { s with flush := { s.flush with synced := true } }
  | index (k : Key) (b : Bytes) (rest : List (Key × Bytes)) (segId offset length : Nat) :
      s.flush.pending = (k, b) :: rest → s.flush.synced = true → s.flush.indexed = false →
      FlushStep s { s with
        entryIndex := s.entryIndex.insertLocation k segId offset length
        flush := { s.flush with indexed := true } }
  | unlink (k : Key) (b : Bytes) (rest : List (Key × Bytes)) :
      s.flush.pending = (k, b) :: rest → s.flush.indexed = true →
      FlushStep s { s with
        walIndex := s.walIndex.deleteLocation k
        flush := { s.flush with pending := rest, indexed := false } }
  | evict : s.flush.pending = [] → FlushStep s { s with cache := s.cache.evictWarm }
  | stop : FlushStep s { s with flush := { s.flush with stopped := true } }

theorem stepFlush_cases {a : FlushAct} (h : stepFlush s a = some t) :
    s.flush.stopped = false ∧ FlushStep s t := by
  unfold stepFlush at h
  split at h
  · cases h
  rename_i hstop
  refine ⟨eq_false_of_ne_true hstop, ?_⟩
  split at h
  · split at h <;> cases h
    exact .drain _ ‹_› (List.isPerm_iff.mp ‹_›)
  · rename_i hpend
    split at h <;> cases h
    rename_i hsync
    refine .write ?_ (eq_false_of_ne_true hsync)
    rw [hpend]
    exact List.cons_ne_nil _ _
  · split at h <;> cases h
    rename_i hready
    obtain ⟨hsync, hnot⟩ := Bool.and_eq_true_iff.mp hready
    exact .index _ _ _ _ _ _ ‹_› hsync (by simpa using hnot)
  · split at h <;> cases h
    exact .unlink _ _ _ ‹_› ‹_›
  · cases h
    exact .evict ‹_›
  · cases h
    exact .stop
  · cases h

/-- A step of a seal or of the collector: files, registry and its own position change, and
no file gets a record that was in none before. -/
structure WalStep (s t : State) : Prop where
  state : t = { s with
    walFiles := t.walFiles, walRegistry := t.walRegistry, segId := t.segId
    sealing := t.sealing, gc := t.gc }
  records : ∀ p keys, t.walFiles.get p = some keys →
    ∀ k ∈ keys, ∃ p' keys', s.walFiles.get p' = some keys' ∧ k ∈ keys'

theorem stepSeal_wal {a : SealAct} (h : stepSeal s a = some t) : WalStep s t := by
  unfold stepSeal at h
  split at h
  · obtain ⟨active, hactive, rfl⟩ := Option.map_eq_some_iff.mp h
    refine ⟨rfl, fun p keys hkeys k hk => ?_⟩
    dsimp only at hkeys
    rw [Table.get_put, Table.get_del] at hkeys
    split_ifs at hkeys
    · cases hkeys
      exact ⟨_, _, hactive, hk⟩
    · exact ⟨p, keys, hkeys, hk⟩
  · cases h
    exact ⟨rfl, fun p keys hkeys k hk => ⟨p, keys, hkeys, hk⟩⟩
  · cases h
    refine ⟨rfl, fun p keys hkeys k hk => ?_⟩
    dsimp only at hkeys
    rw [Table.get_put] at hkeys
    split_ifs at hkeys with hp
    · cases hkeys
      cases hg : s.walFiles.get .activeSeg with
      | none => simp [hg] at hk
      | some keys' => exact ⟨_, keys', hg, by simpa [hg] using hk⟩
    · exact ⟨p, keys, hkeys, hk⟩
  · cases h

theorem removeFile_get {files : Table SegPath (List Key)} {path : Option SegPath} {p : SegPath}
    {keys : List Key} (h : (removeFile files path).get p = some keys) :
    files.get p = some keys := by
  unfold removeFile at h
  split at h
  · rw [Table.get_del] at h
    split_ifs at h
    exact h
  · exact h

theorem stepGc_wal {a : GcAct} (h : stepGc s a = some t) : WalStep s t := by
  unfold stepGc at h
  split at h
  case h_3 =>
    split at h <;> cases h
    · exact ⟨rfl, fun p keys hkeys k hk => ⟨p, keys, removeFile_get hkeys, hk⟩⟩
    · exact ⟨rfl, fun p keys hkeys k hk => ⟨p, keys, hkeys, hk⟩⟩
  all_goals cases h
  all_goals exact ⟨rfl, fun p keys hkeys k hk => ⟨p, keys, hkeys, hk⟩⟩

/-- Neither an add request nor the flush loop has taken the step. -/
structure Aside (s t : State) : Prop where
  state : t = { s with
    fenceReqs := t.fenceReqs, fences := t.fences, entryIndex := t.entryIndex
    walFiles := t.walFiles, walRegistry := t.walRegistry, segId := t.segId
    sealing := t.sealing, gc := t.gc }
  locations : t.entryIndex.locations = s.entryIndex.locations

theorem step_cases {env : Env} {a : Act} (hst : step env s a = some t) :
    (∃ c, AddStep env s c t) ∨ (s.flush.stopped = false ∧ FlushStep s t) ∨ Aside s t := by
  have hwal (h : WalStep s t) : Aside s t := by
    rw [h.state]
    exact ⟨rfl, rfl⟩
  cases a with
  | add c a => exact .inl ⟨c, stepAdd_cases env hst⟩
  | flush a => exact .inr (.inl (stepFlush_cases hst))
  | fence f a =>
    right; right
    cases stepFence_cases hst <;> exact ⟨rfl, rfl⟩
  | sealWal a => exact .inr (.inr (hwal (stepSeal_wal hst)))
  | gc a => exact .inr (.inr (hwal (stepGc_wal hst)))

end OtherSteps

section Moving
variable {env : Env} {s t : State}

/-- An entry leaves `wal_index` when it is in `entry_index`. -/
def HeadIndexed (s : State) : Prop :=
  s.flush.indexed = true → ∀ k b rest, s.flush.pending = (k, b) :: rest →
    (s.entryIndex.getLocation k).isSome

theorem HeadIndexed.of_same (h : HeadIndexed s) (hflush : t.flush = s.flush)
    (hindex : ∀ k, (s.entryIndex.getLocation k).isSome → (t.entryIndex.getLocation k).isSome) :
    HeadIndexed t := by
  intro hind k b rest hpend
  rw [hflush] at hind hpend
  exact hindex k (h hind k b rest hpend)

theorem headIndexed_of_idle (h : s.flush.pending = []) : HeadIndexed s := by
  intro _ k b rest hpend
  rw [h] at hpend
  cases hpend

theorem headIndexed_flush (h : HeadIndexed s) (hst : FlushStep s t) : HeadIndexed t := by
  cases hst with
  | drain order _ _ => exact nofun
  | write _ _ => exact h
  | index k b rest segId offset length hpend _ _ =>
    rintro - k' b' rest' hpend'
    cases hpend.symm.trans hpend'
    simp [FjallIndex.getLocation_insert]
  | unlink k b rest _ _ => exact nofun
  | evict _ => exact h
  | stop => exact h

theorem headIndexed_add {c : Nat} (h : HeadIndexed s) (hst : AddStep env s c t) :
    HeadIndexed t := by
  have hflush := hst.flush
  cases hst with
  | register e u pc _ hu _ =>
    refine h.of_same hflush fun k hk => ?_
    change (u.entryIndex.locations.get k).isSome
    rwa [hu.locations]
  | _ => exact h

theorem headIndexed_step {a : Act} (h : HeadIndexed s) (hst : step env s a = some t) :
    HeadIndexed t := by
  rcases step_cases hst with ⟨c, hadd⟩ | ⟨-, hflush⟩ | haside
  · exact headIndexed_add h hadd
  · exact headIndexed_flush h hflush
  · refine h.of_same (by rw [haside.state]) fun k hk => ?_
    rwa [FjallIndex.getLocation, haside.locations]

end Moving

end Folio.Node
