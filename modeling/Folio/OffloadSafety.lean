import Folio.OffloadSteps

/-! A sealed segment is always readable where its row says it is, as long as the start-up leaves
the offloader's segments alone and the registry is persisted before a `remove_file`. -/
namespace Folio.Offloader
open KeyedTable DurableLog Fjall EntrySegment TransitionSystem

section Invariant
variable {s t : State} {id : SegmentId} {m : SegmentMeta}

section Flush
variable {pc : FlushPc} {st : SegmentStatus} {written : Table SegmentId Records}
  {files : Table SegmentId Records} {objects : Table String Records} {rows : SegmentRegistry}
  {seen : Option SegmentMeta} {rest : List SegmentMeta}

theorem Inv.setFlush (h : Inv s) (hflush : FlushOk s.rows s.files s.objects s.written pc)
    (hapart : ∀ c c', s.offload.pc.claim = some c → pc.claim = some c' → c.id ≠ c'.id) :
    Inv (s.setFlush pc) :=
  ⟨h.stored, h.offload, hflush, hapart⟩

theorem flushOk_idle (hclaim : pc.claim = none) (hbound : pc.bound = none)
    (hresets : ∀ st, pc.resets = some st → st = .Active ∨ st = .Offloading) :
    FlushOk rows files objects written pc where
  claim := by
    intro c hc
    cases hclaim.symm.trans hc
  resets := hresets
  bound := by
    intro n hn
    cases hbound.symm.trans hn
  active := by
    intro id hid
    cases pc <;> cases hid <;> cases hbound
  unregistered := by
    intro id hid
    cases pc <;> cases hid
    cases hbound

theorem Inv.idle (h : Inv s) (hclaim : pc.claim = none) (hbound : pc.bound = none)
    (hresets : ∀ st, pc.resets = some st → st = .Active ∨ st = .Offloading) :
    Inv (s.setFlush pc) := by
  refine h.setFlush (flushOk_idle hclaim hbound hresets) fun c c' _ hc' => ?_
  cases hclaim.symm.trans hc'

theorem resetting_claim (st : SegmentStatus) (orphans : List SegmentMeta) :
    (FlushPc.resetting st orphans none).claim = none := by
  cases orphans <;> rfl

theorem Inv.nextOrphan (h : Inv s) (orphans : List SegmentMeta)
    (hst : s.flush.resets = some st) : Inv (s.setFlush (.resetting st orphans none)) := by
  refine h.idle (resetting_claim st orphans) rfl ?_
  rintro st' ⟨⟩
  exact h.flush.resets st hst

theorem Inv.afterResets (h : Inv s) : Inv (s.setFlush (afterResets st)) := by
  cases st
  case Active =>
    refine h.idle rfl rfl fun st hst => ?_
    cases hst
    exact .inr rfl
  all_goals exact h.idle rfl rfl nofun

theorem Inv.flushUpsert (h : Inv s) (hrow : RowOk s.files s.objects m.id m)
    (hne : ∀ c, s.offload.pc.claim = some c → c.id ≠ m.id)
    (hflush : FlushOk (s.rows.put m.id m) s.files s.objects s.written pc)
    (hapart : ∀ c c', s.offload.pc.claim = some c → pc.claim = some c' → c.id ≠ c'.id) :
    Inv ((s.upsert m).setFlush pc) := by
  rw [← rows_upsert] at hflush
  refine ⟨h.stored.upsert hrow, ?_, hflush, hapart⟩
  change OffloadOk (s.upsert m).rows s.objects s.offload
  rw [rows_upsert]
  exact h.offload.put hne

theorem Inv.flushOnward (h : Inv s) (hold : s.flush.claim = some ⟨id, st, seen⟩)
    (hflush : FlushOk s.rows s.files s.objects s.written pc)
    (hclaim : ∀ c, pc.claim = some c → c.id = id) : Inv (s.setFlush pc) := by
  refine h.setFlush hflush fun c c' hc hc' => ?_
  rw [hclaim c' hc']
  have hne := h.apart c _ hc hold
  exact hne

theorem Inv.claimUpsert (h : Inv s)
    (hold : s.flush.claim = some ⟨id, st, seen⟩) (hrow : RowOk s.files s.objects id m)
    (hflush : FlushOk (s.rows.put id m) s.files s.objects s.written pc)
    (hclaim : ∀ c, pc.claim = some c → c.id = id) : Inv ((s.upsert m).setFlush pc) := by
  have hne {c : Claim} (hc : s.offload.pc.claim = some c) : c.id ≠ id := by
    have hne := h.apart c _ hc hold
    exact hne
  have hid := hrow.id_eq
  refine h.flushUpsert (by rwa [hid]) (fun c hc => ?_) (by rwa [hid]) fun c c' hc hc' => ?_
  · rw [hid]
    exact hne hc
  · rw [hclaim c' hc']
    exact hne hc

theorem offload_claim_inHand {pc : OffloadPc} {c : Claim} (h : pc.claim = some c)
    (hst : c.status = .Offloading) : inHand pc = some c.id := by
  unfold OffloadPc.claim at h
  split at h <;> cases h <;> first | rfl | cases hst

theorem Inv.resetGet (h : Inv s) {o seen : SegmentMeta}
    (hpc : s.flush = .resetting st (o :: rest) none)
    (hg : resetsApart s (.flush .get)) (hget : casGet s.rows o.id (reset st) = some seen) :
    Inv (s.setFlush (.resetting st (o :: rest) (some seen))) := by
  have hmet := claim_casGet hget
  have hst := h.flush.resets st (hpc ▸ rfl)
  refine h.setFlush ⟨?_, ?_, nofun, nofun, nofun⟩ ?_
  · rintro c ⟨⟩
    exact hmet
  · rintro st' ⟨⟩
    exact hst
  · rintro c c' hc ⟨⟩
    have hcm := h.offload.claim c hc
    by_cases heq : c.status = st
    · rcases hst with rfl | rfl
      · exact absurd heq (offload_claim_ne_active hc)
      · simp only [resetsApart, hpc, hget, Option.isNone_some, Bool.false_eq_true,
          false_or] at hg
        rw [offload_claim_inHand hc heq] at hg
        exact fun hid => hg (congrArg some hid)
    · exact hcm.id_ne hmet heq

theorem Inv.resetUpsert (h : Inv s) {o seen : SegmentMeta}
    (hpc : s.flush = .resetting st (o :: rest) (some seen)) :
    Inv ((s.upsert ((reset st).write seen)).setFlush (.resetting st rest none)) := by
  have hclaim : s.flush.claim = some ⟨o.id, st, some seen⟩ := hpc ▸ rfl
  have hresets := h.flush.resets st (hpc ▸ rfl)
  obtain ⟨hget, hst⟩ := (h.flush.claim _ hclaim).read
  have hold : seen.status ≠ .S3 := by
    rw [hst]
    rcases hresets with rfl | rfl <;> nofun
  have hrow : RowOk s.files s.objects o.id ((reset st).write seen) :=
    (h.rowsOk.row o.id seen hget).status hold (by decide)
  refine h.claimUpsert hclaim hrow (flushOk_idle (resetting_claim st rest) rfl ?_)
    (forall_of_eq_none (resetting_claim st rest))
  rintro st' ⟨⟩
  exact hresets

theorem Inv.recoverRow (h : Inv s) {rest : List SegmentId} (byteLen : Nat)
    (hfile : (s.files.get id).isSome) (hnone : s.rows.get id = none) :
    Inv ((s.upsert (entryMeta id .Local byteLen)).setFlush (.recovering rest)) := by
  refine h.flushUpsert (rowOk_entryMeta nofun hfile) (fun c hc => ?_)
    (flushOk_idle rfl rfl nofun) fun _ _ _ hc' => by cases hc'
  obtain ⟨m, hget, -, -⟩ := h.offload.claim c hc
  rintro rfl
  cases hnone.symm.trans hget

theorem Inv.nextId (h : Inv s) : Inv (s.setFlush (.opening (nextEntrySegId s.files s.rows))) := by
  refine h.setFlush ⟨nofun, nofun, ?_, nofun, nofun⟩
    fun _ _ _ hc' => by cases hc'
  rintro n ⟨⟩ id hw
  cases hfile : s.files.get id with
  | some data => exact nextEntrySegId_fresh s.files s.rows hfile
  | none =>
    obtain ⟨m, hget, -⟩ := h.rowsOk.gone id hw hfile
    exact nextEntrySegId_registered s.files s.rows hget

theorem Inv.unused (h : Inv s) (hnone : s.written.get id = none) :
    s.files.get id = none ∧ s.objects.get (s3Key id) = none ∧ s.rows.get id = none := by
  refine ⟨?_, ?_, ?_⟩
  · by_contra hne
    obtain ⟨data, hdata⟩ := Option.ne_none_iff_exists'.mp hne
    obtain ⟨w, hw, -⟩ := h.stored.files id data hdata
    cases hnone.symm.trans hw
  · by_contra hne
    obtain ⟨data, hdata⟩ := Option.ne_none_iff_exists'.mp hne
    obtain ⟨w, hw, -⟩ := h.stored.objects id data hdata
    cases hnone.symm.trans hw
  · by_contra hne
    obtain ⟨m, hget⟩ := Option.ne_none_iff_exists'.mp hne
    have hw := h.rowsOk.isWritten h.stored.files h.stored.objects hget
    rw [hnone] at hw
    cases hw

theorem Inv.storedPut (h : Inv s) {data w : Records}
    (hobject : s.objects.get (s3Key id) = none) (hself : written.get id = some w)
    (hfront : w <+: data) (hrest : ∀ id', id' ≠ id → written.get id' = s.written.get id') :
    Stored s.registry (s.files.put id data) s.objects written where
  rows := h.stored.rows.imp fun rows hrows => by
    refine hrows.mono (fun _ hf => Table.isSome_put _ hf) (fun _ ho => ho) fun id' hw => ?_
    by_cases heq : id' = id
    · rw [heq, Table.get_put_self]
      exact .inr rfl
    · rw [hrest id' heq] at hw
      exact .inl hw
  files := by
    intro id' data' hget
    rw [Table.get_put] at hget
    split_ifs at hget with heq
    · cases hget
      exact ⟨w, heq ▸ hself, hfront⟩
    · obtain ⟨w', hw', hp⟩ := h.stored.files id' data' hget
      exact ⟨w', (hrest id' heq).trans hw', hp⟩
  objects := by
    intro id' data' hget
    have hne : id' ≠ id := by
      rintro rfl
      cases hobject.symm.trans hget
    obtain ⟨w', hw', hp⟩ := h.stored.objects id' data' hget
    exact ⟨w', (hrest id' hne).trans hw', hp⟩

theorem Inv.create (h : Inv s) (hpc : s.flush = .opening id) :
    Inv ({ s with
      files := s.files.put id []
      written := s.written.put id [] }.setFlush (.created id)) := by
  have hbound := h.flush.bound id (hpc ▸ rfl)
  have hnone : s.written.get id = none := by
    by_contra hne
    exact absurd (hbound id (Option.isSome_iff_ne_none.mpr hne)) (lt_irrefl id)
  obtain ⟨-, hobject, hrow⟩ := h.unused hnone
  have hstored := h.storedPut hobject (s.written.get_put_self id []) List.prefix_rfl
    fun id' hne => Table.get_put_ne _ _ hne
  refine ⟨hstored, h.offload,
    ⟨nofun, nofun, ?_, ?_, ?_⟩, fun _ _ _ hc' => by cases hc'⟩
  · rintro n ⟨⟩ id' hw
    change ((s.written.put id []).get id').isSome at hw
    rw [Table.get_put] at hw
    split_ifs at hw with heq
    · exact Nat.lt_succ_of_le (le_of_eq heq)
    · exact Nat.lt_succ_of_lt (hbound id' hw)
  · rintro id' ⟨⟩
    exact ⟨hobject, [], Table.get_put_self _ _ _, Table.get_put_self _ _ _⟩
  · rintro id' ⟨⟩
    exact hrow

theorem flushOk_opening (hbound : ∀ id', (written.get id').isSome → id' < id) :
    FlushOk rows files objects written (.opening id) := by
  refine ⟨nofun, nofun, ?_, nofun, nofun⟩
  rintro n ⟨⟩
  exact hbound

theorem Inv.register (h : Inv s) (hpc : s.flush = .created id) :
    Inv ((s.upsert (entryMeta id .Active 0)).setFlush (.writing id false)) := by
  have hactive := h.flush.active id (hpc ▸ rfl)
  have hnone := h.flush.unregistered id (hpc ▸ rfl)
  have hfile : (s.files.get id).isSome := by
    obtain ⟨-, data, hdata, -⟩ := hactive
    rw [hdata]
    rfl
  have hne {c : Claim} (hc : s.offload.pc.claim = some c) : c.id ≠ id :=
    (h.active_ne hc (hpc ▸ rfl)).symm
  refine h.flushUpsert (rowOk_entryMeta nofun hfile) (fun c hc => hne hc)
    ⟨?_, nofun, ?_, ?_, nofun⟩ ?_
  · rintro c ⟨⟩
    exact claim_put _ rfl
  · rintro n ⟨⟩
    exact h.flush.bound _ (hpc ▸ rfl)
  · rintro id' ⟨⟩
    exact hactive
  · rintro c c' hc ⟨⟩
    exact hne hc

theorem Inv.batch (h : Inv s) {flushed : Bool} {rs : Records}
    (hpc : s.flush = .writing id flushed)
    (hst : appendFile (wrote s id rs) id rs (.synced id) = some t) : Inv t := by
  obtain ⟨hobject, data, hdata, hw⟩ := h.flush.active id (hpc ▸ rfl)
  have hclaim : s.flush.claim = some ⟨id, .Active, none⟩ := hpc ▸ rfl
  have hwrote : wrote s id rs = { s with written := s.written.put id (data ++ rs) } := by
    rw [wrote, hw]
    rfl
  rw [hwrote, appendFile] at hst
  dsimp only at hst
  rw [hdata] at hst
  cases hst
  have hstored := h.storedPut hobject (s.written.get_put_self id (data ++ rs)) List.prefix_rfl
    fun id' hne => Table.get_put_ne _ _ hne
  refine ⟨hstored, h.offload, ⟨?_, nofun, ?_, ?_, nofun⟩, ?_⟩
  · rintro c ⟨⟩
    exact h.flush.claim _ hclaim
  · rintro n ⟨⟩ id' hw'
    refine h.flush.bound _ (hpc ▸ rfl) id' ?_
    change ((s.written.put id (data ++ rs)).get id').isSome at hw'
    rw [Table.get_put] at hw'
    split_ifs at hw' with heq
    · rw [heq, hw]
      rfl
    · exact hw'
  · rintro id' ⟨⟩
    exact ⟨hobject, data ++ rs, Table.get_put_self _ _ _, Table.get_put_self _ _ _⟩
  · rintro c c' hc ⟨⟩
    exact h.apart c _ hc hclaim

theorem Inv.batchFails (h : Inv s) {flushed : Bool} {part : Records}
    (hpc : s.flush = .writing id flushed) (hst : appendFile s id part .stopped = some t) :
    Inv t := by
  obtain ⟨hobject, data, hdata, hw⟩ := h.flush.active id (hpc ▸ rfl)
  rw [appendFile, hdata] at hst
  cases hst
  have hstored := h.storedPut hobject hw (List.prefix_append data part) fun _ _ => rfl
  exact ⟨hstored, h.offload, flushOk_idle rfl rfl nofun, fun _ _ _ hc' => by cases hc'⟩

theorem Inv.update (h : Inv s) (hpc : s.flush = .synced id) (byteLen : Nat) :
    Inv ((s.upsert (entryMeta id .Active byteLen)).setFlush (.writing id true)) := by
  have hclaim : s.flush.claim = some ⟨id, .Active, none⟩ := hpc ▸ rfl
  have hactive := h.flush.active id (hpc ▸ rfl)
  have hfile : (s.files.get id).isSome := by
    obtain ⟨-, data, hdata, -⟩ := hactive
    rw [hdata]
    rfl
  refine h.claimUpsert hclaim (rowOk_entryMeta nofun hfile)
    ⟨?_, nofun, ?_, ?_, nofun⟩ ?_
  · rintro c ⟨⟩
    exact claim_put _ rfl
  · rintro n ⟨⟩
    exact h.flush.bound _ (hpc ▸ rfl)
  · rintro id' ⟨⟩
    exact hactive
  · rintro c ⟨⟩
    rfl

theorem Inv.sealing (h : Inv s) {seen seen' : Option SegmentMeta}
    (hold : s.flush.claim = some ⟨id, .Active, seen⟩) (hbound : s.flush.bound = some (id + 1))
    (hmet : Claim.Met ⟨id, .Active, seen'⟩ s.rows) : Inv (s.setFlush (.sealing id seen')) := by
  refine h.flushOnward hold ⟨?_, nofun, ?_, nofun, nofun⟩ ?_
  · rintro c ⟨⟩
    exact hmet
  · rintro n ⟨⟩
    exact h.flush.bound _ hbound
  · rintro c ⟨⟩
    rfl

theorem Inv.sealGet (h : Inv s) (hpc : s.flush = .sealing id none) :
    Inv (s.setFlush ((casGet s.rows id sealOp).elim (.opening (id + 1)) fun seen =>
      .sealing id (some seen))) := by
  have hclaim : s.flush.claim = some ⟨id, .Active, none⟩ := hpc ▸ rfl
  have hbound : s.flush.bound = some (id + 1) := hpc ▸ rfl
  cases hget : casGet s.rows id sealOp with
  | none =>
    exact h.flushOnward hclaim (flushOk_opening (h.flush.bound _ hbound)) nofun
  | some seen => exact h.sealing hclaim hbound (claim_casGet hget)

theorem Inv.sealUpsert (h : Inv s) (hpc : s.flush = .sealing id (some m)) :
    Inv ((s.upsert (sealOp.write m)).setFlush (.opening (id + 1))) := by
  have hclaim : s.flush.claim = some ⟨id, .Active, some m⟩ := hpc ▸ rfl
  obtain ⟨hget, hst⟩ := (h.flush.claim _ hclaim).read
  have hrow : RowOk s.files s.objects id (sealOp.write m) :=
    (h.rowsOk.row id m hget).status (by rw [hst]; nofun) (by decide)
  have hbound := h.flush.bound (id + 1) (hpc ▸ rfl)
  exact h.claimUpsert hclaim hrow (flushOk_opening hbound) nofun

theorem inv_flush {a : FlushAct} (h : Inv s) (hg : resetsApart s (.flush a))
    (hst : stepFlush s a = some t) : Inv t := by
  cases stepFlush_trans hst with
  | recoverRow byteLen id rest _ hfile hnone => exact h.recoverRow byteLen hfile hnone
  | skipFile _ rest => exact h.idle rfl rfl nofun
  | startResets =>
    refine h.idle rfl rfl ?_
    rintro st ⟨⟩
    exact .inl rfl
  | nextOrphan _ st orphans hpc => exact h.nextOrphan orphans hpc
  | resetGet st o seen rest hpc hget => exact h.resetGet hpc hg hget
  | resetUpsert st o seen rest hpc => exact h.resetUpsert hpc
  | afterResets => exact h.afterResets
  | nextId => exact h.nextId
  | create id hpc => exact h.create hpc
  | register id hpc => exact h.register hpc
  | batch rs id flushed _ hpc hst => exact h.batch hpc hst
  | batchFails part id flushed _ hpc hst => exact h.batchFails hpc hst
  | update byteLen id hpc => exact h.update hpc byteLen
  | startSeal id hpc =>
    have hclaim : s.flush.claim = some ⟨id, .Active, none⟩ := hpc ▸ rfl
    exact h.sealing hclaim (hpc ▸ rfl) (h.flush.claim _ hclaim)
  | sealGet id hpc => exact h.sealGet hpc
  | sealUpsert id seen hpc => exact h.sealUpsert hpc
  | stop => exact h.idle rfl rfl nofun

end Flush

theorem inv_persist (h : Inv s) : Inv { s with registry := s.registry.sync } :=
  ⟨⟨Log.survives_sync h.rowsOk, h.stored.files, h.stored.objects⟩, h.offload, h.flush, h.apart⟩

theorem inv_crash {kept : Nat} (h : Inv s) (hst : step s (.crash kept) = some t) : Inv t := by
  obtain ⟨registry, hcrash, rfl⟩ := Option.map_eq_some_iff.mp hst
  refine ⟨⟨h.stored.rows.crash hcrash, h.stored.files, h.stored.objects⟩,
    offloadOk_idle (fun m hm => absurd hm List.not_mem_nil), flushOk_idle rfl rfl nofun,
    fun c c' hc => ?_⟩
  cases hc

theorem inv_step {a : Act} (h : Inv s) (hg : inOrder s a) (hst : step s a = some t) : Inv t := by
  cases a with
  | offload a => exact inv_offload h hg.2 (Option.ite_none_left_eq_some.mp hst).2
  | flush a => exact inv_flush h hg.1 hst
  | persist =>
    cases hst
    exact inv_persist h
  | crash kept => exact inv_crash h hst

end Invariant

section Stranding

def Init (s : State) : Prop := s = fresh

theorem inv_init : Inv fresh where
  stored := by
    refine ⟨fun n _ _ => ?_, fun id => forall_of_eq_none rfl, fun id => forall_of_eq_none rfl⟩
    have hempty : fresh.registry.upTo n = .empty := by
      simp [fresh, Log.upTo, Log.putAll]
    rw [hempty]
    refine ⟨fun id => forall_of_eq_none rfl, fun id hw => ?_⟩
    cases hw
  offload := offloadOk_idle fun m hm => absurd hm List.not_mem_nil
  flush := flushOk_idle rfl rfl (forall_of_eq_none rfl)
  apart := fun c c' hc => by cases hc

/-- Every sealed segment can be read where its row says it is, and a segment whose local file
is gone has an `S3` row that no crash takes back. -/
structure NoneStranded (s : State) : Prop where
  localFile : ∀ id m, s.rows.get id = some m → m.status = .Local ∨ m.status = .Offloading →
    ∃ file data, m.localPath = some (.entrySeg file) ∧ s.files.get file = some data ∧
      Complete s.written id data
  object : ∀ id m, s.rows.get id = some m → m.status = .S3 →
    ∃ key data, m.s3Key = some key ∧ s.objects.get key = some data ∧ Complete s.written id data
  removed : ∀ id, (s.written.get id).isSome → s.files.get id = none →
    ∃ m, s.registry.durable.get id = some m ∧ m.status = .S3

theorem Inv.noneStranded {s : State} (h : Inv s) : NoneStranded s where
  localFile id m hget hst := by
    have hne : m.status ≠ .S3 := by
      rcases hst with hst | hst <;> rw [hst] <;> nofun
    obtain ⟨hpath, hfile⟩ := (h.rowsOk.row id m hget).onDisk hne
    obtain ⟨data, hdata⟩ := Option.isSome_iff_exists.mp hfile
    exact ⟨id, data, hpath, hdata, h.stored.files id data hdata⟩
  object id m hget hst := by
    obtain ⟨hkey, hobject⟩ := (h.rowsOk.row id m hget).inS3 hst
    obtain ⟨data, hdata⟩ := Option.isSome_iff_exists.mp hobject
    exact ⟨s3Key id, data, hkey, hdata, h.stored.objects id data hdata⟩
  removed := h.stored.rows.durable.gone

theorem Inv.removes_durable {s t : State} {ok : Bool} (h : Inv s)
    (hst : guarded inOrder step s (.offload (.remove ok)) = some t) :
    ∃ j m, s.offload.pc = .removing j ∧ s.registry.durable.get j.id = some m ∧
      m.status = .S3 := by
  obtain ⟨⟨-, hsynced⟩, hst⟩ := (guarded_eq_some inOrder).mp hst
  have hsynced : s.registry.synced = s.registry.writes.length := hsynced
  have hst := (Option.ite_none_left_eq_some.mp hst).2
  have hdurable : s.registry.durable = s.rows := by
    rw [Log.durable, hsynced, Log.upTo_length, State.rows]
  have hpc : ∃ j, s.offload.pc = .removing j := by
    cases hpc : s.offload.pc
    case removing j => exact ⟨j, rfl⟩
    all_goals cases ok <;> simp [stepOffload, hpc] at hst
  obtain ⟨j, hpc⟩ := hpc
  have hclaim : s.offload.pc.claim = some ⟨j.id, .S3, none⟩ := hpc ▸ rfl
  obtain ⟨m, hget, hst, -⟩ := h.offload.claim _ hclaim
  exact ⟨j, m, hpc, hdurable ▸ hget, hst⟩

theorem never_stranded {s : State} (h : Reach (guarded inOrder step) Init s) :
    NoneStranded s ∧
      ∀ ok t, guarded inOrder step s (.offload (.remove ok)) = some t →
        ∃ j m, s.offload.pc = .removing j ∧ s.registry.durable.get j.id = some m ∧
          m.status = .S3 := by
  have hinv : Inv s := by
    refine h.invariant ?_ fun _ _ _ hinv hst => ?_
    · rintro _ rfl
      exact inv_init
    · obtain ⟨hg, hst⟩ := (guarded_eq_some inOrder).mp hst
      exact inv_step hinv hg hst
  exact ⟨hinv.noneStranded, fun ok t hst => hinv.removes_durable hst⟩

def emptyStart : List Act :=
  [.flush .next, .flush (.list []), .flush .next, .flush (.list []), .flush .next, .flush .next]

def firstBatch : List Act :=
  emptyStart ++ [.flush .create, .flush .register, .flush (.batch [((1, 0), [7])]),
    .flush (.update 1)]

def firstSealed : List Act := firstBatch ++ [.flush .seal, .flush .get, .flush .upsert]

def takeFirst : List Act :=
  [.offload (.list [entryMeta 0 .Local 1]), .offload .take, .offload .get, .offload .upsert]

/-- A segment is sealed, uploaded and removed; the crash after that loses the last update of
the next segment. -/
def offloadedRun : List Act :=
  firstSealed ++ [.flush .create, .flush .register] ++ takeFirst ++
  [.offload (.upload (.failed false)), .offload (.upload .ok), .offload (.head true),
   .offload .get, .offload .upsert, .persist, .offload (.remove true),
   .flush (.batch [((1, 1), [8])]), .flush (.update 1),
   .crash 6, .flush (.recover 0), .flush .next,
   .flush (.list [entryMeta 1 .Active 0]), .flush .get, .flush .upsert, .flush .next]

theorem offloaded_not_stranded : ∃ s,
    Reach (guarded inOrder step) Init s ∧ s.files.get 0 = none ∧
    (s.rows.get 0).map SegmentMeta.status = some .S3 ∧ NoneStranded s := by
  have hstart : Init fresh := rfl
  obtain ⟨s, hreach, hfile, hst⟩ := reach_check (guarded inOrder step) hstart
    (fun s => s.files.get 0 = none ∧ (s.rows.get 0).map SegmentMeta.status = some .S3)
    offloadedRun (by decide +kernel)
  exact ⟨s, hreach, hfile, hst, (never_stranded hreach).1⟩

/-- The start-up seals the segment of the run before, the offloader takes it up, and the
start-up resets it during the upload. -/
def resetRun : List Act :=
  firstBatch ++ [.crash 2, .flush (.recover 1), .flush .next,
   .flush (.list [entryMeta 0 .Active 1]), .flush .get, .flush .upsert, .flush .next] ++
  takeFirst ++
  [.flush (.list [entryMeta 0 .Offloading 1]), .flush .get, .flush .upsert,
   .offload (.upload .ok), .offload (.head true), .offload .get, .persist,
   .offload (.remove true)]

/-- The write of the `S3` row is lost after the file is gone. -/
def lostRowRun : List Act :=
  firstSealed ++ takeFirst ++
  [.offload (.upload .ok), .offload (.head true), .offload .get, .offload .upsert,
   .offload (.remove true), .crash 4]

theorem segment_stranded :
    (∃ s m, Reach (guarded removesPersisted step) Init s ∧ s.rows.get 0 = some m ∧
      m.status = .Local ∧ s.files.get 0 = none ∧ s.written.get 0 = some [((1, 0), [7])]) ∧
    ∃ s m, Reach (guarded resetsApart step) Init s ∧ s.rows.get 0 = some m ∧
      m.status = .Offloading ∧ s.files.get 0 = none ∧ s.written.get 0 = some [((1, 0), [7])] := by
  have hstart : Init fresh := rfl
  constructor
  · obtain ⟨s, hreach, hget, hrest⟩ := reach_check (guarded removesPersisted step) hstart
      (fun s => s.rows.get 0 = some (entryMeta 0 .Local 1) ∧ s.files.get 0 = none ∧
        s.written.get 0 = some [((1, 0), [7])]) resetRun (by decide +kernel)
    exact ⟨s, _, hreach, hget, rfl, hrest⟩
  · obtain ⟨s, hreach, hget, hrest⟩ := reach_check (guarded resetsApart step) hstart
      (fun s => s.rows.get 0 = some (entryMeta 0 .Offloading 1) ∧ s.files.get 0 = none ∧
        s.written.get 0 = some [((1, 0), [7])]) lostRowRun (by decide +kernel)
    exact ⟨s, _, hreach, hget, rfl, hrest⟩

end Stranding
end Folio.Offloader
