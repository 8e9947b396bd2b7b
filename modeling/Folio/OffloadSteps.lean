import Folio.SegmentClaims

/-! The claims of the offloader and the flush loop are on different segments; a pass of the
offloader keeps them so. -/
namespace Folio.Offloader
open KeyedTable DurableLog Fjall Fjall.SegmentRegistry EntrySegment
variable {objects : Table String Records} {rows : SegmentRegistry}

section Steps

inductive OffloadTrans (s : State) (a : OffloadAct) : State → Prop
  | list (order : List SegmentMeta) : order.Perm (listByStatus s.rows .Local) →
      OffloadTrans s a { s with offload := ⟨order, .between⟩ }
  | skip : OffloadTrans s a { s with offload := ⟨s.offload.pending.tail, .between⟩ }
  | take (t : State) : takeNext s = some t → OffloadTrans s a t
  | letGo : OffloadTrans s a (s.setOffload .between)
  | markGet (j : Job) (m : SegmentMeta) : s.offload.pc = .marking j none →
      casGet s.rows j.id mark = some m → OffloadTrans s a (s.setOffload (.marking j (some m)))
  | markUpsert (j : Job) (m : SegmentMeta) : s.offload.pc = .marking j (some m) →
      OffloadTrans s a ((s.upsert (mark.write m)).setOffload (.uploading j 0))
  | uploaded (j : Job) (n : Nat) (t : State) : s.offload.pc = .uploading j n →
      putObject s j (.verifying j) = some t → OffloadTrans s a t
  | failedAfterPut (j : Job) (n : Nat) (t : State) : s.offload.pc = .uploading j n →
      putObject s j (afterFailure j n) = some t → OffloadTrans s a t
  | failed (j : Job) (n : Nat) : s.offload.pc = .uploading j n →
      OffloadTrans s a (s.setOffload (afterFailure j n))
  | found (j : Job) : s.offload.pc = .verifying j → (s.objects.get (s3Key j.id)).isSome →
      OffloadTrans s a (s.setOffload (.recording j none))
  | missing (j : Job) : s.offload.pc = .verifying j →
      OffloadTrans s a (s.setOffload (.rollingBack j none))
  | recordGet (j : Job) : s.offload.pc = .recording j none →
      OffloadTrans s a (s.setOffload ((casGet s.rows j.id (record j.id)).elim (.removing j) fun m =>
        .recording j (some m)))
  | recordUpsert (j : Job) (m : SegmentMeta) : s.offload.pc = .recording j (some m) →
      OffloadTrans s a ((s.upsert ((record j.id).write m)).setOffload (.removing j))
  | recordError (j : Job) (seen : Option SegmentMeta) : s.offload.pc = .recording j seen →
      OffloadTrans s a (s.setOffload (.rollingBack j none))
  | rollBackGet (j : Job) (m : SegmentMeta) : s.offload.pc = .rollingBack j none →
      casGet s.rows j.id rollBack = some m →
      OffloadTrans s a (s.setOffload (.rollingBack j (some m)))
  | rollBackUpsert (j : Job) (m : SegmentMeta) : s.offload.pc = .rollingBack j (some m) →
      OffloadTrans s a ((s.upsert (rollBack.write m)).setOffload .between)
  | remove (j : Job) : a = .remove true → s.offload.pc = .removing j →
      OffloadTrans s a ({ s with files := s.files.del j.file }.setOffload .between)

theorem stepOffload_trans {s t : State} {a : OffloadAct} (h : stepOffload s a = some t) :
    OffloadTrans s a t := by
  unfold stepOffload at h
  split at h <;> try cases h
  · obtain ⟨⟨-, hperm⟩, h⟩ := Option.ite_none_right_eq_some.mp h
    cases h
    exact .list _ (List.isPerm_iff.mp hperm)
  · exact .skip
  · exact .take t h
  · next j hpc =>
    cases hget : casGet s.rows j.id mark with
    | none => exact .letGo
    | some m => exact .markGet j m hpc hget
  · exact .markUpsert _ _ ‹_›
  · exact .letGo
  · exact .uploaded _ _ t ‹_› h
  · exact .failedAfterPut _ _ t ‹_› h
  · exact .failed _ _ ‹_›
  · obtain ⟨hobj, h⟩ := Option.ite_none_right_eq_some.mp h
    cases h
    exact .found _ ‹_› hobj
  · exact .missing _ ‹_›
  · exact .recordGet _ ‹_›
  · exact .recordUpsert _ _ ‹_›
  · exact .recordError _ _ ‹_›
  · next j hpc =>
    cases hget : casGet s.rows j.id rollBack with
    | none => exact .letGo
    | some m => exact .rollBackGet j m hpc hget
  · exact .rollBackUpsert _ _ ‹_›
  · exact .letGo
  · exact .remove _ rfl ‹_›
  · exact .letGo

def FlushPc.resets : FlushPc → Option SegmentStatus
  | .listing st | .resetting st _ _ => some st
  | _ => none

inductive FlushTrans (s : State) : FlushAct → State → Prop
  | recoverRow (byteLen : Nat) (id : SegmentId) (rest : List SegmentId) :
      s.flush = .recovering (id :: rest) → (s.files.get id).isSome → s.rows.get id = none →
      FlushTrans s (.recover byteLen)
        ((s.upsert (entryMeta id .Local byteLen)).setFlush (.recovering rest))
  | skipFile (a : FlushAct) (rest : List SegmentId) :
      FlushTrans s a (s.setFlush (.recovering rest))
  | startResets (a : FlushAct) : FlushTrans s a (s.setFlush (.listing .Active))
  -- the orphans are listed, or the first of them is done with
  | nextOrphan (a : FlushAct) (st : SegmentStatus) (orphans : List SegmentMeta) :
      s.flush.resets = some st → FlushTrans s a (s.setFlush (.resetting st orphans none))
  | resetGet (st : SegmentStatus) (o seen : SegmentMeta) (rest : List SegmentMeta) :
      s.flush = .resetting st (o :: rest) none → casGet s.rows o.id (reset st) = some seen →
      FlushTrans s .get (s.setFlush (.resetting st (o :: rest) (some seen)))
  | resetUpsert (st : SegmentStatus) (o seen : SegmentMeta) (rest : List SegmentMeta) :
      s.flush = .resetting st (o :: rest) (some seen) → FlushTrans s .upsert
        ((s.upsert ((reset st).write seen)).setFlush (.resetting st rest none))
  | afterResets (a : FlushAct) (st : SegmentStatus) :
      FlushTrans s a (s.setFlush (afterResets st))
  | nextId : FlushTrans s .next (s.setFlush (.opening (nextEntrySegId s.files s.rows)))
  | create (id : SegmentId) : s.flush = .opening id → FlushTrans s .create
      ({ s with
        files := s.files.put id []
        written := s.written.put id [] }.setFlush (.created id))
  | register (id : SegmentId) : s.flush = .created id → FlushTrans s .register
      ((s.upsert (entryMeta id .Active 0)).setFlush (.writing id false))
  | batch (rs : Records) (id : SegmentId) (flushed : Bool) (t : State) :
      s.flush = .writing id flushed → appendFile (wrote s id rs) id rs (.synced id) = some t →
      FlushTrans s (.batch rs) t
  | batchFails (part : Records) (id : SegmentId) (flushed : Bool) (t : State) :
      s.flush = .writing id flushed → appendFile s id part .stopped = some t →
      FlushTrans s (.batchFails part) t
  | update (byteLen : Nat) (id : SegmentId) : s.flush = .synced id →
      FlushTrans s (.update byteLen)
        ((s.upsert (entryMeta id .Active byteLen)).setFlush (.writing id true))
  | startSeal (id : SegmentId) : s.flush = .writing id true →
      FlushTrans s .seal (s.setFlush (.sealing id none))
  | sealGet (id : SegmentId) : s.flush = .sealing id none → FlushTrans s .get
      (s.setFlush ((casGet s.rows id sealOp).elim (.opening (id + 1)) fun seen =>
        .sealing id (some seen)))
  | sealUpsert (id : SegmentId) (seen : SegmentMeta) : s.flush = .sealing id (some seen) →
      FlushTrans s .upsert ((s.upsert (sealOp.write seen)).setFlush (.opening (id + 1)))
  | stop (a : FlushAct) : FlushTrans s a (s.setFlush .stopped)

theorem stepFlush_trans {s t : State} {a : FlushAct} (h : stepFlush s a = some t) :
    FlushTrans s a t := by
  unfold stepFlush at h
  split at h <;> try cases h
  · split_ifs with hnew
    · exact .recoverRow _ _ _ ‹_› hnew.1 (Option.isNone_iff_eq_none.mp hnew.2)
    · exact .skipFile _ _
  · exact .skipFile _ _
  · exact .startResets _
  · next st hpc =>
    obtain ⟨-, h⟩ := Option.ite_none_right_eq_some.mp h
    cases h
    exact .nextOrphan _ _ _ (hpc ▸ rfl)
  · exact .afterResets _ _
  · next st o rest hpc =>
    have hskip : FlushTrans s .get (s.setFlush (.resetting st rest none)) :=
      .nextOrphan _ _ _ (hpc ▸ rfl)
    split_ifs
    · cases hget : casGet s.rows o.id (reset st) with
      | none => exact hskip
      | some seen => exact .resetGet st o seen rest hpc hget
    · exact hskip
  · exact .resetUpsert _ _ _ _ ‹_›
  · next hpc => exact .nextOrphan _ _ _ (hpc ▸ rfl)
  · exact .afterResets _ _
  · exact .nextId
  · exact .create _ ‹_›
  · exact .register _ ‹_›
  · exact .batch _ _ _ t ‹_› h
  · exact .batchFails _ _ _ t ‹_› h
  · exact .update _ _ ‹_›
  · exact .startSeal _ ‹_›
  · exact .sealGet _ ‹_›
  · exact .sealUpsert _ _ ‹_›
  · exact .stop _
  · exact .stop _

end Steps

section Invariant

def OffloadPc.job : OffloadPc → Option Job
  | .between => none
  | .marking j _ | .uploading j _ | .verifying j | .recording j _ | .rollingBack j _
  | .removing j => some j

def OffloadPc.verified : OffloadPc → Option Job
  | .recording j _ => some j
  | _ => none

def FlushPc.active : FlushPc → Option SegmentId
  | .created id | .writing id _ | .synced id => some id
  | _ => none

def FlushPc.unregistered : FlushPc → Option SegmentId
  | .created id => some id
  | _ => none

def FlushPc.bound : FlushPc → Option SegmentId
  | .opening id => some id
  | .created id | .writing id _ | .synced id | .sealing id _ => some (id + 1)
  | _ => none

structure Stored (registry : Log SegmentId SegmentMeta)
    (files : Table SegmentId Records) (objects : Table String Records)
    (written : Table SegmentId Records) : Prop where
  rows : registry.Survives (RowsOk files objects written)
  files : ∀ id data, files.get id = some data → Complete written id data
  objects : ∀ id data, objects.get (s3Key id) = some data → Complete written id data

structure OffloadOk (rows : SegmentRegistry) (objects : Table String Records)
    (o : Offload) : Prop where
  pending : ∀ m ∈ o.pending, ∀ file, m.localPath = some (.entrySeg file) → file = m.id
  job : ∀ j, o.pc.job = some j → j.file = j.id
  claim : ∀ c, o.pc.claim = some c → c.Met rows
  verified : ∀ j, o.pc.verified = some j → (objects.get (s3Key j.id)).isSome

structure FlushOk (rows : SegmentRegistry) (files : Table SegmentId Records)
    (objects : Table String Records)
    (written : Table SegmentId Records) (pc : FlushPc) : Prop where
  claim : ∀ c, pc.claim = some c → c.Met rows
  resets : ∀ st, pc.resets = some st → st = .Active ∨ st = .Offloading
  bound : ∀ n, pc.bound = some n → ∀ id, (written.get id).isSome → id < n
  active : ∀ id, pc.active = some id → objects.get (s3Key id) = none ∧
    ∃ data, files.get id = some data ∧ written.get id = some data
  unregistered : ∀ id, pc.unregistered = some id → rows.get id = none

structure Inv (s : State) : Prop where
  stored : Stored s.registry s.files s.objects s.written
  offload : OffloadOk s.rows s.objects s.offload
  flush : FlushOk s.rows s.files s.objects s.written s.flush
  apart : ∀ c c', s.offload.pc.claim = some c → s.flush.claim = some c' → c.id ≠ c'.id

variable {s t : State} {id : SegmentId} {m : SegmentMeta}

theorem rows_upsert : (s.upsert m).rows = s.rows.put m.id m := Log.contents_insert _ _ _

theorem Inv.rowsOk (h : Inv s) : RowsOk s.files s.objects s.written s.rows :=
  h.stored.rows.contents

theorem Stored.upsert (h : Stored s.registry s.files s.objects s.written)
    (hrow : RowOk s.files s.objects m.id m) :
    Stored (s.upsert m).registry s.files s.objects s.written where
  rows := h.rows.insert fun hrows => hrows.put hrow
  files := h.files
  objects := h.objects

theorem OffloadOk.put {o : Offload} (h : OffloadOk rows objects o)
    (hne : ∀ c, o.pc.claim = some c → c.id ≠ id) : OffloadOk (rows.put id m) objects o :=
  ⟨h.pending, h.job, fun c hc => (h.claim c hc).put (hne c hc), h.verified⟩

theorem FlushOk.put {files : Table SegmentId Records}
    {written : Table SegmentId Records} {pc : FlushPc} (h : FlushOk rows files objects written pc)
    (hne : ∀ c, pc.claim = some c → c.id ≠ id) (hold : (rows.get id).isSome) :
    FlushOk (rows.put id m) files objects written pc where
  claim := fun c hc => (h.claim c hc).put (hne c hc)
  resets := h.resets
  bound := h.bound
  active := h.active
  unregistered := by
    intro id' hpc
    have hnone := h.unregistered id' hpc
    have hid : id' ≠ id := by
      rintro rfl
      rw [hnone] at hold
      cases hold
    rw [Table.get_put_ne _ _ hid]
    exact hnone

section Offload
variable {j : Job} {pc : OffloadPc} {c : Claim} {seen : Option SegmentMeta}

theorem offload_claim_ne_active (h : pc.claim = some c) : c.status ≠ .Active := by
  unfold OffloadPc.claim at h
  split at h <;> cases h <;> nofun

theorem Inv.setOffload (h : Inv s) (hjob : ∀ j, pc.job = some j → j.file = j.id)
    (hclaim : ∀ c, pc.claim = some c →
      c.Met s.rows ∧ ∀ c', s.flush.claim = some c' → c.id ≠ c'.id)
    (hverified : ∀ j, pc.verified = some j → (s.objects.get (s3Key j.id)).isSome) :
    Inv (s.setOffload pc) where
  stored := h.stored
  offload := ⟨h.offload.pending, hjob, fun c hc => (hclaim c hc).1, hverified⟩
  flush := h.flush
  apart := fun c c' hc hc' => (hclaim c hc).2 c' hc'

theorem Inv.unclaimed (h : Inv s) {o : Offload} (hok : OffloadOk s.rows s.objects o)
    (hnone : o.pc.claim = none) : Inv { s with offload := o } where
  stored := h.stored
  offload := hok
  flush := h.flush
  apart := by
    intro c c' hc
    cases hnone.symm.trans hc

theorem offloadOk_idle {pending : List SegmentMeta}
    (h : ∀ m ∈ pending, ∀ file, m.localPath = some (.entrySeg file) → file = m.id) :
    OffloadOk rows objects ⟨pending, .between⟩ :=
  ⟨h, nofun, nofun, nofun⟩

theorem Inv.letGo (h : Inv s) : Inv (s.setOffload .between) :=
  h.unclaimed (offloadOk_idle h.offload.pending) rfl

theorem Inv.reclaim (h : Inv s) {st : SegmentStatus} {seen' : Option SegmentMeta}
    (hold : s.offload.pc.claim = some ⟨id, st, seen⟩) (hnew : pc.claim = some ⟨id, st, seen'⟩)
    (hmet : Claim.Met ⟨id, st, seen'⟩ s.rows) (hjob : pc.job = s.offload.pc.job)
    (hverified : ∀ j, pc.verified = some j → (s.objects.get (s3Key j.id)).isSome) :
    Inv (s.setOffload pc) := by
  refine h.setOffload (fun j hj => h.offload.job j (hjob ▸ hj)) (fun c hc => ?_) hverified
  rw [hnew] at hc
  cases hc
  refine ⟨hmet, fun c' hc' => ?_⟩
  have hne := h.apart _ c' hold hc'
  exact hne

theorem Inv.offloadUpsert (h : Inv s) {op : CasOp}
    (hold : s.offload.pc.claim = some ⟨id, op.expected, some m⟩)
    (hrow : RowOk s.files s.objects id (op.write m))
    (hjob : ∀ j, pc.job = some j → s.offload.pc.job = some j)
    (hclaim : ∀ c, pc.claim = some c → c = ⟨id, op.next, none⟩) (hverified : pc.verified = none) :
    Inv ((s.upsert (op.write m)).setOffload pc) := by
  have hid : (op.write m).id = id := hrow.id_eq
  have hread : (s.rows.get id).isSome := by
    rw [(h.offload.claim _ hold).read.1]
    rfl
  have hrows : (s.upsert (op.write m)).rows = s.rows.put id (op.write m) := by
    rw [rows_upsert, hid]
  refine ⟨h.stored.upsert (by rw [hid]; exact hrow), ?_, ?_, ?_⟩
  · refine ⟨h.offload.pending, fun j hj => h.offload.job j (hjob j hj), fun c hc => ?_,
      forall_of_eq_none hverified⟩
    change c.Met (s.upsert (op.write m)).rows
    rw [hrows, hclaim c hc]
    exact claim_put _ (CasOp.write_status m op)
  · change FlushOk (s.upsert (op.write m)).rows s.files s.objects s.written s.flush
    rw [hrows]
    exact h.flush.put (fun c' hc' => (h.apart _ c' hold hc').symm) hread
  · intro c c' hc hc'
    rw [hclaim c hc]
    have hne := h.apart _ c' hold hc'
    exact hne

theorem Inv.active_ne (h : Inv s) (hc : s.offload.pc.claim = some c)
    (hactive : s.flush.active = some id) : id ≠ c.id := by
  obtain ⟨m, hget, -, -⟩ := h.offload.claim c hc
  cases hpc : s.flush <;> rw [hpc] at hactive <;> cases hactive
  case created =>
    rintro rfl
    rw [h.flush.unregistered _ (hpc ▸ rfl)] at hget
    cases hget
  all_goals
    have hclaim : s.flush.claim = some ⟨id, .Active, none⟩ := hpc ▸ rfl
    exact (h.apart c _ hc hclaim).symm

theorem Inv.putObject (h : Inv s) (hold : s.offload.pc.claim = some ⟨j.id, .Offloading, none⟩)
    (holdJob : s.offload.pc.job = some j) (hnew : pc.claim = some ⟨j.id, .Offloading, none⟩)
    (hjob : pc.job = some j) (hverified : pc.verified = none)
    (hst : putObject s j pc = some t) : Inv t := by
  obtain ⟨data, hdata, rfl⟩ := Option.map_eq_some_iff.mp hst
  rw [h.offload.job j holdJob] at hdata
  refine ⟨⟨h.stored.rows.imp fun rows hrows => ?_, h.stored.files, ?_⟩, ?_, ?_, ?_⟩
  · exact hrows.mono (fun _ hf => hf) (fun _ ho => Table.isSome_put _ ho) fun _ hw => .inl hw
  · intro id data' hget
    change (s.objects.put (s3Key j.id) data).get (s3Key id) = some data' at hget
    rw [Table.get_put] at hget
    split_ifs at hget with hkey
    · cases hget
      cases s3Key_inj hkey
      exact h.stored.files _ _ hdata
    · exact h.stored.objects id data' hget
  · refine ⟨h.offload.pending, fun j' hj' => ?_, fun c hc => ?_,
      forall_of_eq_none hverified⟩
    · change pc.job = some j' at hj'
      rw [hjob] at hj'
      exact h.offload.job j' (holdJob.trans hj')
    · change pc.claim = some c at hc
      rw [hnew] at hc
      exact h.offload.claim c (hold.trans hc)
  · refine ⟨h.flush.claim, h.flush.resets, h.flush.bound, fun id hactive => ?_,
      h.flush.unregistered⟩
    obtain ⟨hnone, hfile⟩ := h.flush.active id hactive
    have hne := h.active_ne hold hactive
    refine ⟨?_, hfile⟩
    change (s.objects.put (s3Key j.id) data).get (s3Key id) = none
    rw [Table.get_put_ne _ _ fun hkey => hne (s3Key_inj hkey)]
    exact hnone
  · intro c c' hc hc'
    change pc.claim = some c at hc
    rw [hnew] at hc
    exact h.apart c c' (hold.trans hc) hc'

/-- The `S3` row is on disk by now, so no crash brings back the row of the removed file. -/
theorem Inv.remove (h : Inv s) (hpc : s.offload.pc = .removing j)
    (hsynced : s.registry.synced = s.registry.writes.length) :
    Inv { s with files := s.files.del j.file } := by
  have hclaim : s.offload.pc.claim = some ⟨j.id, .S3, none⟩ := hpc ▸ rfl
  have hfile : j.file = j.id := h.offload.job j (hpc ▸ rfl)
  obtain ⟨m, hget, hst, -⟩ := h.offload.claim _ hclaim
  refine ⟨⟨Log.survives_of_synced hsynced ?_, fun id data hdata => ?_, h.stored.objects⟩,
    h.offload, ?_, h.apart⟩
  · rw [hfile]
    exact h.rowsOk.remove hget hst
  · dsimp only at hdata
    rw [Table.get_del] at hdata
    split_ifs at hdata
    exact h.stored.files id data hdata
  · refine ⟨h.flush.claim, h.flush.resets, h.flush.bound, fun id hactive => ?_,
      h.flush.unregistered⟩
    obtain ⟨hnone, data, hdata, hw⟩ := h.flush.active id hactive
    refine ⟨hnone, data, ?_, hw⟩
    rw [hfile]
    exact (Table.get_del_ne _ (h.active_ne hclaim hactive)).trans hdata

theorem Inv.list (h : Inv s) {order : List SegmentMeta}
    (hperm : order.Perm (listByStatus s.rows .Local)) :
    Inv { s with offload := ⟨order, .between⟩ } := by
  refine h.unclaimed (offloadOk_idle fun m hm file hpath => ?_) rfl
  obtain ⟨hmem, hst⟩ := List.mem_filter.mp (hperm.mem_iff.mp hm)
  obtain ⟨id, hget⟩ := (s.rows.mem_values_iff m).mp hmem
  have hrow := h.rowsOk.row id m hget
  have hne : m.status ≠ .S3 := by
    rw [of_decide_eq_true hst]
    nofun
  rw [(hrow.onDisk hne).1] at hpath
  cases hpath
  exact hrow.id_eq.symm

theorem Inv.take (h : Inv s) (hst : takeNext s = some t) : Inv t := by
  unfold takeNext at hst
  split at hst
  case h_2 => cases hst
  case h_1 m rest hpending =>
    split at hst
    case h_2 => cases hst
    case h_1 file hpath =>
      cases hst
      have hmem : ∀ m' ∈ m :: rest, m' ∈ s.offload.pending := fun m' hm' => hpending ▸ hm'
      refine h.unclaimed ⟨fun m' hm' => ?_, fun j hj => ?_, nofun, nofun⟩ rfl
      · exact h.offload.pending m' (hmem m' (List.mem_cons_of_mem _ hm'))
      · cases hj
        exact h.offload.pending m (hmem m List.mem_cons_self) file hpath

theorem afterFailure_claim (j : Job) (n : Nat) :
    (afterFailure j n).claim = some ⟨j.id, .Offloading, none⟩ := by
  unfold afterFailure
  split_ifs <;> rfl

theorem afterFailure_job (j : Job) (n : Nat) : (afterFailure j n).job = some j := by
  unfold afterFailure
  split_ifs <;> rfl

theorem afterFailure_verified (j : Job) (n : Nat) : (afterFailure j n).verified = none := by
  unfold afterFailure
  split_ifs <;> rfl

theorem FlushOk.claim_status {files : Table SegmentId Records} {written : Table SegmentId Records}
    {pc : FlushPc} (h : FlushOk rows files objects written pc) (hc : pc.claim = some c) :
    c.status = .Active ∨ c.status = .Offloading := by
  unfold FlushPc.claim at hc
  split at hc <;> cases hc
  case h_1 => exact h.resets _ rfl
  all_goals exact .inl rfl

theorem Inv.markGet (h : Inv s) (hpc : s.offload.pc = .marking j none)
    (hget : casGet s.rows j.id mark = some m) : Inv (s.setOffload (.marking j (some m))) := by
  have hmet := claim_casGet hget
  refine h.setOffload (fun j' hj' => ?_) (fun c hc => ?_) nofun
  · cases hj'
    exact h.offload.job j (hpc ▸ rfl)
  · cases hc
    refine ⟨hmet, fun c' hc' => hmet.id_ne (h.flush.claim c' hc') ?_⟩
    rcases h.flush.claim_status hc' with hst | hst <;> rw [hst] <;> nofun

theorem Inv.markUpsert (h : Inv s) (hpc : s.offload.pc = .marking j (some m)) :
    Inv ((s.upsert (mark.write m)).setOffload (.uploading j 0)) := by
  have hclaim : s.offload.pc.claim = some ⟨j.id, mark.expected, some m⟩ := hpc ▸ rfl
  obtain ⟨hget, hst⟩ := (h.offload.claim _ hclaim).read
  have hrow : RowOk s.files s.objects j.id (mark.write m) :=
    (h.rowsOk.row j.id m hget).status (by rw [hst]; nofun) (by decide)
  refine h.offloadUpsert hclaim hrow (fun j' hj' => ?_) (fun c hc => ?_) rfl
  · rw [hpc]
    exact hj'
  · cases hc
    rfl

/-- The row is as the offloader has left it, so `cas_to_s3` does not return `false`. -/
theorem Inv.recordGet (h : Inv s) (hpc : s.offload.pc = .recording j none) :
    Inv (s.setOffload ((casGet s.rows j.id (record j.id)).elim (.removing j) fun m =>
      .recording j (some m))) := by
  have hclaim : s.offload.pc.claim = some ⟨j.id, (record j.id).expected, none⟩ := hpc ▸ rfl
  cases hget : casGet s.rows j.id (record j.id) with
  | none => exact absurd hget (h.offload.claim _ hclaim).casGet
  | some m =>
    refine h.reclaim hclaim rfl (claim_casGet hget) (hpc ▸ rfl) fun j' heq => ?_
    cases heq
    exact h.offload.verified j (hpc ▸ rfl)

theorem Inv.recordUpsert (h : Inv s) (hpc : s.offload.pc = .recording j (some m)) :
    Inv ((s.upsert ((record j.id).write m)).setOffload (.removing j)) := by
  have hclaim : s.offload.pc.claim = some ⟨j.id, (record j.id).expected, some m⟩ := hpc ▸ rfl
  obtain ⟨hget, -⟩ := (h.offload.claim _ hclaim).read
  have hrow := (h.rowsOk.row j.id m hget).record (h.offload.verified j (hpc ▸ rfl))
  refine h.offloadUpsert hclaim hrow (fun j' hj' => ?_) (fun c hc => ?_) rfl
  · rw [hpc]
    exact hj'
  · cases hc
    rfl

theorem Inv.rollBackUpsert (h : Inv s) (hpc : s.offload.pc = .rollingBack j (some m)) :
    Inv ((s.upsert (rollBack.write m)).setOffload .between) := by
  have hclaim : s.offload.pc.claim = some ⟨j.id, rollBack.expected, some m⟩ := hpc ▸ rfl
  obtain ⟨hget, hst⟩ := (h.offload.claim _ hclaim).read
  have hrow : RowOk s.files s.objects j.id (rollBack.write m) :=
    (h.rowsOk.row j.id m hget).status (by rw [hst]; nofun) (by decide)
  exact h.offloadUpsert hclaim hrow nofun nofun rfl

theorem inv_offload {a : OffloadAct} (h : Inv s) (hg : removesPersisted s (.offload a))
    (hst : stepOffload s a = some t) : Inv t := by
  cases stepOffload_trans hst with
  | list order hperm => exact h.list hperm
  | skip =>
    refine h.unclaimed (offloadOk_idle fun m hm => ?_) rfl
    exact h.offload.pending m (List.mem_of_mem_tail hm)
  | take _ hst => exact h.take hst
  | letGo => exact h.letGo
  | markGet j m hpc hget => exact h.markGet hpc hget
  | markUpsert j m hpc => exact h.markUpsert hpc
  | uploaded j n _ hpc hst => exact h.putObject (hpc ▸ rfl) (hpc ▸ rfl) rfl rfl rfl hst
  | failedAfterPut j n _ hpc hst =>
    exact h.putObject (hpc ▸ rfl) (hpc ▸ rfl) (afterFailure_claim j n)
      (afterFailure_job j n) (afterFailure_verified j n) hst
  | failed j n hpc =>
    have hclaim : s.offload.pc.claim = some ⟨j.id, .Offloading, none⟩ := hpc ▸ rfl
    refine h.reclaim hclaim (afterFailure_claim j n) (h.offload.claim _ hclaim).forget ?_
      (forall_of_eq_none (afterFailure_verified j n))
    rw [hpc]
    exact afterFailure_job j n
  | found j hpc hobj =>
    have hclaim : s.offload.pc.claim = some ⟨j.id, .Offloading, none⟩ := hpc ▸ rfl
    refine h.reclaim hclaim rfl (h.offload.claim _ hclaim).forget (hpc ▸ rfl) fun j' heq => ?_
    cases heq
    exact hobj
  | missing j hpc =>
    have hclaim : s.offload.pc.claim = some ⟨j.id, .Offloading, none⟩ := hpc ▸ rfl
    exact h.reclaim hclaim rfl (h.offload.claim _ hclaim).forget (hpc ▸ rfl) nofun
  | recordGet j hpc => exact h.recordGet hpc
  | recordUpsert j m hpc => exact h.recordUpsert hpc
  | recordError j seen hpc =>
    have hclaim : s.offload.pc.claim = some ⟨j.id, .Offloading, seen⟩ := hpc ▸ rfl
    exact h.reclaim hclaim rfl (h.offload.claim _ hclaim).forget (hpc ▸ rfl) nofun
  | rollBackGet j m hpc hget =>
    have hclaim : s.offload.pc.claim = some ⟨j.id, rollBack.expected, none⟩ := hpc ▸ rfl
    exact h.reclaim hclaim rfl (claim_casGet hget) (hpc ▸ rfl) nofun
  | rollBackUpsert j m hpc => exact h.rollBackUpsert hpc
  | remove j ha hpc =>
    subst ha
    exact (h.remove hpc hg).letGo

end Offload
end Invariant
end Folio.Offloader
