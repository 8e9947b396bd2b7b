import Folio.OffloadSafety

/-! Entry segment ids over whole histories of a data directory. An id that has been created is
in the name of a file or in a registry row from then on, and every boot looks at both. -/
namespace Folio.Offloader
open KeyedTable DurableLog Fjall Fjall.SegmentRegistry EntrySegment Journal TransitionSystem

section Model

/-- Every registry row written before a crash is there after it. -/
def rowsSurvive (s : State) : Act → Prop
  | .crash kept => kept = s.registry.writes.length
  | _ => True

instance (s : State) : (a : Act) → Decidable (rowsSurvive s a)
  | .crash _ => Nat.decEq _ _
  | .offload _ | .flush _ | .persist => instDecidableTrue

/-- The sums `id + 1` of the directory scan, of the registry and of the flush loop fit a `u64`. -/
structure NoOverflow (s : State) : Prop where
  files : ∀ id, (s.files.get id).isSome → id + 1 < 2 ^ 64
  rows : ∀ id, (s.rows.get id).isSome → id + 1 < 2 ^ 64
  flush : ∀ next, s.flush.bound = some next → next < 2 ^ 64

end Model

section Invariant

def OffloadPc.seen : OffloadPc → Option SegmentMeta
  | .marking _ m | .recording _ m | .rollingBack _ m => m
  | _ => none

def FlushPc.seen : FlushPc → Option SegmentMeta
  | .resetting _ _ m | .sealing _ m => m
  | _ => none

def OwnPath (m : SegmentMeta) : Prop := ∀ file, m.localPath = some (.entrySeg file) → file = m.id

structure Known (rows : SegmentRegistry) (m : SegmentMeta) : Prop where
  row : (rows.get m.id).isSome
  path : OwnPath m

structure IdsUsed (rows : SegmentRegistry) (files written : Table SegmentId Records) (n : Nat) :
    Prop where
  row : ∀ id m, rows.get id = some m → m.id = id ∧ OwnPath m ∧ id < n
  file : ∀ id, (files.get id).isSome → id < n
  kept : ∀ id < n, (files.get id).isSome ∨ (rows.get id).isSome
  written : ∀ id, (written.get id).isSome ↔ id < n

structure OffloadKnown (rows : SegmentRegistry) (o : Offload) : Prop where
  pending : ∀ m ∈ o.pending, Known rows m
  job : ∀ j, o.pc.job = some j → j.file = j.id ∧ (rows.get j.id).isSome
  seen : ∀ m, o.pc.seen = some m → Known rows m

structure FlushKnown (rows : SegmentRegistry) (n : Nat) (pc : FlushPc) : Prop where
  seen : ∀ m, pc.seen = some m → Known rows m
  bound : ∀ next, pc.bound = some next → next = n
  unregistered : ∀ id, pc.unregistered = some id → rows.get id = none

structure IdInv (s : State) (n : Nat) : Prop where
  used : IdsUsed s.rows s.files s.written n
  offload : OffloadKnown s.rows s.offload
  flush : FlushKnown s.rows n s.flush

variable {s t : State} {n : Nat} {id : SegmentId} {m : SegmentMeta} {op : CasOp}

theorem Known.write {rows : SegmentRegistry} (h : Known rows m) (op : CasOp) :
    Known rows (op.write m) := by
  cases op with
  | status st new => exact ⟨h.row, h.path⟩
  | toS3 st key => exact ⟨h.row, nofun⟩

theorem IdInv.known (h : IdInv s n) (hget : s.rows.get id = some m) : Known s.rows m := by
  obtain ⟨hid, hpath, -⟩ := h.used.row id m hget
  exact ⟨by rw [hid, hget]; rfl, hpath⟩

theorem IdInv.casGet (h : IdInv s n) (hget : casGet s.rows id op = some m) : Known s.rows m :=
  h.known (Option.filter_eq_some_iff.mp hget).1

theorem IdInv.upsert (h : IdInv s n) (hpath : OwnPath m) (hlt : m.id < n)
    (hne : s.flush.unregistered ≠ some m.id) : IdInv (s.upsert m) n := by
  have hrows : (s.upsert m).rows = s.rows.put m.id m := rows_upsert
  have hdom : ∀ {id}, (s.rows.get id).isSome → ((s.upsert m).rows.get id).isSome := fun hid => by
    rw [hrows]
    exact Table.isSome_put _ hid
  have hknown : ∀ {m'}, Known s.rows m' → Known (s.upsert m).rows m' := fun hm' =>
    ⟨hdom hm'.row, hm'.path⟩
  refine ⟨⟨fun id m' hget => ?_, h.used.file, fun id hid => (h.used.kept id hid).imp_right hdom,
    h.used.written⟩, ⟨fun m' hm' => hknown (h.offload.pending m' hm'),
    fun j hj => (h.offload.job j hj).imp_right hdom, fun m' hm' => hknown (h.offload.seen m' hm')⟩,
    ⟨fun m' hm' => hknown (h.flush.seen m' hm'), h.flush.bound, fun id hid => ?_⟩⟩
  · rw [hrows, Table.get_put] at hget
    split_ifs at hget with heq
    · cases hget
      exact ⟨heq.symm, hpath, heq ▸ hlt⟩
    · exact h.used.row id m' hget
  · have hid' : id ≠ m.id := fun heq => hne (by rw [← heq]; exact hid)
    rw [hrows, Table.get_put_ne _ _ hid']
    exact h.flush.unregistered id hid

theorem IdInv.upsertKnown (h : IdInv s n) (hm : Known s.rows m) : IdInv (s.upsert m) n := by
  obtain ⟨m', hget⟩ := Option.isSome_iff_exists.mp hm.row
  refine h.upsert hm.path (h.used.row _ _ hget).2.2 fun hun => ?_
  rw [h.flush.unregistered _ hun] at hget
  cases hget

theorem IdInv.setOffload {pc : OffloadPc} (h : IdInv s n)
    (hjob : ∀ j, pc.job = some j → j.file = j.id ∧ (s.rows.get j.id).isSome)
    (hseen : ∀ m, pc.seen = some m → Known s.rows m) : IdInv (s.setOffload pc) n :=
  ⟨h.used, ⟨h.offload.pending, hjob, hseen⟩, h.flush⟩

theorem IdInv.setFlush {pc : FlushPc} (h : IdInv s n) (hpc : FlushKnown s.rows n pc) :
    IdInv (s.setFlush pc) n :=
  ⟨h.used, h.offload, hpc⟩

section Offload
variable {j : Job} {pc : OffloadPc}

theorem IdInv.list (h : IdInv s n) {order : List SegmentMeta}
    (hperm : order.Perm (listByStatus s.rows .Local)) :
    IdInv { s with offload := ⟨order, .between⟩ } n := by
  refine ⟨h.used, ⟨fun m hm => ?_, nofun, nofun⟩, h.flush⟩
  obtain ⟨hmem, -⟩ := List.mem_filter.mp (hperm.mem_iff.mp hm)
  obtain ⟨id, hget⟩ := (s.rows.mem_values_iff m).mp hmem
  exact h.known hget

theorem IdInv.take (h : IdInv s n) (hst : takeNext s = some t) : IdInv t n := by
  unfold takeNext at hst
  split at hst
  case h_2 => cases hst
  case h_1 m rest hpending =>
    split at hst
    case h_2 => cases hst
    case h_1 file hpath =>
      cases hst
      have hmem : ∀ m' ∈ m :: rest, Known s.rows m' := fun m' hm' =>
        h.offload.pending m' (hpending ▸ hm')
      have hm := hmem m List.mem_cons_self
      refine ⟨h.used, ⟨fun m' hm' => hmem m' (List.mem_cons_of_mem _ hm'), fun j hj => ?_,
        nofun⟩, h.flush⟩
      cases hj
      exact ⟨hm.path file hpath, hm.row⟩

theorem IdInv.keepJob (h : IdInv s n) (hold : s.offload.pc.job = some j) (hnew : pc.job = some j)
    (hseen : ∀ m, pc.seen = some m → Known s.rows m) : IdInv (s.setOffload pc) n := by
  refine h.setOffload (fun j' hj' => ?_) hseen
  rw [hnew, ← hold] at hj'
  exact h.offload.job j' hj'

theorem IdInv.readRow (h : IdInv s n)
    (hold : s.offload.pc.job = some j) (hnew : pc.job = some j) (hseen : pc.seen = some m)
    (hget : Offloader.casGet s.rows j.id op = some m) : IdInv (s.setOffload pc) n := by
  refine h.keepJob hold hnew fun m' hm' => ?_
  rw [hseen] at hm'
  cases hm'
  exact h.casGet hget

theorem IdInv.putObject (h : IdInv s n) (hold : s.offload.pc.job = some j) (hnew : pc.job = some j)
    (hseen : pc.seen = none) (hst : putObject s j pc = some t) : IdInv t n := by
  obtain ⟨data, -, rfl⟩ := Option.map_eq_some_iff.mp hst
  have hsame := h.keepJob hold hnew (forall_of_eq_none hseen)
  exact ⟨hsame.used, hsame.offload, hsame.flush⟩

theorem IdInv.remove (h : IdInv s n) (hpc : s.offload.pc = .removing j) :
    IdInv { s with files := s.files.del j.file } n := by
  obtain ⟨hfile, hrow⟩ := h.offload.job j (hpc ▸ rfl)
  refine ⟨⟨h.used.row, fun id hid => ?_, fun id hid => ?_, h.used.written⟩, h.offload, h.flush⟩
  · dsimp only at hid
    rw [Table.get_del] at hid
    split_ifs at hid
    · cases hid
    · exact h.used.file id hid
  · dsimp only
    by_cases heq : id = j.file
    · rw [heq, hfile]
      exact .inr hrow
    · rw [Table.get_del_ne _ heq]
      exact h.used.kept id hid

theorem afterFailure_seen (j : Job) (k : Nat) : (afterFailure j k).seen = none := by
  unfold afterFailure
  split_ifs <;> rfl

theorem idInv_offload {a : OffloadAct} (h : IdInv s n) (hst : stepOffload s a = some t) :
    IdInv t n := by
  have hwrite : ∀ {m}, s.offload.pc.seen = some m → ∀ op : CasOp, IdInv (s.upsert (op.write m)) n :=
    fun hm op => h.upsertKnown ((h.offload.seen _ hm).write op)
  cases stepOffload_trans hst with
  | list order hperm => exact h.list hperm
  | skip =>
    refine ⟨h.used, ⟨fun m hm => ?_, nofun, nofun⟩, h.flush⟩
    exact h.offload.pending m (List.mem_of_mem_tail hm)
  | take _ hst => exact h.take hst
  | letGo => exact h.setOffload nofun nofun
  | markGet j m hpc hget => exact h.readRow (hpc ▸ rfl) rfl rfl hget
  | markUpsert j m hpc =>
    have hjob : s.offload.pc.job = some j := hpc ▸ rfl
    exact (hwrite (hpc ▸ rfl) mark).keepJob hjob rfl nofun
  | uploaded j k _ hpc hst => exact h.putObject (hpc ▸ rfl) rfl rfl hst
  | failedAfterPut j k _ hpc hst =>
    exact h.putObject (hpc ▸ rfl) (afterFailure_job j k) (afterFailure_seen j k) hst
  | failed j k hpc =>
    exact h.keepJob (hpc ▸ rfl) (afterFailure_job j k) (forall_of_eq_none (afterFailure_seen j k))
  | found j hpc => exact h.keepJob (hpc ▸ rfl) rfl nofun
  | missing j hpc => exact h.keepJob (hpc ▸ rfl) rfl nofun
  | recordGet j hpc =>
    cases hget : Offloader.casGet s.rows j.id (record j.id) with
    | none => exact h.keepJob (hpc ▸ rfl) rfl nofun
    | some m => exact h.readRow (hpc ▸ rfl) rfl rfl hget
  | recordUpsert j m hpc =>
    have hjob : s.offload.pc.job = some j := hpc ▸ rfl
    exact (hwrite (hpc ▸ rfl) (record j.id)).keepJob hjob rfl nofun
  | recordError j seen hpc => exact h.keepJob (hpc ▸ rfl) rfl nofun
  | rollBackGet j m hpc hget => exact h.readRow (hpc ▸ rfl) rfl rfl hget
  | rollBackUpsert j m hpc =>
    exact (hwrite (hpc ▸ rfl) rollBack).setOffload nofun nofun
  | remove j _ hpc => exact (h.remove hpc).setOffload nofun nofun

end Offload

section Flush
variable {pc : FlushPc}

theorem IdInv.idle (h : IdInv s n) (hseen : ∀ m, pc.seen = some m → Known s.rows m)
    (hbound : pc.bound = none) (hun : pc.unregistered = none) : IdInv (s.setFlush pc) n :=
  h.setFlush ⟨hseen, forall_of_eq_none hbound, forall_of_eq_none hun⟩

theorem IdInv.onward {next : Nat} (h : IdInv s n) (hold : s.flush.bound = some next)
    (hnew : pc.bound = some next) (hseen : ∀ m, pc.seen = some m → Known s.rows m)
    (hun : pc.unregistered = none) : IdInv (s.setFlush pc) n := by
  refine h.setFlush ⟨hseen, fun next' hnext => ?_, forall_of_eq_none hun⟩
  rw [hnew, ← hold] at hnext
  exact h.flush.bound next' hnext

theorem IdInv.afterResets (h : IdInv s n) (st : SegmentStatus) :
    IdInv (s.setFlush (afterResets st)) n := by
  cases st <;> exact h.idle nofun rfl rfl

theorem nextEntrySegId_used (h : IdsUsed s.rows s.files s.written n) :
    nextEntrySegId s.files s.rows = n := by
  refine le_antisymm (max_le (not_lt.mp fun hlt => ?_) ?_) (not_lt.mp fun hlt => ?_)
  · unfold scanNextEntrySegId at hlt
    rw [foldl_max_succ] at hlt
    rcases hlt with hlt | ⟨id, hid, hle⟩
    · exact absurd hlt (Nat.not_lt_zero n)
    · rw [Table.mem_keys_iff, ← Option.isSome_iff_exists] at hid
      exact absurd (h.file id hid) (not_lt.mpr hle)
  · unfold SegmentRegistry.maxId
    cases hmax : s.rows.keys.max? with
    | none => exact Nat.zero_le n
    | some top =>
      obtain ⟨m, hget⟩ := (s.rows.mem_keys_iff top).mp (List.max?_eq_some_iff.mp hmax).1
      exact (h.row top m hget).2.2
  · rcases h.kept _ hlt with hfile | hrow
    · obtain ⟨data, hdata⟩ := Option.isSome_iff_exists.mp hfile
      exact lt_irrefl _ (nextEntrySegId_fresh s.files s.rows hdata)
    · obtain ⟨m, hget⟩ := Option.isSome_iff_exists.mp hrow
      exact lt_irrefl _ (nextEntrySegId_registered s.files s.rows hget)

theorem IdInv.create (h : IdInv s n) (hpc : s.flush = .opening id) :
    IdInv ({ s with files := s.files.put id [], written := s.written.put id [] }.setFlush
      (.created id)) (n + 1) := by
  obtain rfl : id = n := h.flush.bound id (hpc ▸ rfl)
  have hlt : ∀ id', id' < id ∨ id' = id ↔ id' < id + 1 := fun _ => Nat.lt_succ_iff_lt_or_eq.symm
  refine ⟨⟨fun id' m hget => ?_, fun id' hid => ?_, fun id' hid => ?_, fun id' => ?_⟩, h.offload,
    nofun, ?_, ?_⟩
  · obtain ⟨hid, hpath, hle⟩ := h.used.row id' m hget
    exact ⟨hid, hpath, Nat.lt_succ_of_lt hle⟩
  · dsimp only [State.setFlush] at hid
    rw [Table.get_put] at hid
    rw [← hlt]
    split_ifs at hid with heq
    · exact .inr heq
    · exact .inl (h.used.file id' hid)
  · dsimp only [State.setFlush]
    rw [Table.get_put]
    rcases (hlt id').mpr hid with hid | rfl
    · rw [if_neg hid.ne]
      exact h.used.kept id' hid
    · simp
  · dsimp only [State.setFlush]
    rw [Table.get_put, ← hlt]
    by_cases heq : id' = id
    · simp [heq]
    · simp [heq, h.used.written]
  · rintro next ⟨⟩
    rfl
  · rintro id' ⟨⟩
    cases hget : s.rows.get id with
    | none => exact hget
    | some m => exact absurd (h.used.row id m hget).2.2 (lt_irrefl id)

theorem IdInv.appendFile {rs : Records} (h : IdInv s n) (hbound : pc.bound = none ∨
    pc.bound = s.flush.bound) (hseen : pc.seen = none) (hun : pc.unregistered = none)
    (hst : appendFile s id rs pc = some t) : IdInv t n := by
  obtain ⟨data, hdata, rfl⟩ := Option.map_eq_some_iff.mp hst
  have hfiles : ∀ id', ((s.files.put id (data ++ rs)).get id').isSome ↔ (s.files.get id').isSome :=
    fun id' => by
      rw [Table.get_put]
      split_ifs with heq
      · simp [heq, hdata]
      · rfl
  refine ⟨⟨h.used.row, fun id' hid => h.used.file id' ((hfiles id').mp hid), fun id' hid => ?_,
    h.used.written⟩, h.offload, forall_of_eq_none hseen, fun next hnext => ?_,
    forall_of_eq_none hun⟩
  · exact (h.used.kept id' hid).imp_left (hfiles id').mpr
  · rcases hbound with hnone | hsame
    · cases hnone.symm.trans hnext
    · exact h.flush.bound next (hsame ▸ hnext)

theorem IdInv.wrote {rs : Records} (h : IdInv s n) (hlt : id < n) : IdInv (wrote s id rs) n := by
  refine ⟨⟨h.used.row, h.used.file, h.used.kept, fun id' => ?_⟩, h.offload, h.flush⟩
  dsimp only [Offloader.wrote]
  rw [Table.get_put]
  split_ifs with heq
  · simp [heq, hlt]
  · exact h.used.written id'

theorem entryMeta_ownPath (id : SegmentId) (st : SegmentStatus) (byteLen : Nat) :
    OwnPath (entryMeta id st byteLen) := by
  rintro file ⟨⟩
  rfl

theorem IdInv.ownRow {st : SegmentStatus} {byteLen : Nat} (h : IdInv s n)
    (hold : s.flush.bound = some (id + 1)) (hnew : pc.bound = some (id + 1))
    (hseen : pc.seen = none) (hun : pc.unregistered = none) :
    IdInv ((s.upsert (entryMeta id st byteLen)).setFlush pc) n := by
  have hlt : id < n := h.flush.bound _ hold ▸ Nat.lt_succ_self id
  have hnext : IdInv (s.setFlush pc) n := h.onward hold hnew (forall_of_eq_none hseen) hun
  refine hnext.upsert (entryMeta_ownPath id st byteLen) hlt fun hid => ?_
  cases hun.symm.trans hid

theorem idInv_flush {a : FlushAct} (h : IdInv s n) (hst : stepFlush s a = some t) :
    ∃ n', IdInv t n' := by
  have hwrite : ∀ {m}, s.flush.seen = some m → ∀ op : CasOp, IdInv (s.upsert (op.write m)) n :=
    fun hm op => h.upsertKnown ((h.flush.seen _ hm).write op)
  cases stepFlush_trans hst with
  | create id hpc => exact ⟨n + 1, h.create hpc⟩
  | recoverRow byteLen id rest hpc hfile =>
    have hrow := h.upsert (entryMeta_ownPath id .Local byteLen) (h.used.file id hfile)
      (by rw [hpc]; nofun)
    exact ⟨n, hrow.idle nofun rfl rfl⟩
  | skipFile | startResets | nextOrphan | stop => exact ⟨n, h.idle nofun rfl rfl⟩
  | resetGet st o seen rest hpc hget =>
    refine ⟨n, h.idle (fun m hm => ?_) rfl rfl⟩
    cases hm
    exact h.casGet hget
  | resetUpsert st o seen rest hpc =>
    exact ⟨n, (hwrite (hpc ▸ rfl) (reset st)).idle nofun rfl rfl⟩
  | afterResets _ st => exact ⟨n, h.afterResets st⟩
  | nextId =>
    refine ⟨n, h.setFlush ⟨nofun, fun next hnext => ?_, nofun⟩⟩
    cases hnext
    exact nextEntrySegId_used h.used
  | register id hpc => exact ⟨n, h.ownRow (hpc ▸ rfl) rfl rfl rfl⟩
  | batch rs id flushed _ hpc hst =>
    have hbound : s.flush.bound = some (id + 1) := hpc ▸ rfl
    have hlt : id < n := h.flush.bound _ hbound ▸ Nat.lt_succ_self id
    have hsame : FlushPc.bound (.synced id) = (wrote s id rs).flush.bound := hbound.symm
    exact ⟨n, (h.wrote hlt).appendFile (.inr hsame) rfl rfl hst⟩
  | batchFails part id flushed _ hpc hst => exact ⟨n, h.appendFile (.inl rfl) rfl rfl hst⟩
  | update byteLen id hpc => exact ⟨n, h.ownRow (hpc ▸ rfl) rfl rfl rfl⟩
  | startSeal id hpc =>
    have hbound : s.flush.bound = some (id + 1) := hpc ▸ rfl
    exact ⟨n, h.onward hbound rfl nofun rfl⟩
  | sealGet id hpc =>
    have hbound : s.flush.bound = some (id + 1) := hpc ▸ rfl
    refine ⟨n, ?_⟩
    cases hget : Offloader.casGet s.rows id sealOp with
    | none => exact h.onward hbound rfl nofun rfl
    | some seen =>
      refine h.onward hbound rfl (fun m hm => ?_) rfl
      cases hm
      exact h.casGet hget
  | sealUpsert id seen hpc =>
    have hbound : s.flush.bound = some (id + 1) := hpc ▸ rfl
    exact ⟨n, (hwrite (hpc ▸ rfl) sealOp).onward hbound rfl nofun rfl⟩

end Flush

theorem idInv_step {a : Act} (h : IdInv s n) (hg : rowsSurvive s a) (hst : step s a = some t) :
    ∃ n', IdInv t n' := by
  cases a with
  | offload a => exact ⟨n, idInv_offload h (Option.ite_none_left_eq_some.mp hst).2⟩
  | flush a => exact idInv_flush h hst
  | persist =>
    cases hst
    exact ⟨n, h.used, h.offload, h.flush⟩
  | crash kept =>
    obtain ⟨registry, hcrash, rfl⟩ := Option.map_eq_some_iff.mp hst
    obtain ⟨-, -, -, -, hcontents, -⟩ := Log.crash_eq_some hcrash
    have hrows : registry.contents = s.rows := by
      rw [hcontents, show kept = _ from hg, Log.upTo_length]
      rfl
    refine ⟨n, ?_, ⟨nofun, nofun, nofun⟩, nofun, nofun, nofun⟩
    unfold State.rows
    rw [hrows]
    exact h.used

theorem reach_idInv (h : Reach (guarded rowsSurvive step) Init s) : ∃ n, IdInv s n := by
  refine Reach.invariant (P := fun s => ∃ n, IdInv s n) (fun s hs => ?_) (fun s a t hs hst => ?_) h
  · obtain rfl : s = fresh := hs
    refine ⟨0, ⟨fun id => nofun, nofun, nofun, fun id => ?_⟩, ⟨nofun, nofun,
      nofun⟩, nofun, nofun, nofun⟩
    simp [fresh, Table.get_empty]
  · obtain ⟨n, hn⟩ := hs
    obtain ⟨hg, hst⟩ := (guarded_eq_some rowsSurvive).mp hst
    exact idInv_step hn hg hst

end Invariant

section Freshness
variable {s : State} {n : Nat}

theorem IdsUsed.length_written (h : IdsUsed s.rows s.files s.written n) :
    s.written.keys.length = n := by
  have hperm : s.written.keys.Perm (List.range n) := by
    refine (List.perm_ext_iff_of_nodup s.written.nodup List.nodup_range).mpr fun id => ?_
    have hmem : id ∈ s.written.keys ↔ id < n := by
      rw [Table.mem_keys_iff, ← Option.isSome_iff_exists, h.written]
    exact hmem.trans List.mem_range.symm
  rw [hperm.length_eq, List.length_range]

/-- The id of every `create` is one that no file, no row and no earlier `create` has, and
`open_active_segment` registers it where no row is. -/
theorem created_ids_new (h : Reach (guarded rowsSurvive step) Init s)
    (hids : s.written.keys.length < 2 ^ 64 - 1) :
    (∀ id, s.flush = .opening id →
      s.written.get id = none ∧ s.rows.get id = none ∧ s.files.get id = none) ∧
    (∀ id, s.flush = .created id → s.rows.get id = none) ∧ NoOverflow s := by
  obtain ⟨n, hinv⟩ := reach_idInv h
  rw [hinv.used.length_written] at hids
  have hn : n < 2 ^ 64 := by omega
  have hrow : ∀ id, (s.rows.get id).isSome → id < n := fun id hid => by
    obtain ⟨m, hget⟩ := Option.isSome_iff_exists.mp hid
    exact (hinv.used.row id m hget).2.2
  refine ⟨fun id hpc => ?_, fun id hpc => hinv.flush.unregistered id (hpc ▸ rfl),
    fun id hid => ?_, fun id hid => ?_, fun next hnext => ?_⟩
  · obtain rfl : id = n := hinv.flush.bound id (hpc ▸ rfl)
    refine ⟨?_, ?_, ?_⟩ <;> by_contra hsome <;>
      rw [← ne_eq, ← Option.isSome_iff_ne_none] at hsome
    · exact lt_irrefl id ((hinv.used.written id).mp hsome)
    · exact lt_irrefl id (hrow id hsome)
    · exact lt_irrefl id (hinv.used.file id hsome)
  · exact (Nat.succ_le_of_lt (hinv.used.file id hid)).trans_lt hn
  · exact (Nat.succ_le_of_lt (hrow id hid)).trans_lt hn
  · rw [hinv.flush.bound next hnext]
    exact hn

/-- Segment 0 is sealed, uploaded and removed, and the node restarts before the next file is
created: only the registry still knows the id. -/
def offloadedIdRun : List Act :=
  firstSealed ++ takeFirst ++
  [.offload (.upload .ok), .offload (.head true), .offload .get, .offload .upsert,
   .offload (.remove true), .crash 5] ++ emptyStart

theorem offloaded_id_not_reused :
    ∃ s, Reach (guarded rowsSurvive step) Init s ∧ s.files.get 0 = none ∧
      s.flush = .opening 1 ∧ s.written.get 1 = none ∧ s.rows.get 1 = none ∧
      s.files.get 1 = none := by
  have hstart : Init fresh := rfl
  obtain ⟨s, hreach, hfile, hpc, hids⟩ := reach_check (guarded rowsSurvive step) hstart
    (fun s => s.files.get 0 = none ∧ s.flush = .opening 1 ∧
      s.written.keys.length < 2 ^ 64 - 1) offloadedIdRun (by decide +kernel)
  exact ⟨s, hreach, hfile, hpc, (created_ids_new hreach hids).1 1 hpc⟩

end Freshness
end Folio.Offloader
