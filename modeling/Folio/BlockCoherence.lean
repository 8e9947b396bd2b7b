import Folio.BlockReads

/-! Cached blocks are cut out of files that are not written any more. A segment is settled once it
has a row and the flush loop is not in it; a settled segment stays so and keeps its content. -/
namespace Folio.BlockCoherence
open KeyedTable ByteCodec Protocol Fjall Fjall.SegmentRegistry EntrySegment TransitionSystem
open BlockReads
open TieredReader (blockSize blockStart)
open Offloader (Offload OffloadPc casGet mark rollBack record reset sealOp)
variable {crc32 : Bytes → UInt32} {sealThreshold : Nat} {op : CasOp} {block : Bytes} {g : Target}

section Invariant

def Settled (s : State) (id : SegmentId) : Prop :=
  (s.rows.get id).isSome ∧ growing s.node.pc ≠ some id

def Shows (s : State) (id : SegmentId) (start : Nat) (block : Bytes) : Prop :=
  ∃ data, s.contents id = some data ∧ block = window data start blockSize

structure TargetOk (s : State) (g : Target) (first : Option Bytes) : Prop where
  path : g.path = .entrySeg g.iv.segmentId
  settled : Settled s g.iv.segmentId
  first : ∀ block, first = some block →
    Shows s g.iv.segmentId (blockStart g.iv.offset) block ∧
      blockStart g.iv.offset + blockSize < g.iv.offset + g.iv.length

def ReadOk (crc32 : Bytes → UInt32) (s : State) : ReadPc → Prop
  | .lookup g first | .reading g first => g.cacheable = true → TargetOk s g first
  | .inserting g first block =>
    TargetOk s g first ∧ Shows s g.iv.segmentId (blockAt g first) block
  | .returned g result => g.cacheable = true → Settled s g.iv.segmentId ∧
    ∃ data, s.contents g.iv.segmentId = some data ∧ result = fromFile crc32 data g.iv
  | _ => True

structure Base (s : State) : Prop where
  rows : ∀ id m, s.rows.get id = some m → RowOwn id m
  growing : ∀ id m, growing s.node.pc = some id → s.rows.get id = some m → m.status = .Active
  newest : ∀ w, FlushLoop.writerOf s.node.pc = some w →
    ∀ id, (s.rows.get id).isSome ∨ (s.files.get id).isSome → id ≤ w.id
  starting : s.start ≠ .done → s.node.pc = .starting
  sealing : ∀ m, s.sealing = some m →
    ∃ w, s.node.pc = .recorded w ∧ RowOwn w.id m ∧ (s.rows.get w.id).isSome
  contents : ∀ id data, s.files.get id = some data → s.contents id = some data

structure Inv (crc32 : Bytes → UInt32) (s : State) : Prop where
  base : Base s
  seen : ∀ m, s.offload.pc.seen = some m ∨ s.start.seen = some m → RowOwn m.id m ∧ Settled s m.id
  blocks : ∀ id start block, s.blocks.get (id, start) = some block →
    Settled s id ∧ Shows s id start block
  reads : ∀ i pc, s.reads.get i = some pc → ReadOk crc32 s pc

def Later (s t : State) : Prop :=
  ∀ id, Settled s id → Settled t id ∧ t.contents id = s.contents id

variable {s t : State} {id : SegmentId} {m : SegmentMeta}

theorem Shows.later {start : Nat} (h : Shows s id start block) (hl : Later s t)
    (hs : Settled s id) : Shows t id start block := by
  unfold Shows
  rw [(hl id hs).2]
  exact h

theorem TargetOk.later {first : Option Bytes} (h : TargetOk s g first)
    (hl : Later s t) : TargetOk t g first :=
  ⟨h.path, (hl _ h.settled).1, fun block hb => (h.first block hb).imp_left (·.later hl h.settled)⟩

theorem ReadOk.later {pc : ReadPc} (h : ReadOk crc32 s pc) (hl : Later s t) :
    ReadOk crc32 t pc := by
  cases pc with
  | lookup g first => exact fun hc => (h hc).later hl
  | reading g first => exact fun hc => (h hc).later hl
  | inserting g first block => exact ⟨h.1.later hl, h.2.later hl h.1.settled⟩
  | returned g result =>
    intro hc
    obtain ⟨hs, hdata⟩ := h hc
    rw [(hl _ hs).2]
    exact ⟨(hl _ hs).1, hdata⟩
  | started k => trivial
  | located iv => trivial
  | failed e => trivial
  | elsewhere => trivial

theorem Inv.next (h : Inv crc32 s) (hl : Later s t) (hbase : Base t) (hblocks : t.blocks = s.blocks)
    (hreads : t.reads = s.reads)
    (hseen : ∀ m, t.offload.pc.seen = some m ∨ t.start.seen = some m →
      (s.offload.pc.seen = some m ∨ s.start.seen = some m) ∨ RowOwn m.id m ∧ Settled s m.id) :
    Inv crc32 t := by
  refine ⟨hbase, fun m hm => ?_, fun id start block hget => ?_, fun i pc hget => ?_⟩
  · rcases hseen m hm with hold | hnew
    · exact (h.seen m hold).imp_right fun hs => (hl _ hs).1
    · exact hnew.imp_right fun hs => (hl _ hs).1
  · rw [hblocks] at hget
    obtain ⟨hs, hshow⟩ := h.blocks id start block hget
    exact ⟨(hl _ hs).1, hshow.later hl hs⟩
  · rw [hreads] at hget
    exact (h.reads i pc hget).later hl

theorem later_same (hrows : t.rows = s.rows) (hpc : t.node.pc = s.node.pc)
    (hcontents : t.contents = s.contents) : Later s t := by
  intro id hs
  unfold Settled
  rw [hrows, hpc, hcontents]
  exact ⟨hs, rfl⟩

theorem Base.same (h : Base s) (hrows : t.rows = s.rows)
    (hfiles : ∀ id, (t.files.get id).isSome → (s.files.get id).isSome)
    (hpc : t.node.pc = s.node.pc) (hstart : t.start = s.start) (hsealing : t.sealing = s.sealing)
    (hcontents : ∀ id data, t.files.get id = some data → t.contents id = some data) : Base t := by
  refine ⟨?_, ?_, fun w hw id hused => ?_, ?_, ?_, hcontents⟩
  · rw [hrows]
    exact h.rows
  · rw [hrows, hpc]
    exact h.growing
  · rw [hrows] at hused
    rw [hpc] at hw
    exact h.newest w hw id (hused.imp_right (hfiles id))
  · rw [hstart, hpc]
    exact h.starting
  · rw [hsealing, hpc, hrows]
    exact h.sealing

section Rows

theorem rows_upsert : (s.upsert m).rows = s.rows.put m.id m := rfl

theorem write_own (h : RowOwn id m) : RowOwn id (op.write m) := by
  cases op with
  | status st new => exact h
  | toS3 st key => exact ⟨h.1, nofun⟩

theorem Base.casGet (h : Base s) (hget : casGet s.rows id op = some m) :
    s.rows.get id = some m ∧ m.status = op.expected ∧ RowOwn m.id m := by
  obtain ⟨hrow, hst⟩ := Option.filter_eq_some_iff.mp hget
  have hown := h.rows id m hrow
  refine ⟨hrow, of_decide_eq_true hst, ?_⟩
  rw [hown.1]
  exact hown

theorem Base.settled (h : Base s) (hget : s.rows.get id = some m) (hst : m.status ≠ .Active) :
    Settled s id := by
  refine ⟨by rw [hget]; rfl, fun hg => hst (h.growing id m hg hget)⟩

theorem Base.settled_starting (h : Base s) (hstart : s.start ≠ .done)
    (hget : s.rows.get id = some m) : Settled s id := by
  refine ⟨by rw [hget]; rfl, ?_⟩
  rw [h.starting hstart]
  nofun

theorem later_upsert (m : SegmentMeta) : Later s (s.upsert m) := fun id hs =>
  ⟨⟨by rw [rows_upsert]; exact Table.isSome_put _ hs.1, hs.2⟩, rfl⟩

theorem Base.upsert (h : Base s) (hown : RowOwn m.id m) (hs : Settled s m.id) :
    Base (s.upsert m) := by
  refine ⟨fun id m' hget => ?_, fun id m' hg hget => ?_, fun w hw id hid => ?_, h.starting,
    fun m' hm' => ?_, h.contents⟩
  · rw [rows_upsert, Table.get_put] at hget
    split_ifs at hget with heq
    · cases hget
      rw [heq]
      exact hown
    · exact h.rows id m' hget
  · have hne : id ≠ m.id := fun heq => hs.2 (heq ▸ hg)
    rw [rows_upsert, Table.get_put_ne _ _ hne] at hget
    exact h.growing id m' hg hget
  · refine h.newest w hw id (hid.imp_left fun hrow => ?_)
    rw [rows_upsert, Table.get_put] at hrow
    split_ifs at hrow with heq
    · rw [heq]
      exact hs.1
    · exact hrow
  · obtain ⟨w, hpc, hown', hrow⟩ := h.sealing m' hm'
    exact ⟨w, hpc, hown', by rw [rows_upsert]; exact Table.isSome_put _ hrow⟩

end Rows

section Node
variable {node : FlushLoop.State} {a : FlushLoop.Act}

theorem growing_writer {pc : FlushLoop.Pc} (h : growing pc = some id) :
    ∃ w, FlushLoop.writerOf pc = some w ∧ w.id = id := by
  cases pc <;> cases h <;> exact ⟨_, rfl, rfl⟩

theorem newest_growing (h : Base s) (hg : growing s.node.pc = some id) (w : FlushLoop.Writer)
    (hw : FlushLoop.writerOf s.node.pc = some w) (id' : SegmentId)
    (hused : id' ≠ id → (s.rows.get id').isSome ∨ (s.files.get id').isSome) : id' ≤ w.id := by
  obtain ⟨w', hw', hid⟩ := growing_writer hg
  cases hw'.symm.trans hw
  by_cases heq : id' = id
  · rw [heq, hid]
  · exact h.newest w hw id' (hused heq)

theorem contents_setNode (h : Base s) (hfile : node.files.get id = s.files.get id) :
    (s.setNode node).contents id = s.contents id := by
  have hor : (s.setNode node).contents id = (node.files.get id).or (s.contents id) := rfl
  rw [hor, hfile]
  cases hget : s.files.get id with
  | none => rfl
  | some data => exact (h.contents id data hget).symm

theorem contents_of_file (id : SegmentId) (data : Bytes)
    (hget : (s.setNode node).files.get id = some data) :
    (s.setNode node).contents id = some data := by
  have hor : (s.setNode node).contents id = (node.files.get id).or (s.contents id) := rfl
  rw [hor, show node.files.get id = some data from hget]
  rfl

theorem fresh_id (h : Base s) (hid : s.node.pc = .starting ∧ id = nextEntrySegId s.files s.rows ∨
    ∃ w, s.node.pc = .evicted w ∧ id = w.id + 1) (id' : SegmentId)
    (hused : (s.rows.get id').isSome ∨ (s.files.get id').isSome) : id' < id := by
  rcases hid with ⟨-, rfl⟩ | ⟨w, hpc, rfl⟩
  · rcases hused with hrow | hfile
    · obtain ⟨m, hget⟩ := Option.isSome_iff_exists.mp hrow
      exact nextEntrySegId_registered s.files s.rows hget
    · obtain ⟨data, hget⟩ := Option.isSome_iff_exists.mp hfile
      exact nextEntrySegId_fresh s.files s.rows hget
  · have hw : FlushLoop.writerOf s.node.pc = some w := by rw [hpc]; rfl
    exact Nat.lt_succ_of_le (h.newest w hw id' hused)

theorem later_flush (h : Base s) (he : FlushEffect s.node node) : Later s (s.setNode node) := by
  intro id hs
  cases he with
  | quiet hfiles hrows hon =>
    refine ⟨⟨?_, fun hg => hs.2 (hon.growing id hg)⟩, contents_setNode h (by rw [hfiles]; rfl)⟩
    exact (congrArg (fun r => (Table.get r id).isSome) hrows).trans hs.1
  | create id' hid ht =>
    have hne : id ≠ id' := (fresh_id h hid id (.inl hs.1)).ne
    subst ht
    refine ⟨⟨hs.1, fun hg => hne (Option.some.inj hg).symm⟩, contents_setNode h ?_⟩
    exact Table.get_put_ne _ _ hne
  | row id' byteLen hg' hfiles hrows hon =>
    refine ⟨⟨?_, fun hg => hs.2 (hon.growing id hg)⟩, contents_setNode h (by rw [hfiles]; rfl)⟩
    unfold State.rows State.setNode
    rw [hrows]
    exact Table.isSome_put _ hs.1
  | write id' data hg' hfiles hrows hon =>
    have hne : id ≠ id' := fun heq => hs.2 (heq ▸ hg')
    refine ⟨⟨?_, fun hg => hs.2 (hon.growing id hg)⟩, contents_setNode h ?_⟩
    · exact (congrArg (fun r => (Table.get r id).isSome) hrows).trans hs.1
    · rw [hfiles]
      exact Table.get_put_ne _ _ hne

theorem base_setNode (hdone : s.start = .done) (hsealing : s.sealing = none)
    (hrows : ∀ id m, node.registry.get id = some m → RowOwn id m)
    (hgrowing : ∀ id m, growing node.pc = some id → node.registry.get id = some m →
      m.status = .Active)
    (hnewest : ∀ w, FlushLoop.writerOf node.pc = some w →
      ∀ id, (node.registry.get id).isSome ∨ (node.files.get id).isSome → id ≤ w.id) :
    Base (s.setNode node) where
  rows := hrows
  growing := hgrowing
  newest := hnewest
  starting := fun hne => absurd hdone hne
  sealing := fun m hm => by cases hsealing.symm.trans hm
  contents := contents_of_file

theorem base_create (h : Base s) (hdone : s.start = .done) (hsealing : s.sealing = none)
    (hfresh : ∀ id', (s.rows.get id').isSome ∨ (s.files.get id').isSome → id' < id) :
    Base (s.setNode (FlushLoop.create s.node id)) := by
  refine base_setNode hdone hsealing h.rows (fun id' m hg hget => ?_) fun w hw id' hused => ?_
  · cases hg
    have hrow : (s.rows.get id).isSome := by rw [show s.rows.get id = some m from hget]; rfl
    exact absurd (hfresh id (.inl hrow)) (lt_irrefl id)
  · cases hw
    rcases hused with hrow | hfile
    · exact (hfresh id' (.inl hrow)).le
    · have hput : ((s.files.put id []).get id').isSome := hfile
      rw [Table.get_put] at hput
      split_ifs at hput with heq
      · exact heq.le
      · exact (hfresh id' (.inr hput)).le

theorem base_row (h : Base s) (hdone : s.start = .done) (hsealing : s.sealing = none)
    {byteLen : Nat} (hg : growing s.node.pc = some id) (hfiles : node.files = s.files)
    (hrows : node.registry = s.rows.put id (entryMeta id .Active byteLen))
    (hon : Onward s.node.pc node.pc) : Base (s.setNode node) := by
  refine base_setNode hdone hsealing (fun id' m hget => ?_) (fun id' m hg' hget => ?_) ?_
  · rw [hrows, Table.get_put] at hget
    split_ifs at hget with heq
    · cases hget
      refine ⟨heq.symm, fun path hpath => ?_⟩
      rw [heq]
      exact (Option.some.inj hpath).symm
    · exact h.rows id' m hget
  · rw [hrows, Table.get_put] at hget
    split_ifs at hget
    · cases hget
      rfl
    · exact h.growing id' m (hon.growing id' hg') hget
  · rw [hrows, hfiles]
    refine hon.newest fun w hw id' hused => newest_growing h hg w hw id' fun hne => ?_
    rw [Table.get_put_ne _ _ hne] at hused
    exact hused

theorem base_write (h : Base s) (hdone : s.start = .done) (hsealing : s.sealing = none)
    (hrows : node.registry = s.rows)
    (hfiles : ∀ id, growing s.node.pc ≠ some id → node.files.get id = s.files.get id)
    (hon : Onward s.node.pc node.pc) : Base (s.setNode node) := by
  refine base_setNode hdone hsealing ?_ (fun id m hg => ?_) ?_
  · rw [hrows]
    exact h.rows
  · rw [hrows]
    exact h.growing id m (hon.growing id hg)
  · rw [hrows]
    refine hon.newest fun w hw id hused => ?_
    by_cases hg : growing s.node.pc = some id
    · exact newest_growing h hg w hw id fun hne => absurd rfl hne
    · rw [hfiles id hg] at hused
      exact h.newest w hw id hused

theorem base_flush (h : Base s) (hdone : s.start = .done) (hsealing : s.sealing = none)
    (he : FlushEffect s.node node) : Base (s.setNode node) := by
  cases he with
  | quiet hfiles hrows hon =>
    exact base_write h hdone hsealing hrows (fun id _ => by rw [hfiles]; rfl) hon
  | create id hid ht =>
    subst ht
    exact base_create h hdone hsealing (fresh_id h hid)
  | row id byteLen hg hfiles hrows hon => exact base_row h hdone hsealing hg hfiles hrows hon
  | write id data hg hfiles hrows hon =>
    refine base_write h hdone hsealing hrows (fun id' hne => ?_) hon
    rw [hfiles]
    exact Table.get_put_ne _ _ fun heq => hne (heq ▸ hg)

theorem step_other (hne : ∀ b, a ≠ .flush b)
    (h : FlushLoop.step crc32 sealThreshold s.node a = some node) :
    node.files = s.files ∧ node.registry = s.rows ∧ node.pc = s.node.pc := by
  cases a with
  | add r =>
    cases h
    exact ⟨rfl, rfl, rfl⟩
  | duplicate r =>
    obtain ⟨-, h⟩ := Option.ite_none_right_eq_some.mp h
    cases h
    exact ⟨rfl, rfl, rfl⟩
  | flush b => exact absurd rfl (hne b)
  | read i k =>
    obtain ⟨-, h⟩ := Option.ite_none_right_eq_some.mp h
    cases h
    exact ⟨rfl, rfl, rfl⟩
  | readCache i =>
    simp only [FlushLoop.step] at h
    split at h <;> cases h
    exact ⟨rfl, rfl, rfl⟩
  | readIndex i =>
    simp only [FlushLoop.step] at h
    split at h <;> cases h
    exact ⟨rfl, rfl, rfl⟩

theorem Inv.nodeStep (h : Inv crc32 s)
    (hst : stepNode crc32 sealThreshold s a = some t) : Later s t ∧ Inv crc32 t := by
  obtain ⟨hallowed, hst⟩ := Option.ite_none_right_eq_some.mp hst
  obtain ⟨node, hnode, rfl⟩ := Option.map_eq_some_iff.mp hst
  by_cases hflush : ∃ b, a = .flush b
  · obtain ⟨b, rfl⟩ := hflush
    simp only [allowed, Bool.and_eq_true, Option.isNone_iff_eq_none] at hallowed
    obtain ⟨⟨hdone, hsealing⟩, hseal⟩ := hallowed
    have hdone' : s.start = .done := by
      cases hstart : s.start <;> simp [hstart] at hdone
      rfl
    have he : FlushEffect s.node node := by
      refine stepFlush_effect (fun w hb hpc => ?_) hnode
      simpa [hb, hpc] using hseal
    have hl := later_flush h.base he
    exact ⟨hl, h.next hl (base_flush h.base hdone' hsealing he) rfl rfl fun m hm => .inl hm⟩
  · obtain ⟨hfiles, hrows, hpc⟩ := step_other (fun b hb => hflush ⟨b, hb⟩) hnode
    have hl : Later s (s.setNode node) := by
      refine fun id hs => ⟨⟨?_, ?_⟩, contents_setNode h.base (by rw [hfiles])⟩
      · exact (congrArg (fun r => (Table.get r id).isSome) hrows).trans hs.1
      · exact fun hg => hs.2 (hpc ▸ hg)
    refine ⟨hl, h.next hl (h.base.same hrows (fun id hf => ?_) hpc rfl rfl contents_of_file) rfl rfl
      fun m hm => .inl hm⟩
    rw [← hfiles]
    exact hf

end Node

section Others
variable {w : EntrySegmentWriter}

theorem Inv.removeFile (h : Inv crc32 s) (id : SegmentId) :
    Later s (removeFile s id) ∧ Inv crc32 (removeFile s id) := by
  have hl : Later s (BlockReads.removeFile s id) := later_same rfl rfl rfl
  have hfile : ∀ id' data, (s.files.del id).get id' = some data → s.files.get id' = some data := by
    intro id' data hget
    rw [Table.get_del] at hget
    split_ifs at hget
    exact hget
  refine ⟨hl, h.next hl (h.base.same rfl (fun id' hsome => ?_) rfl rfl rfl fun id' data hget => ?_)
    rfl rfl fun m hm => .inl hm⟩
  · obtain ⟨data, hget⟩ := Option.isSome_iff_exists.mp hsome
    rw [hfile id' data hget]
    rfl
  · exact h.base.contents id' data (hfile id' data hget)

theorem Inv.readRow (h : Inv crc32 s) (hop : op.expected ≠ .Active)
    (hget : casGet s.rows id op = some m) : RowOwn m.id m ∧ Settled s m.id := by
  obtain ⟨hrow, hst, hown⟩ := h.base.casGet hget
  refine ⟨hown, ?_⟩
  rw [(h.base.rows id m hrow).1]
  exact h.base.settled hrow (by rw [hst]; exact hop)

theorem Inv.setOffload {o : Offload} (h : Inv crc32 s)
    (hseen : ∀ m, o.pc.seen = some m → RowOwn m.id m ∧ Settled s m.id) :
    Later s { s with offload := o } ∧ Inv crc32 { s with offload := o } := by
  have hl : Later s { s with offload := o } := later_same rfl rfl rfl
  refine ⟨hl, h.next hl (h.base.same rfl (fun _ hf => hf) rfl rfl rfl h.base.contents) rfl rfl
    fun m hm => ?_⟩
  rcases hm with hm | hm
  · exact .inr (hseen m hm)
  · exact .inl (.inr hm)

theorem Inv.writeRow (h : Inv crc32 s)
    (hseen : s.offload.pc.seen = some m ∨ s.start.seen = some m) (op : CasOp) :
    Later s (s.upsert (op.write m)) ∧ Inv crc32 (s.upsert (op.write m)) := by
  obtain ⟨hown, hs⟩ := h.seen m hseen
  have hid : (op.write m).id = m.id := CasOp.write_id m op
  have hl := later_upsert (s := s) (op.write m)
  refine ⟨hl, h.next hl (h.base.upsert ?_ ?_) rfl rfl fun _ hm => .inl hm⟩
  · rw [hid]
    exact write_own hown
  · rw [hid]
    exact hs

theorem Later.trans {u : State} (h : Later s t) (h' : Later t u) : Later s u := by
  intro id hs
  obtain ⟨ht, hcontents⟩ := h id hs
  obtain ⟨hu, hcontents'⟩ := h' id ht
  exact ⟨hu, hcontents'.trans hcontents⟩

theorem Inv.writeThenSet {pc : OffloadPc} (h : Inv crc32 s)
    (hseen : s.offload.pc.seen = some m) (hpc : pc.seen = none) :
    Later s ((s.upsert (op.write m)).setOffload pc) ∧
      Inv crc32 ((s.upsert (op.write m)).setOffload pc) := by
  obtain ⟨hl, hinv⟩ := h.writeRow (.inl hseen) op
  obtain ⟨hl', hinv'⟩ := hinv.setOffload (o := ⟨s.offload.pending, pc⟩) (forall_of_eq_none hpc)
  exact ⟨hl.trans hl', hinv'⟩

theorem Inv.offloadStep {a : OffloadAct} (h : Inv crc32 s) (hst : stepOffload s a = some t) :
    Later s t ∧ Inv crc32 t := by
  have hplain : ∀ {o : Offload}, o.pc.seen = none →
      Later s { s with offload := o } ∧ Inv crc32 { s with offload := o } :=
    fun ho => h.setOffload (forall_of_eq_none ho)
  have hread : ∀ {id op m pc}, casGet s.rows id op = some m → op.expected ≠ .Active →
      OffloadPc.seen pc = some m → Later s (s.setOffload pc) ∧ Inv crc32 (s.setOffload pc) := by
    intro id op m pc hget hop hpc
    refine h.setOffload fun m' hm' => ?_
    cases hpc.symm.trans hm'
    exact h.readRow hop hget
  unfold stepOffload at hst
  split at hst
  case h_1 order hpc =>
    obtain ⟨-, hst⟩ := Option.ite_none_right_eq_some.mp hst
    cases hst
    exact hplain rfl
  case h_2 | h_6 | h_7 | h_9 | h_10 | h_13 | h_16 | h_18 =>
    cases hst
    exact hplain rfl
  case h_3 =>
    split at hst
    · split at hst <;> cases hst
      exact hplain rfl
    · cases hst
  case h_4 j hpc =>
    cases hst
    cases hget : casGet s.rows j.id mark with
    | none => exact hplain rfl
    | some m => exact hread hget (by decide) rfl
  case h_5 j m hpc =>
    cases hst
    exact h.writeThenSet (hpc ▸ rfl) rfl
  case h_8 j n hpc =>
    cases hst
    exact hplain (Offloader.afterFailure_seen j n)
  case h_11 j hpc =>
    cases hst
    cases hget : casGet s.rows j.id (record j.id) with
    | none => exact hplain rfl
    | some m => exact hread hget (by rintro ⟨⟩) rfl
  case h_12 j m hpc =>
    cases hst
    exact h.writeThenSet (hpc ▸ rfl) rfl
  case h_14 j hpc =>
    cases hst
    cases hget : casGet s.rows j.id rollBack with
    | none => exact hplain rfl
    | some m => exact hread hget (by decide) rfl
  case h_15 j m hpc =>
    cases hst
    exact h.writeThenSet (hpc ▸ rfl) rfl
  case h_17 j hpc =>
    cases hst
    obtain ⟨hl, hinv⟩ := h.removeFile j.file
    obtain ⟨hl', hinv'⟩ := hinv.setOffload (o := ⟨s.offload.pending, .between⟩)
      nofun
    exact ⟨hl.trans hl', hinv'⟩
  case h_19 => cases hst

theorem Inv.setStart (h : Inv crc32 s) (pc : StartPc) (hold : s.start ≠ .done)
    (hseen : ∀ m, pc.seen = some m → RowOwn m.id m ∧ Settled s m.id) :
    Later s (s.setStart pc) ∧ Inv crc32 (s.setStart pc) := by
  have hl : Later s (s.setStart pc) := later_same rfl rfl rfl
  have hb := h.base
  refine ⟨hl, h.next hl ⟨hb.rows, hb.growing, hb.newest, fun _ => hb.starting hold, hb.sealing,
    hb.contents⟩ rfl rfl fun m hm => ?_⟩
  rcases hm with hm | hm
  · exact .inl (.inl hm)
  · exact .inr (hseen m hm)

theorem Inv.startStep {a : StartAct} (h : Inv crc32 s) (hst : stepStart s a = some t) :
    Later s t ∧ Inv crc32 t := by
  have hplain : ∀ {pc : StartPc}, s.start ≠ .done → pc.seen = none →
      Later s (s.setStart pc) ∧ Inv crc32 (s.setStart pc) :=
    fun hold hpc => h.setStart _ hold (forall_of_eq_none hpc)
  have hafter : ∀ st, (afterResets st).seen = none := fun st => by cases st <;> rfl
  unfold stepStart at hst
  split at hst
  case h_1 order st hpc =>
    obtain ⟨-, hst⟩ := Option.ite_none_right_eq_some.mp hst
    cases hst
    exact hplain (by simp [hpc]) rfl
  case h_2 st hpc =>
    cases hst
    exact hplain (by simp [hpc]) (hafter st)
  case h_3 st o rest hpc =>
    cases hst
    have hold : s.start ≠ .done := by simp [hpc]
    split_ifs
    · cases hget : casGet s.rows o.id (reset st) with
      | none => exact hplain hold rfl
      | some m =>
        refine h.setStart _ hold fun m' hm' => ?_
        cases hm'
        obtain ⟨hrow, -, hown⟩ := h.base.casGet hget
        refine ⟨hown, ?_⟩
        rw [(h.base.rows o.id m hrow).1]
        exact h.base.settled_starting hold hrow
    · exact hplain hold rfl
  case h_4 st o rest m hpc =>
    cases hst
    have hseen : s.start.seen = some m := hpc ▸ rfl
    obtain ⟨hl, hinv⟩ := h.writeRow (.inr hseen) (reset st)
    obtain ⟨hl', hinv'⟩ := hinv.setStart (.resetting st rest none)
      (by simp [State.upsert, hpc]) nofun
    exact ⟨hl.trans hl', hinv'⟩
  case h_5 st o rest m hpc =>
    cases hst
    exact hplain (by simp [hpc]) rfl
  case h_6 st hpc =>
    cases hst
    exact hplain (by simp [hpc]) (hafter st)
  case h_7 => cases hst

theorem Inv.leaveSegment {pc : FlushLoop.Pc} (h : Inv crc32 s)
    (hdone : s.start = .done) (hpc : s.node.pc = .recorded w)
    (hnew : pc = .sealedSeg w ∨ pc = .stopped) : Later s (setPc s pc) ∧ Inv crc32 (setPc s pc) := by
  have hg : growing pc = none := by rcases hnew with rfl | rfl <;> rfl
  have hgrow : growing (setPc s pc).node.pc = none := hg
  have hl : Later s (setPc s pc) := fun id hs =>
    ⟨⟨hs.1, by rw [hgrow]; nofun⟩, rfl⟩
  have hb := h.base
  refine ⟨hl, h.next hl ⟨hb.rows, fun id m hid => ?_, fun w' hw' => ?_, fun hne => absurd hdone hne,
    nofun, hb.contents⟩ rfl rfl fun m hm => .inl hm⟩
  · cases hgrow.symm.trans hid
  · have hw : FlushLoop.writerOf s.node.pc = some w := by rw [hpc]; rfl
    rcases hnew with rfl | rfl
    · cases hw'
      exact hb.newest w hw
    · cases hw'

theorem Inv.sealRow (h : Inv crc32 s) (hdone : s.start = .done)
    (hpc : s.node.pc = .recorded w) (hseen : s.sealing = some m) :
    Later s (setPc (s.upsert (sealOp.write m)) (.sealedSeg w)) ∧
      Inv crc32 (setPc (s.upsert (sealOp.write m)) (.sealedSeg w)) := by
  obtain ⟨w', hpc', hown, hrow⟩ := h.base.sealing m hseen
  rw [hpc] at hpc'
  cases hpc'
  obtain ⟨hl, hinv⟩ := h.leaveSegment hdone hpc (.inl rfl)
  have hid : (sealOp.write m).id = w.id := hown.1
  have hs : Settled (setPc s (.sealedSeg w)) w.id := ⟨hrow, nofun⟩
  have hl' := later_upsert (s := setPc s (.sealedSeg w)) (sealOp.write m)
  refine ⟨hl.trans hl', hinv.next hl' (hinv.base.upsert ?_ ?_) rfl rfl fun m' hm' => .inl hm'⟩
  · rw [hid]
    exact write_own hown
  · rw [hid]
    exact hs

theorem Inv.sealStep {a : SealAct} (h : Inv crc32 s) (hst : stepSeal sealThreshold s a = some t) :
    Later s t ∧ Inv crc32 t := by
  have hdone : ∀ {w}, s.node.pc = .recorded w → s.start = .done := by
    intro w hpc
    by_contra hne
    have hstarting := h.base.starting hne
    rw [hpc] at hstarting
    cases hstarting
  unfold stepSeal at hst
  split at hst
  case h_1 w hpc hnone =>
    obtain ⟨-, hst⟩ := Option.ite_none_right_eq_some.mp hst
    obtain ⟨-, hst⟩ := Option.ite_none_right_eq_some.mp hst
    cases hst
    cases hget : casGet s.rows w.id sealOp with
    | none => exact h.leaveSegment (hdone hpc) hpc (.inl rfl)
    | some m =>
      have hl : Later s { s with sealing := some m } := later_same rfl rfl rfl
      have hb := h.base
      refine ⟨hl, h.next hl ⟨hb.rows, hb.growing, hb.newest, hb.starting, fun m' hm' => ?_,
        hb.contents⟩ rfl rfl fun m' hm' => .inl hm'⟩
      cases hm'
      obtain ⟨hrow, -, -⟩ := hb.casGet hget
      have hsome : (s.rows.get w.id).isSome := by rw [hrow]; rfl
      exact ⟨w, hpc, hb.rows w.id m hrow, hsome⟩
  case h_2 w m hpc hseen =>
    cases hst
    exact h.sealRow (hdone hpc) hpc hseen
  case h_3 w m hpc hseen =>
    cases hst
    exact h.leaveSegment (hdone hpc) hpc (.inr rfl)
  case h_4 => cases hst

end Others

section Reads

theorem Inv.setRead {pc : ReadPc} (h : Inv crc32 s) (i : Nat) (hok : ReadOk crc32 s pc) :
    Later s (s.setRead i pc) ∧ Inv crc32 (s.setRead i pc) := by
  have hl : Later s (s.setRead i pc) := later_same rfl rfl rfl
  refine ⟨hl, ⟨h.base.rows, h.base.growing, h.base.newest, h.base.starting, h.base.sealing,
    h.base.contents⟩, h.seen, h.blocks, fun i' pc' hget => ?_⟩
  dsimp only [State.setRead] at hget
  rw [Table.get_put] at hget
  split_ifs at hget
  · cases hget
    exact hok.later hl
  · exact (h.reads i' pc' hget).later hl

theorem blockAt_none (g : Target) : blockAt g none = blockStart g.iv.offset := by
  simp [blockAt]

theorem blockAt_some (g : Target) (block : Bytes) :
    blockAt g (some block) = blockStart g.iv.offset + blockSize := by
  simp [blockAt]

theorem gotBlock_ok {first : Option Bytes}
    (hg : TargetOk s g first) (hblock : Shows s g.iv.segmentId (blockAt g first) block) :
    ReadOk crc32 s (gotBlock crc32 g first block) := by
  obtain ⟨data, hdata, hwindow⟩ := hblock
  cases first with
  | none =>
    rw [blockAt_none] at hwindow
    simp only [gotBlock]
    split_ifs with hfit
    · refine fun _ => ⟨hg.settled, data, hdata, ?_⟩
      rw [fromFile, if_pos hfit, hwindow]
    · refine fun _ => ⟨hg.path, hg.settled, fun block' hb => ?_⟩
      cases hb
      exact ⟨⟨data, hdata, hwindow⟩, not_le.mp hfit⟩
  | some block1 =>
    obtain ⟨⟨data', hdata', hwindow'⟩, hlong⟩ := hg.first block1 rfl
    cases hdata.symm.trans hdata'
    refine fun _ => ⟨hg.settled, data, hdata, ?_⟩
    rw [blockAt_some] at hwindow
    rw [fromFile, if_neg (not_le.mpr hlong), hwindow, hwindow']

theorem gotBlock_plain (hc : ¬g.cacheable = true) (first : Option Bytes)
    (block : Bytes) : ReadOk crc32 s (gotBlock crc32 g first block) := by
  cases first with
  | none =>
    simp only [gotBlock]
    split_ifs
    · exact fun h => absurd h hc
    · exact fun h => absurd h hc
  | some block1 => exact fun h => absurd h hc

theorem openRow_ok {iv : IndexValue} (h : Base s) (hget : s.rows.get iv.segmentId = some m) :
    ReadOk crc32 s (openRow iv m) := by
  have hlookup (path : SegPath) (hpath : m.localPath = some path) :
      ReadOk crc32 s (.lookup ⟨iv, path, decide (m.status ≠ .Active)⟩ none) := by
    intro hc
    refine ⟨(h.rows _ m hget).2 path hpath, h.settled hget (of_decide_eq_true hc), fun b hb => ?_⟩
    cases hb
  unfold openRow
  cases hst : m.status with
  | S3 | Deleted => trivial
  | Active | Local | Offloading =>
    rw [hst] at hlookup
    cases hpath : m.localPath with
    | none => trivial
    | some path => exact hlookup path hpath

theorem Inv.insertBlock {start : Nat} (h : Inv crc32 s) (hs : Settled s id)
    (hblock : Shows s id start block) :
    Inv crc32 { s with blocks := s.blocks.put (id, start) block } := by
  refine ⟨⟨h.base.rows, h.base.growing, h.base.newest, h.base.starting, h.base.sealing,
    h.base.contents⟩, h.seen, fun id' start' block' hget => ?_,
    fun i pc hget => (h.reads i pc hget).later (later_same rfl rfl rfl)⟩
  dsimp only at hget
  rw [Table.get_put] at hget
  split_ifs at hget with heq
  · cases heq
    cases hget
    exact ⟨hs, hblock⟩
  · exact h.blocks id' start' block' hget

theorem Inv.readStep {i : Nat} {a : ReadAct} (h : Inv crc32 s)
    (hst : stepRead crc32 s i a = some t) : Later s t ∧ Inv crc32 t := by
  unfold stepRead at hst
  split at hst
  case h_1 =>
    cases hst
    exact h.setRead i trivial
  case h_2 k hpc =>
    cases hst
    refine h.setRead i ?_
    cases s.node.entryIndex.getLocation k <;> trivial
  case h_3 iv hpc =>
    cases hst
    refine h.setRead i ?_
    cases hget : s.rows.get iv.segmentId with
    | none => trivial
    | some m => exact openRow_ok h.base hget
  case h_4 g first hpc =>
    cases hst
    have hg := h.reads i _ hpc
    refine h.setRead i ?_
    split
    · rename_i cached hcached
      by_cases hc : g.cacheable = true
      · rw [if_pos hc] at hcached
        exact gotBlock_ok (hg hc) (h.blocks _ _ _ hcached).2
      · rw [if_neg hc] at hcached
        cases hcached
    · exact hg
  case h_5 g first hpc =>
    cases hst
    have hg := h.reads i _ hpc
    refine h.setRead i ?_
    split
    · trivial
    · rename_i data hdata
      split_ifs with hc
      · have hg := hg hc
        rw [hg.path] at hdata
        exact ⟨hg, data, h.base.contents _ data hdata, rfl⟩
      · exact gotBlock_plain hc first _
  case h_6 =>
    cases hst
    exact h.setRead i trivial
  case h_7 g first block hpc =>
    cases hst
    obtain ⟨hg, hblock⟩ := h.reads i _ hpc
    have hins := h.insertBlock hg.settled hblock
    have hl : Later s { s with blocks := s.blocks.put (g.iv.segmentId, blockAt g first) block } :=
      later_same rfl rfl rfl
    obtain ⟨hl', hinv⟩ := hins.setRead i
      (gotBlock_ok (hg.later hl) (hblock.later hl hg.settled))
    exact ⟨hl.trans hl', hinv⟩
  case h_8 => cases hst

end Reads

theorem inv_step {a : Act} (h : Inv crc32 s) (hst : step crc32 sealThreshold s a = some t) :
    Later s t ∧ Inv crc32 t := by
  cases a with
  | node a => exact h.nodeStep hst
  | start a => exact h.startStep hst
  | sealSeg a => exact h.sealStep hst
  | offload a => exact h.offloadStep hst
  | read i a => exact h.readStep hst
  | evict block =>
    cases hst
    have hl : Later s { s with blocks := s.blocks.del block } := later_same rfl rfl rfl
    refine ⟨hl, ⟨h.base.rows, h.base.growing, h.base.newest, h.base.starting, h.base.sealing,
      h.base.contents⟩, h.seen, fun id start b hget => ?_,
      fun i pc hget => (h.reads i pc hget).later hl⟩
    dsimp only at hget
    rw [Table.get_del] at hget
    split_ifs at hget
    exact h.blocks id start b hget

theorem inv_init (h : Init s) : Inv crc32 s := by
  have hpc : s.node.pc = .starting := h.pc
  refine ⟨⟨h.rows, fun id m hg => ?_, fun w hw => ?_, fun _ => hpc, fun m hm => ?_,
    fun id data hget => ?_⟩, fun m hm => ?_, fun id start block hget => ?_, fun i pc hget => ?_⟩
  · rw [hpc] at hg
    cases hg
  · rw [hpc] at hw
    cases hw
  · rw [h.sealing] at hm
    cases hm
  · rw [h.contents, hget]
  · rw [h.offload, h.start] at hm
    rcases hm with hm | hm <;> cases hm
  · rw [h.blocks] at hget
    cases hget
  · rw [h.reads] at hget
    cases hget

theorem reach_inv (h : Reach (step crc32 sealThreshold) Init s) : Inv crc32 s :=
  h.invariant (fun _ hs => inv_init hs) fun _ _ _ hs hst => (inv_step hs hst).2

theorem later_reach (hs : Inv crc32 s) (h : Reach (step crc32 sealThreshold) (· = s) t) :
    Later s t ∧ Inv crc32 t := by
  induction h with
  | start hinit =>
    subst hinit
    exact ⟨fun id hid => ⟨hid, rfl⟩, hs⟩
  | next a _ hst ih =>
    obtain ⟨hl, hinv⟩ := inv_step ih.2 hst
    exact ⟨ih.1.trans hl, hinv⟩

end Invariant

section Coherence
variable {s : State}

def Final (crc32 : Bytes → UInt32) (sealThreshold : Nat) (s : State) (id : SegmentId)
    (data : Bytes) : Prop :=
  ∀ t, Reach (step crc32 sealThreshold) (· = s) t →
    t.contents id = some data ∧ ∀ data', t.files.get id = some data' → data' = data

theorem Inv.final {id : SegmentId} {data : Bytes} (h : Inv crc32 s) (hs : Settled s id)
    (hdata : s.contents id = some data) : Final crc32 sealThreshold s id data := by
  intro t ht
  obtain ⟨hl, hinv⟩ := later_reach h ht
  have hcontents : t.contents id = some data := (hl id hs).2.trans hdata
  refine ⟨hcontents, fun data' hget => ?_⟩
  exact Option.some.inj ((hinv.base.contents id data' hget).symm.trans hcontents)

/-- Every cached block is cut out of the final file of its segment, and a read that may use the
cache returns what the read of that file returns. -/
theorem block_cache_coherent (h : Reach (step crc32 sealThreshold) Init s) :
    (∀ id start block, s.blocks.get (id, start) = some block →
      ∃ data, Final crc32 sealThreshold s id data ∧ block = window data start blockSize) ∧
    ∀ i g result, s.reads.get i = some (.returned g result) → g.cacheable = true →
      ∃ data, Final crc32 sealThreshold s g.iv.segmentId data ∧
        result = fromFile crc32 data g.iv := by
  have hinv := reach_inv h
  refine ⟨fun id start block hget => ?_, fun i g result hget hc => ?_⟩
  · obtain ⟨hs, data, hdata, hblock⟩ := hinv.blocks id start block hget
    exact ⟨data, hinv.final hs hdata, hblock⟩
  · obtain ⟨hs, data, hdata, hresult⟩ := hinv.reads i _ hget hc
    exact ⟨data, hinv.final hs hdata, hresult⟩

def sealedStart : State where
  node :=
    { cache := .new 65536
      entryIndex := FjallIndex.empty.insertLocation (1, 0) 3 0 25
      walIndex := .empty
      registry := Table.empty.put 3 (entryMeta 3 .Local 25)
      files := Table.empty.put 3 (Segment.firstRec.encode Crc32.crc32)
      pc := .starting
      acked := []
      reads := .empty }
  start := .listing .Active
  sealing := none
  offload := ⟨[], .between⟩
  blocks := .empty
  reads := .empty
  contents := (Table.empty.put 3 (Segment.firstRec.encode Crc32.crc32)).get

theorem sealedStart_init : Init sealedStart := by
  refine ⟨rfl, rfl, rfl, rfl, rfl, rfl, fun id m hget => ?_, fun _ => rfl⟩
  have hput : (Table.empty.put 3 (entryMeta 3 .Local 25)).get id = some m := hget
  rw [Table.get_put] at hput
  split_ifs at hput with hid
  · cases hput
    exact ⟨hid.symm, fun path hpath => by rw [hid]; exact (Option.some.inj hpath).symm⟩
  · cases hput

/-- The first read fills the cache. The second has seen the row when the offloader removes the
file, and is served from the cache. -/
def offloadedRead : List Act :=
  [.read 0 (.start (1, 0)), .read 0 .locate, .read 0 .row, .read 0 .lookup, .read 0 .read,
   .read 0 .insert, .read 1 (.start (1, 0)), .read 1 .locate, .read 1 .row,
   .offload (.list [entryMeta 3 .Local 25]), .offload .take, .offload .get, .offload .upsert,
   .offload (.upload true), .offload (.head true), .offload .get, .offload .upsert,
   .offload (.remove true), .read 1 .lookup]

theorem removed_file_served_from_cache :
    ∃ s data, Reach (step Crc32.crc32 65536) Init s ∧ s.files.get 3 = none ∧
      s.reads.get 1 = some (.returned ⟨⟨3, 0, 25⟩, .entrySeg 3, true⟩ (.ok [7])) ∧
      Final Crc32.crc32 65536 s 3 data ∧ .ok [7] = fromFile Crc32.crc32 data ⟨3, 0, 25⟩ := by
  obtain ⟨s, hreach, hfile, hread⟩ := reach_check (step Crc32.crc32 65536) sealedStart_init
    (fun s => s.files.get 3 = none ∧
      s.reads.get 1 = some (.returned ⟨⟨3, 0, 25⟩, .entrySeg 3, true⟩ (.ok [7])))
    offloadedRead (by decide +kernel)
  obtain ⟨data, hfinal, hresult⟩ := (block_cache_coherent hreach).2 1 _ _ hread rfl
  exact ⟨s, data, hreach, hfile, hread, hfinal, hresult⟩

end Coherence
end Folio.BlockCoherence
