import Folio.FlushLoop
import Folio.SegmentIds
import Folio.TieredReader

/-! The block cache of the readers, between the flush loop, the resets of its start-up and the
offloader. A read holds the row it has seen over several steps: the cache lookup, the file read
and the insert each come after whatever the other threads have done in between. -/
namespace Folio.BlockReads
open KeyedTable ByteCodec Protocol Fjall Fjall.SegmentRegistry EntrySegment
open TieredReader (blockSize blockStart payloadAt display)
open Offloader (Offload OffloadPc casGet mark rollBack record reset sealOp afterFailure)

section Model

structure Target where
  iv : IndexValue
  path : SegPath
  cacheable : Bool
  deriving DecidableEq

/-- `first` is the first of two blocks, once it is there. `elsewhere` is a read that goes on to
the WAL or to S3, without block cache. -/
inductive ReadPc where
  | started (k : Key)
  | located (iv : IndexValue)
  | lookup (g : Target) (first : Option Bytes)
  | reading (g : Target) (first : Option Bytes)
  | inserting (g : Target) (first : Option Bytes) (block : Bytes)
  | returned (g : Target) (result : Except FolioError Bytes)
  | failed (e : FolioError)
  | elsewhere
  deriving DecidableEq

/-- The resets before the flush loop opens its first segment; `seen` as in the other
compare-and-swap calls. -/
inductive StartPc where
  | listing (st : SegmentStatus)
  | resetting (st : SegmentStatus) (orphans : List SegmentMeta) (seen : Option SegmentMeta)
  | done

def StartPc.seen : StartPc → Option SegmentMeta
  | .resetting _ _ m => m
  | _ => none

/-- `sealing` is the row that the seal of the writer's segment has read. `contents` is what was
in the file of a segment last; the code does not have it. -/
structure State where
  node : FlushLoop.State
  start : StartPc
  sealing : Option SegmentMeta
  offload : Offload
  blocks : Table (SegmentId × Nat) Bytes
  reads : Table Nat ReadPc
  contents : SegmentId → Option Bytes

namespace State
variable (s : State)

def files : Files := s.node.files
def rows : SegmentRegistry := s.node.registry

def setNode (node : FlushLoop.State) : State :=
  { s with node, contents := fun id => (node.files.get id).or (s.contents id) }

def upsert (m : SegmentMeta) : State :=
  { s with node := { s.node with registry := s.rows.upsert m } }

def setOffload (pc : OffloadPc) : State := { s with offload := { s.offload with pc } }
def setStart (pc : StartPc) : State := { s with start := pc }
def setRead (i : Nat) (pc : ReadPc) : State := { s with reads := s.reads.put i pc }

end State

section Startup

inductive StartAct where
  | list (order : List SegmentMeta)
  | listError
  | get
  | upsert
  | error
  | next

def afterResets : SegmentStatus → StartPc
  | .Active => .listing .Offloading
  | _ => .done

def stepStart (s : State) (a : StartAct) : Option State :=
  match a, s.start with
  | .list order, .listing st =>
    if order.isPerm (listByStatus s.rows st) then some (s.setStart (.resetting st order none))
    else none
  | .listError, .listing st => some (s.setStart (afterResets st))
  | .get, .resetting st (m :: rest) none =>
    some (s.setStart (if m.kind = .Entry then
        (casGet s.rows m.id (reset st)).elim (.resetting st rest none) fun seen =>
          .resetting st (m :: rest) (some seen)
      else .resetting st rest none))
  | .upsert, .resetting st (_ :: rest) (some seen) =>
    some ((s.upsert ((reset st).write seen)).setStart (.resetting st rest none))
  | .error, .resetting st (_ :: rest) _ => some (s.setStart (.resetting st rest none))
  | .next, .resetting st [] none => some (s.setStart (afterResets st))
  | _, _ => none

end Startup

section Offloads

inductive OffloadAct where
  | list (order : List SegmentMeta)
  | skip
  | take
  | get
  | upsert
  | error
  | upload (ok : Bool)
  | head (ok : Bool)
  | remove (ok : Bool)

def removeFile (s : State) (id : SegmentId) : State :=
  { s with node := { s.node with files := s.files.del id } }

def stepOffload (s : State) (a : OffloadAct) : Option State :=
  match a, s.offload.pc with
  | .list order, .between =>
    if s.offload.pending.isEmpty ∧ order.isPerm (listByStatus s.rows .Local) then
      some { s with offload := ⟨order, .between⟩ }
    else none
  | .skip, .between => some { s with offload := ⟨s.offload.pending.tail, .between⟩ }
  | .take, .between =>
    match s.offload.pending with
    | m :: rest =>
      match m.localPath with
      | some (.entrySeg file) => some { s with offload := ⟨rest, .marking ⟨m.id, file⟩ none⟩ }
      | _ => none
    | [] => none
  | .get, .marking j none =>
    some (s.setOffload ((casGet s.rows j.id mark).elim .between fun m => .marking j (some m)))
  | .upsert, .marking j (some m) => some ((s.upsert (mark.write m)).setOffload (.uploading j 0))
  | .error, .marking _ _ => some (s.setOffload .between)
  | .upload true, .uploading j _ => some (s.setOffload (.verifying j))
  | .upload false, .uploading j n =>
    some (s.setOffload (afterFailure j n))
  | .head true, .verifying j => some (s.setOffload (.recording j none))
  | .head false, .verifying j => some (s.setOffload (.rollingBack j none))
  | .get, .recording j none =>
    some (s.setOffload ((casGet s.rows j.id (record j.id)).elim (.removing j) fun m =>
      .recording j (some m)))
  | .upsert, .recording j (some m) =>
    some ((s.upsert ((record j.id).write m)).setOffload (.removing j))
  | .error, .recording j _ => some (s.setOffload (.rollingBack j none))
  | .get, .rollingBack j none =>
    some (s.setOffload ((casGet s.rows j.id rollBack).elim .between fun m =>
      .rollingBack j (some m)))
  | .upsert, .rollingBack _ (some m) => some ((s.upsert (rollBack.write m)).setOffload .between)
  | .error, .rollingBack _ _ => some (s.setOffload .between)
  | .remove true, .removing j => some ((removeFile s j.file).setOffload .between)
  | .remove false, .removing _ => some (s.setOffload .between)
  | _, _ => none

end Offloads

section Flush
variable (crc32 : Bytes → UInt32) (sealThreshold : Nat)

/-- The flush loop starts after the resets, and `cas_status` of a seal is a `get` and an `upsert`
of its own. -/
def allowed (s : State) : FlushLoop.Act → Bool
  | .flush a => (s.start matches .done) && s.sealing.isNone && (match a, s.node.pc with
    | .checkSeal, .recorded w => decide (w.fileOffset < sealThreshold)
    | _, _ => true)
  | _ => true

def stepNode (s : State) (a : FlushLoop.Act) : Option State :=
  if allowed sealThreshold s a then
    (FlushLoop.step crc32 sealThreshold s.node a).map s.setNode
  else none

inductive SealAct where
  | get
  | upsert
  | error

def setPc (s : State) (pc : FlushLoop.Pc) : State :=
  { s with node := { s.node with pc }, sealing := none }

def stepSeal (s : State) (a : SealAct) : Option State :=
  match a, s.node.pc, s.sealing with
  | .get, .recorded w, none =>
    if s.start matches .done then
      if sealThreshold ≤ w.fileOffset then
        some ((casGet s.rows w.id sealOp).elim (setPc s (.sealedSeg w)) fun m =>
          { s with sealing := some m })
      else none
    else none
  | .upsert, .recorded w, some m => some (setPc (s.upsert (sealOp.write m)) (.sealedSeg w))
  | .error, .recorded _, some _ => some (setPc s .stopped)
  | _, _, _ => none

end Flush

section Reads
variable (crc32 : Bytes → UInt32)

inductive ReadAct where
  | start (k : Key)
  | locate
  | row
  | lookup
  | read
  | readError (e : FolioError)
  | insert

def blockAt (g : Target) (first : Option Bytes) : Nat :=
  blockStart g.iv.offset + if first.isSome then blockSize else 0

def gotBlock (g : Target) (first : Option Bytes) (block : Bytes) : ReadPc :=
  match first with
  | none =>
    if g.iv.offset + g.iv.length ≤ blockStart g.iv.offset + blockSize then
      .returned g (payloadAt crc32 block (g.iv.offset - blockStart g.iv.offset))
    else .lookup g (some block)
  | some block1 =>
    .returned g (payloadAt crc32 (block1 ++ block) (g.iv.offset - blockStart g.iv.offset))

def fileAt (files : Files) : SegPath → Option Bytes
  | .entrySeg id => files.get id
  | _ => none

def openRow (iv : IndexValue) (m : SegmentMeta) : ReadPc :=
  let segId := iv.segmentId
  match m.status with
  | .Active | .Local | .Offloading =>
    match m.localPath with
    | none => .failed (.storage s!"entry segment {segId} has no local_path")
    | some path => .lookup ⟨iv, path, decide (m.status ≠ .Active)⟩ none
  | .S3 => .elsewhere
  | .Deleted => .failed (.storage s!"entry segment {segId} is deleted")

def stepRead (s : State) (i : Nat) (a : ReadAct) : Option State :=
  match a, s.reads.get i with
  | .start k, none => some (s.setRead i (.started k))
  | .locate, some (.started k) =>
    some (s.setRead i ((s.node.entryIndex.getLocation k).elim .elsewhere .located))
  | .row, some (.located iv) =>
    let segId := iv.segmentId
    some (s.setRead i ((s.rows.get segId).elim
      (.failed (.storage s!"entry segment {segId} not in registry")) (openRow iv)))
  | .lookup, some (.lookup g first) =>
    some (s.setRead i (match (if g.cacheable then
        s.blocks.get (g.iv.segmentId, blockAt g first) else none) with
      | some cached => gotBlock crc32 g first cached
      | none => .reading g first))
  | .read, some (.reading g first) =>
    some (s.setRead i (match fileAt s.files g.path with
      | none => .failed (.storage ("open " ++ display g.path ++ ": No such file or directory"))
      | some data =>
        if g.cacheable then .inserting g first (window data (blockAt g first) blockSize)
        else gotBlock crc32 g first (window data (blockAt g first) blockSize)))
  | .readError e, some (.reading _ _) => some (s.setRead i (.failed e))
  | .insert, some (.inserting g first block) =>
    some ({ s with blocks := s.blocks.put (g.iv.segmentId, blockAt g first) block }.setRead i
      (gotBlock crc32 g first block))
  | _, _ => none

end Reads

inductive Act where
  | node (a : FlushLoop.Act)
  | start (a : StartAct)
  | sealSeg (a : SealAct)
  | offload (a : OffloadAct)
  | read (i : Nat) (a : ReadAct)
  | evict (block : SegmentId × Nat)

def step (crc32 : Bytes → UInt32) (sealThreshold : Nat) (s : State) : Act → Option State
  | .node a => stepNode crc32 sealThreshold s a
  | .start a => stepStart s a
  | .sealSeg a => stepSeal sealThreshold s a
  | .offload a => stepOffload s a
  | .read i a => stepRead crc32 s i a
  | .evict block => some { s with blocks := s.blocks.del block }

def RowOwn (id : SegmentId) (m : SegmentMeta) : Prop :=
  m.id = id ∧ ∀ path, m.localPath = some path → path = .entrySeg id

/-- A process whose recovery is over: no block is cached and no thread has started. -/
structure Init (s : State) : Prop where
  blocks : s.blocks = .empty
  reads : s.reads = .empty
  offload : s.offload = ⟨[], .between⟩
  start : s.start = .listing .Active
  sealing : s.sealing = none
  pc : s.node.pc = .starting
  rows : ∀ id m, s.rows.get id = some m → RowOwn id m
  contents : ∀ id, s.contents id = s.files.get id

def fromFile (crc32 : Bytes → UInt32) (data : Bytes) (iv : IndexValue) : Except FolioError Bytes :=
  let start := blockStart iv.offset
  if iv.offset + iv.length ≤ start + blockSize then
    payloadAt crc32 (window data start blockSize) (iv.offset - start)
  else
    payloadAt crc32 (window data start blockSize ++ window data (start + blockSize) blockSize)
      (iv.offset - start)

end Model

section FlushEffect
variable {crc32 : Bytes → UInt32} {sealThreshold : Nat} {s t : FlushLoop.State}

def growing : FlushLoop.Pc → Option SegmentId
  | .created w | .waiting w | .drained w _ | .written w _ | .indexing w _ | .located w _ _
  | .recorded w => some w.id
  | .starting | .sealedSeg _ | .evicted _ | .stopped => none

structure Onward (pc pc' : FlushLoop.Pc) : Prop where
  growing : ∀ id, growing pc' = some id → growing pc = some id
  writer : ∀ w', FlushLoop.writerOf pc' = some w' →
    ∃ w, FlushLoop.writerOf pc = some w ∧ w.id = w'.id

inductive FlushEffect (s t : FlushLoop.State) : Prop
  | quiet : t.files = s.files → t.registry = s.registry → Onward s.pc t.pc → FlushEffect s t
  | create (id : SegmentId) : (s.pc = .starting ∧ id = nextEntrySegId s.files s.registry ∨
      ∃ w, s.pc = .evicted w ∧ id = w.id + 1) → t = FlushLoop.create s id → FlushEffect s t
  | row (id : SegmentId) (byteLen : Nat) : growing s.pc = some id → t.files = s.files →
      t.registry = s.registry.upsert (entryMeta id .Active byteLen) → Onward s.pc t.pc →
      FlushEffect s t
  | write (id : SegmentId) (data : Bytes) : growing s.pc = some id →
      t.files = s.files.put id data → t.registry = s.registry → Onward s.pc t.pc → FlushEffect s t

theorem Onward.newest {pc pc' : FlushLoop.Pc} (hon : Onward pc pc') {P : SegmentId → Prop}
    (h : ∀ w, FlushLoop.writerOf pc = some w → ∀ id, P id → id ≤ w.id) :
    ∀ w, FlushLoop.writerOf pc' = some w → ∀ id, P id → id ≤ w.id := by
  intro w' hw' id hid
  obtain ⟨w, hw, heq⟩ := hon.writer w' hw'
  rw [← heq]
  exact h w hw id hid

theorem onward_stopped (pc : FlushLoop.Pc) : Onward pc .stopped := ⟨nofun, nofun⟩

theorem stepFlush_effect {a : FlushLoop.FlushAct}
    (hseal : ∀ w, a = .checkSeal → s.pc = .recorded w → w.fileOffset < sealThreshold)
    (h : FlushLoop.stepFlush crc32 sealThreshold s a = some t) : FlushEffect s t := by
  have hin : ∀ {pc pc' w w'}, s.pc = pc → growing pc = some w.id → FlushLoop.writerOf pc = some w →
      growing pc' = some w'.id → FlushLoop.writerOf pc' = some w' → w'.id = w.id →
      Onward s.pc pc' := by
    intro pc pc' w w' hpc hg hw hg' hw' hid
    rw [hpc]
    refine ⟨fun id hid' => ?_, fun w'' hw'' => ⟨w, hw, ?_⟩⟩
    · rw [hg, ← hid, ← hg', hid']
    · rw [hw'] at hw''
      rw [← Option.some.inj hw'', hid]
  unfold FlushLoop.stepFlush at h
  split at h
  case h_1 hpc => exact .create _ (.inl ⟨hpc, rfl⟩) (Option.some.inj h).symm
  case h_2 w hpc =>
    cases h
    exact .row w.id 0 (by rw [hpc]; rfl) rfl rfl (hin hpc rfl rfl rfl rfl rfl)
  case h_3 order w hpc =>
    obtain ⟨-, h⟩ := Option.ite_none_right_eq_some.mp h
    cases h
    refine .quiet rfl rfl ?_
    dsimp only
    split_ifs
    · exact hin hpc rfl rfl rfl rfl rfl
    · exact hin hpc rfl rfl rfl rfl rfl
  case h_4 w batch hpc =>
    obtain ⟨data, -, rfl⟩ := Option.map_eq_some_iff.mp h
    exact .write w.id _ (by rw [hpc]; rfl) rfl rfl (hin hpc rfl rfl rfl rfl rfl)
  case h_5 left w batch hpc =>
    obtain ⟨data, -, rfl⟩ := Option.map_eq_some_iff.mp h
    exact .write w.id _ (by rw [hpc]; rfl) rfl rfl (onward_stopped _)
  case h_6 w todo hpc =>
    cases h
    exact .quiet rfl rfl (hin hpc rfl rfl rfl rfl rfl)
  case h_7 w r offset length todo hpc =>
    cases h
    exact .quiet rfl rfl (hin hpc rfl rfl rfl rfl rfl)
  case h_8 deleted w k todo hpc =>
    cases h
    exact .quiet rfl rfl (hin hpc rfl rfl rfl rfl rfl)
  case h_9 w hpc =>
    cases h
    exact .row w.id _ (by rw [hpc]; rfl) rfl rfl (hin hpc rfl rfl rfl rfl rfl)
  case h_10 w hpc =>
    rw [if_neg (not_le.mpr (hseal w rfl hpc))] at h
    cases h
    exact .quiet rfl rfl (hin hpc rfl rfl rfl rfl rfl)
  case h_11 w hpc =>
    cases h
    refine .quiet rfl rfl ⟨nofun, fun w' hw' => ⟨w, by rw [hpc]; rfl, ?_⟩⟩
    exact congrArg EntrySegmentWriter.id (Option.some.inj hw')
  case h_12 w hpc => exact .create _ (.inr ⟨w, hpc, rfl⟩) (Option.some.inj h).symm
  case h_13 => cases h
  case h_14 =>
    cases h
    exact .quiet rfl rfl (onward_stopped _)
  case h_15 => cases h

end FlushEffect

end Folio.BlockReads
