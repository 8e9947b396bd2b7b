import Folio.Crc32
import Folio.EntryCache
import Folio.TransitionSystem

/-! A live LSM-C `JournalService`: requests cut at their await points, the journal thread,
the flush loop and the WAL garbage collector, all interleaved. A WAL file is the list of
the keys of its valid records; entry segment offsets and S3 uploads are left out. -/
namespace Folio.Node
open KeyedTable Protocol Fjall EntryCache

structure Env where
  crc32 : Bytes → UInt32
  validateHmac : Entry → Key32 → Bool
  serialize : Entry → Bytes

inductive AddReply where
  | duplicate (ack : AppendAck)
  | written (ack : AppendAck)
  | failed (e : FolioError)
  deriving DecidableEq

/-- `kept` is a write whose caller was told it failed although its record is in the file. -/
inductive AddPc where
  | started
  | checked
  | registered
  | sent
  | logged
  | marked
  | kept (e : FolioError)
  | returned (reply : AddReply)
  deriving DecidableEq

structure AddReq where
  entry : Entry
  pc : AddPc
  deriving DecidableEq

inductive FencePc where
  | started
  | durable
  | inSet
  | readHi (memHi : Nat)
  | readEntry (memHi hiEntry : Nat)
  | returned (hi : Nat)
  deriving DecidableEq

structure FenceReq where
  ledger : Nat
  pc : FencePc
  deriving DecidableEq

inductive SealPc where
  | open
  | renamed
  | upserted
  deriving DecidableEq

/-- `pending` are the drained entries still to be moved; `indexed` says that the first of them is
in `entry_index` already. -/
structure Flush where
  pending : List (Key × Bytes)
  synced : Bool
  indexed : Bool
  stopped : Bool

/-- The drained entries that are not in `entry_index` yet. -/
def Flush.waiting (f : Flush) : List (Key × Bytes) :=
  if f.indexed then f.pending.tail else f.pending

/-- A pass of `wal_gc`: whether there is disk pressure, the referenced ids it has read, and
the rows it still has to visit. -/
inductive GcPc where
  | idle
  | needed (pressure : Bool) (ids : List SegmentId)
  | visiting (pressure : Bool) (ids : List SegmentId) (todo : List SegmentMeta)

structure State where
  adds : Table Nat AddReq
  fenceReqs : Table Nat FenceReq
  fences : List Nat
  knownLedgers : List Nat
  hiEntry : Table Nat Nat
  lac : Table Nat Nat
  walIndex : FjallIndex
  entryIndex : FjallIndex
  cache : EntrySegmentCache
  walFiles : Table SegPath (List Key)
  walRegistry : SegmentRegistry
  segId : SegmentId
  sealing : SealPc
  flush : Flush
  gc : GcPc
  nodeId : NodeId

section AddEntry
variable (env : Env)

inductive WriteOutcome where
  | ok
  | failedKept (e : FolioError)
  | failedLost (e : FolioError)

def setAdd (s : State) (c : Nat) (req : AddReq) (pc : AddPc) : State :=
  { s with adds := s.adds.put c { req with pc } }

/-- Digest and fence check; no await point lies between them. -/
def fenceCheck (s : State) (e : Entry) : AddPc :=
  if !e.validateDigest env.crc32 then
    .returned (.failed (.serialization "entry checksum validation failed"))
  else if e.ledgerId ∈ s.fences then .returned (.failed (.ledgerFenced e.ledgerId))
  else .checked

/-- `ensure_ledger_known`, on the first write of a ledger and on every write with a key. -/
def recordLedger (s : State) (e : Entry) : Except FolioError State :=
  if e.ledgerId ∉ s.knownLedgers then
    (s.entryIndex.ensureLedgerKnown e.ledgerId e.masterKey).map fun r =>
      { s with entryIndex := r.1, knownLedgers := e.ledgerId :: s.knownLedgers }
  else if e.masterKey.isSome then
    (s.entryIndex.ensureLedgerKnown e.ledgerId e.masterKey).map fun r =>
      { s with entryIndex := r.1 }
  else .ok s

def verifyHmac (s : State) (e : Entry) : Except FolioError Unit :=
  match e.hmac, s.entryIndex.getLedgerMasterKey e.ledgerId with
  | some _, some mk =>
    if env.validateHmac e mk then .ok ()
    else
      let (lid, eid) := e.key
      .error (.serialization s!"ledger {lid} entry {eid}: HMAC verification failed")
  | _, _ => .ok ()

/-- Ledger registration and HMAC verification. The reply of a refused write leaves what
registration has already recorded. -/
def registerLedger (s : State) (e : Entry) : State × Except FolioError Unit :=
  match recordLedger s e with
  | .ok t => (t, verifyHmac env t e)
  | .error err => (s, .error err)

def isDuplicate (s : State) (k : Key) : Bool :=
  s.cache.contains k || (s.entryIndex.getLocation k).isSome || (s.walIndex.getLocation k).isSome

def ackOf (s : State) (e : Entry) (localLac : Nat) : AppendAck :=
  { ledgerId := e.ledgerId, entryId := e.entryId, localLac, nodeId := s.nodeId }

def dupCheck (s : State) (e : Entry) : AddPc :=
  if isDuplicate s e.key then
    .returned (.duplicate (ackOf s e ((s.lac.get e.ledgerId).getD 0)))
  else .sent

def logRecord (s : State) (k : Key) : State :=
  { s with walFiles :=
      s.walFiles.put .activeSeg ((s.walFiles.get .activeSeg).getD [] ++ [k]) }

/-- `and_modify(max).or_insert`. -/
def raise (t : Table Nat Nat) (ledger n : Nat) : Table Nat Nat :=
  t.put ledger (((t.get ledger).map (max n)).getD n)

def cacheEntry (s : State) (e : Entry) : State × AddReply :=
  let lac := raise s.lac e.ledgerId e.lac
  ({ s with cache := s.cache.insert e.key (env.serialize e), lac },
    .written (ackOf s e ((lac.get e.ledgerId).getD 0)))

inductive AddAct where
  | invoke (e : Entry)
  | fenceCheck
  | register
  | dupCheck
  | journal (out : WriteOutcome)
  | mark
  | cache

def stepAdd (s : State) (c : Nat) (a : AddAct) : Option State :=
  match a, s.adds.get c with
  | .invoke e, none => some { s with adds := s.adds.put c ⟨e, .started⟩ }
  | .fenceCheck, some ⟨e, .started⟩ => some (setAdd s c ⟨e, .started⟩ (fenceCheck env s e))
  | .register, some ⟨e, .checked⟩ =>
    match registerLedger env s e with
    | (t, .ok ()) => some (setAdd t c ⟨e, .checked⟩ .registered)
    | (t, .error err) => some (setAdd t c ⟨e, .checked⟩ (.returned (.failed err)))
  | .dupCheck, some ⟨e, .registered⟩ => some (setAdd s c ⟨e, .registered⟩ (dupCheck s e))
  | .journal out, some ⟨e, .sent⟩ =>
    if s.sealing ≠ .open then none
    else match out with
      | .ok => some (setAdd (logRecord s e.key) c ⟨e, .sent⟩ .logged)
      | .failedKept err => some (setAdd (logRecord s e.key) c ⟨e, .sent⟩ (.kept err))
      | .failedLost err => some (setAdd s c ⟨e, .sent⟩ (.returned (.failed err)))
  | .mark, some ⟨e, .logged⟩ =>
    some (setAdd { s with hiEntry := raise s.hiEntry e.ledgerId e.entryId } c ⟨e, .logged⟩ .marked)
  | .cache, some ⟨e, .marked⟩ =>
    some (setAdd (cacheEntry env s e).1 c ⟨e, .marked⟩ (.returned (cacheEntry env s e).2))
  | _, _ => none

end AddEntry

section FenceLedger

inductive FenceAct where
  | invoke (ledger : Nat)
  | durable
  | inSet
  | readHi
  | readEntryIndex
  | readWalIndex

def setFence (s : State) (f : Nat) (req : FenceReq) (pc : FencePc) : State :=
  { s with fenceReqs := s.fenceReqs.put f { req with pc } }

def memMark (s : State) (ledger : Nat) : Nat := (s.hiEntry.get ledger).getD 0

def entryMark (s : State) (ledger : Nat) : Nat := s.entryIndex.getNextEntryId ledger - 1

def walMark (s : State) (ledger : Nat) : Nat := s.walIndex.getNextEntryId ledger - 1

/-- What a fence returns when nothing happens between its three reads. -/
def highMark (s : State) (ledger : Nat) : Nat :=
  max (memMark s ledger) (max (entryMark s ledger) (walMark s ledger))

def stepFence (s : State) (f : Nat) (a : FenceAct) : Option State :=
  match a, s.fenceReqs.get f with
  | .invoke ledger, none => some { s with fenceReqs := s.fenceReqs.put f ⟨ledger, .started⟩ }
  | .durable, some ⟨ledger, .started⟩ =>
    some (setFence { s with entryIndex := s.entryIndex.fenceLedger ledger } f
      ⟨ledger, .started⟩ .durable)
  | .inSet, some ⟨ledger, .durable⟩ =>
    some (setFence { s with fences := ledger :: s.fences } f ⟨ledger, .durable⟩ .inSet)
  | .readHi, some ⟨ledger, .inSet⟩ =>
    some (setFence s f ⟨ledger, .inSet⟩ (.readHi (memMark s ledger)))
  | .readEntryIndex, some ⟨ledger, .readHi memHi⟩ =>
    some (setFence s f ⟨ledger, .readHi memHi⟩ (.readEntry memHi (entryMark s ledger)))
  | .readWalIndex, some ⟨ledger, .readEntry memHi hiEntry⟩ =>
    some (setFence s f ⟨ledger, .readEntry memHi hiEntry⟩
      (.returned (max memHi (max hiEntry (walMark s ledger)))))
  | _, _ => none

end FenceLedger

section Seal

inductive SealAct where
  | rename
  | upsert
  | reopen

def stepSeal (s : State) (a : SealAct) : Option State :=
  match a, s.sealing with
  | .rename, .open =>
    (s.walFiles.get .activeSeg).map fun keys =>
      { s with
        walFiles := (s.walFiles.del .activeSeg).put (.sealedSeg s.segId) keys
        sealing := .renamed }
  | .upsert, .renamed =>
    some { s with
      walRegistry := SegmentRegistry.upsert s.walRegistry
        { id := s.segId, kind := .Wal, status := .Local, localPath := some (.sealedSeg s.segId),
          s3Key := none, byteLen := 0 }
      sealing := .upserted }
  | .reopen, .upserted =>
    some { s with
      walFiles := s.walFiles.put .activeSeg ((s.walFiles.get .activeSeg).getD [])
      walRegistry := SegmentRegistry.upsert s.walRegistry
        { id := s.segId + 1, kind := .Wal, status := .Active, localPath := some .activeSeg,
          s3Key := none, byteLen := 0 }
      segId := s.segId + 1
      sealing := .open }
  | _, _ => none

end Seal

section FlushLoop

inductive FlushAct where
  | drain (order : List (Key × Bytes))
  | write
  | index (segId offset length : Nat)
  | unlink
  | evict
  | stop

/-- The flush loop: drain hot, write and sync, then move the entries one by one from
`wal_index` to `entry_index`. It ends for good on its first error. -/
def stepFlush (s : State) (a : FlushAct) : Option State :=
  if s.flush.stopped then none
  else match a, s.flush.pending with
    | .drain order, [] =>
      if order.isPerm s.cache.hot.entries then
        some { s with
          cache := s.cache.drainHotToWarm order
          flush := { s.flush with pending := order, synced := false, indexed := false } }
      else none
    | .write, _ :: _ =>
      if s.flush.synced then none else some { s with flush := { s.flush with synced := true } }
    | .index segId offset length, (k, _) :: _ =>
      if s.flush.synced && !s.flush.indexed then
        some { s with
          entryIndex := s.entryIndex.insertLocation k segId offset length
          flush := { s.flush with indexed := true } }
      else none
    | .unlink, (k, _) :: rest =>
      if s.flush.indexed then
        some { s with
          walIndex := s.walIndex.deleteLocation k
          flush := { s.flush with pending := rest, indexed := false } }
      else none
    | .evict, [] => some { s with cache := s.cache.evictWarm }
    | .stop, _ => some { s with flush := { s.flush with stopped := true } }
    | _, _ => none

end FlushLoop

section WalGc

/-- `pressure`, the file's age and the result of `remove_file` are the environment's. -/
inductive GcAct where
  | start (pressure : Bool)
  | listLocal
  | visit (old removed : Bool)
  | done

def gcRemoves (pressure : Bool) (ids : List SegmentId) (m : SegmentMeta) (old removed : Bool) :
    Bool :=
  decide (m.id ∉ ids) && (m.localPath.isNone || (pressure || old) && removed)

/-- `cas_status(Local, Deleted)`. -/
def markDeleted (registry : SegmentRegistry) (id : SegmentId) : SegmentRegistry :=
  match registry.get id with
  | some row =>
    if row.status = .Local then SegmentRegistry.upsert registry { row with status := .Deleted }
    else registry
  | none => registry

def removeFile (files : Table SegPath (List Key)) (path : Option SegPath) :
    Table SegPath (List Key) :=
  match path with
  | some p => files.del p
  | none => files

def stepGc (s : State) (a : GcAct) : Option State :=
  match a, s.gc with
  | .start pressure, .idle =>
    some { s with gc := .needed pressure s.walIndex.referencedSegmentIds }
  | .listLocal, .needed pressure ids =>
    some { s with gc := .visiting pressure ids (SegmentRegistry.listByStatus s.walRegistry .Local) }
  | .visit old removed, .visiting pressure ids (m :: todo) =>
    if gcRemoves pressure ids m old removed then
      some { s with
        walFiles := removeFile s.walFiles m.localPath
        walRegistry := markDeleted s.walRegistry m.id
        gc := .visiting pressure ids todo }
    else some { s with gc := .visiting pressure ids todo }
  | .done, .visiting _ _ [] => some { s with gc := .idle }
  | _, _ => none

end WalGc

inductive Act where
  | add (c : Nat) (a : AddAct)
  | fence (f : Nat) (a : FenceAct)
  | sealWal (a : SealAct)
  | flush (a : FlushAct)
  | gc (a : GcAct)

def step (env : Env) (s : State) : Act → Option State
  | .add c a => stepAdd env s c a
  | .fence f a => stepFence s f a
  | .sealWal a => stepSeal s a
  | .flush a => stepFlush s a
  | .gc a => stepGc s a

section Runs

def newNode : State where
  adds := .empty
  fenceReqs := .empty
  fences := []
  knownLedgers := []
  hiEntry := .empty
  lac := .empty
  walIndex := .empty
  entryIndex := .empty
  cache := .new 4194304
  walFiles := Table.empty.put .activeSeg []
  walRegistry := Table.empty.put 0 ⟨0, .Wal, .Active, some .activeSeg, none, 0⟩
  segId := 0
  sealing := .open
  flush := ⟨[], false, false, false⟩
  gc := .idle
  nodeId := "n1"

def plainEnv : Env := ⟨Crc32.crc32, fun _ _ => true, Entry.data⟩

/-- An entry of ledger 1 without data; the CRC-32 of no bytes is 0. -/
def emptyEntry (entryId : Nat) : Entry := ⟨1, entryId, 0, 0, [], none, none⟩

def addActs (c : Nat) (e : Entry) : List Act :=
  [.add c (.invoke e), .add c .fenceCheck, .add c .register, .add c .dupCheck,
    .add c (.journal .ok), .add c .mark, .add c .cache]

end Runs
end Folio.Node
