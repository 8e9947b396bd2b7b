import Folio.Cluster
import Folio.RemoteProgram

/-! The recovery manager, its worker and the node watcher: programs that act by requests to
the metadata store and to the storage nodes. -/
namespace Folio.Recovery
open KeyedTable Protocol Metadata LedgerClient RemoteProgram
open Cluster (Delivery sealedMetadata)

/-- What the requests act on. `resolver` is the node map of the `NodeResolver`. -/
structure World where
  store : Store
  replicas : Table NodeId Replica
  resolver : List NodeId

def World.replica (w : World) (n : NodeId) : Replica := (w.replicas.get n).getD .empty

def World.setReplica (w : World) (n : NodeId) (r : Replica) : World :=
  { w with replicas := w.replicas.put n r }

inductive Op where
  | getLedger (ledgerId : Nat)
  | putLedger (m : LedgerMetadata)
  | transitionState (ledgerId : Nat) (expected next : LedgerState)
  | listLedgers
  | listNodes
  | resolve (n : NodeId)
  | fenceLedger (n : NodeId) (ledgerId : Nat)
  | readEntry (n : NodeId) (ledgerId entryId : Nat)
  | addEntry (n : NodeId) (e : Entry)
  deriving DecidableEq

abbrev Op.Reply : Op → Type
  | .getLedger _ | .putLedger _ | .transitionState _ _ _ => LedgerMetadata
  | .listLedgers => List LedgerMetadata
  | .listNodes => List NodeInfo
  | .resolve _ => Unit
  | .fenceLedger _ _ => Nat
  | .readEntry _ _ _ => Entry
  | .addEntry _ _ => AppendAck

abbrev Service : Interface := ⟨Op, Op.Reply⟩

abbrev Remote (α : Type) : Type := Prog Service FolioError α

section Requests
variable (crc32 : Bytes → UInt32)

def withStore {α : Type} (w : World) (r : Store × Except FolioError α) :
    World × Except FolioError α :=
  ({ w with store := r.1 }, r.2)

def withReplica {α : Type} (w : World) (n : NodeId) (r : Replica × Except FolioError α) :
    World × Except FolioError α :=
  (w.setReplica n r.1, r.2)

def perform (w : World) : (o : Op) → World × Except FolioError o.Reply
  | .getLedger ledgerId => (w, w.store.getLedger ledgerId)
  | .putLedger m => withStore w (w.store.putLedger m)
  | .transitionState ledgerId expected next =>
    withStore w (w.store.transitionState ledgerId expected next)
  | .listLedgers => (w, .ok w.store.listLedgers)
  | .listNodes => (w, .ok w.store.listNodes)
  | .resolve n =>
    (w, if n ∈ w.resolver then .ok () else .error (.metadata s!"unknown node: {n}"))
  | .fenceLedger n ledgerId => withReplica w n ((w.replica n).fenceLedger ledgerId)
  | .readEntry n ledgerId entryId => (w, (w.replica n).readEntry ledgerId entryId)
  | .addEntry n e => withReplica w n ((w.replica n).addEntry crc32 n e)

def answer (d : Delivery) (w : World) (o : Op) : World × Except FolioError o.Reply :=
  d.send (perform crc32 w o) w

variable {crc32}

theorem answer_store {w : World} {o : Op} {d : Delivery} {r : Store × Except FolioError o.Reply}
    (h : perform crc32 w o = withStore w r) :
    answer crc32 d w o = ({ w with store := (d.send r w.store).1 }, (d.send r w.store).2) := by
  unfold answer
  rw [h]
  cases d <;> rfl

end Requests

section RecoveryManager

abbrev ask (o : Op) : Remote o.Reply := Prog.request (I := Service) o

def getLedger (ledgerId : Nat) : Remote LedgerMetadata := ask (.getLedger ledgerId)
def putLedger (m : LedgerMetadata) : Remote LedgerMetadata := ask (.putLedger m)
def listLedgers : Remote (List LedgerMetadata) := ask .listLedgers
def listNodes : Remote (List NodeInfo) := ask .listNodes
def resolve (n : NodeId) : Remote Unit := ask (.resolve n)

def initiateRecovery (ledgerId : Nat) : Remote LedgerMetadata :=
  ask (.transitionState ledgerId .Open .InRecovery)

def fenceAll (ledgerId : Nat) : List NodeId → Remote (List Nat)
  | [] => pure []
  | n :: ns => do
    resolve n
    let lac ← ask (.fenceLedger n ledgerId)
    let lacs ← fenceAll ledgerId ns
    pure (lac :: lacs)

def fenceAndSeal (ledgerId : Nat) : Remote LedgerMetadata := do
  let metadata ← tryCatch (initiateRecovery ledgerId) fun _ => getLedger ledgerId
  let fragment ← .okOr (.invalidFragment ledgerId) metadata.fragments.getLast?
  let lacs ← fenceAll ledgerId fragment.ensemble
  putLedger (sealedMetadata metadata lacs)

def sourceNode (fragment : Fragment) (failed : NodeId) : Option NodeId :=
  fragment.ensemble.find? fun n => decide (n ≠ failed)

def targetNode (fragment : Fragment) (failed : NodeId) (nodes : List NodeInfo) :
    Option NodeInfo :=
  nodes.find? fun n => decide (n.nodeId ≠ failed ∧ n.nodeId ∉ fragment.ensemble)

/-- Where the copied range ends: at the next fragment, or at the last confirmed entry, which
is not copied. -/
def endEntryId (m : LedgerMetadata) (fragment : Fragment) : Nat :=
  match m.fragments.find? fun f => decide (f.firstEntryId > fragment.firstEntryId) with
  | some f => f.firstEntryId
  | none => m.lastAddConfirmed

def copyEntry (ledgerId : Nat) (source target : NodeId) (entryId : Nat) : Remote Unit := do
  let read ← ask (.readEntry source ledgerId entryId)
  tryCatch (do let _ ← ask (.addEntry target read)) fun e =>
    match e with
    | .invalidEntryId _ _ => pure ()
    | e => throw e

def copyEntries (ledgerId : Nat) (source target : NodeId) : List Nat → Remote Unit
  | [] => pure ()
  | entryId :: rest => do
    copyEntry ledgerId source target entryId
    copyEntries ledgerId source target rest

/-- The first fragment that starts at `first` gets a new member list. -/
def replaceMember (failed target : NodeId) (first : Nat) : List Fragment → List Fragment
  | [] => []
  | f :: fs =>
    if f.firstEntryId = first then
      { f with ensemble := (f.ensemble.filter fun n => decide (n ≠ failed)) ++ [target] } :: fs
    else f :: replaceMember failed target first fs

def restoredMetadata (m : LedgerMetadata) (failed target : NodeId) (fragment : Fragment) :
    LedgerMetadata :=
  { m with fragments := replaceMember failed target fragment.firstEntryId m.fragments }

def restoreReplication (metadata : LedgerMetadata) (failed : NodeId) (fromEntryId : Nat) :
    Remote Unit := do
  let fragment ← .okOr (.invalidFragment metadata.id)
    (LedgerHandle.owner metadata.fragments fromEntryId)
  let source ← .okOr (.metadata "no surviving source node found") (sourceNode fragment failed)
  let nodes ← listNodes
  let target ← .okOr (.metadata "no healthy target node available")
    (targetNode fragment failed nodes)
  resolve source
  resolve target.nodeId
  copyEntries metadata.id source target.nodeId
    (List.range' fromEntryId (endEntryId metadata fragment - fromEntryId))
  let _ ← putLedger (restoredMetadata metadata failed target.nodeId fragment)

end RecoveryManager

section Watcher

def isNodeInEnsemble (m : LedgerMetadata) (n : NodeId) : Bool :=
  m.fragments.any fun f => f.ensemble.any fun x => x == n

/-- Every fragment is restored from the same copy of the metadata. -/
def restoreFragments (m : LedgerMetadata) (failed : NodeId) : List Fragment → Remote Unit
  | [] => pure ()
  | f :: fs => do
    if f.ensemble.any fun n => n == failed then
      restoreReplication m failed f.firstEntryId
    restoreFragments m failed fs

def restoreLedgers (failed : NodeId) : List LedgerMetadata → Remote Unit
  | [] => pure ()
  | m :: ms => do
    restoreFragments m failed m.fragments
    restoreLedgers failed ms

def handleNodeFailure (failed : NodeId) : Remote (List LedgerMetadata) := do
  let ledgers ← listLedgers
  let affected := ledgers.filter fun m => isNodeInEnsemble m failed
  restoreLedgers failed affected
  pure affected

end Watcher

section Worker

structure ReReplicationTask where
  ledgerId : Nat
  failedNodeId : NodeId
  fromEntryId : Nat
  deriving DecidableEq

def metadataFor (task : ReReplicationTask) : Remote LedgerMetadata := do
  let metadata ← getLedger task.ledgerId
  if metadata.state = .Open then fenceAndSeal task.ledgerId else pure metadata

def process (task : ReReplicationTask) : Remote Unit := do
  let metadata ← metadataFor task
  restoreReplication metadata task.failedNodeId task.fromEntryId

/-- Errors are logged and do not halt the worker. -/
def runTasks : List ReReplicationTask → Remote Unit
  | [] => pure ()
  | task :: tasks => do
    tryCatch (process task) fun _ => pure ()
    runTasks tasks

/-- The tasks `enqueue_for_node` sends for one ledger, given the registered nodes. -/
def tasksFor (failed : NodeId) (nodes : List NodeInfo) (m : LedgerMetadata) :
    List ReReplicationTask :=
  (m.fragments.filter fun f =>
    decide (failed ∈ f.ensemble) && (targetNode f failed nodes).isSome).map fun f =>
      ⟨m.id, failed, f.firstEntryId⟩

end Worker

section Client

def sealLedger (ledgerId finalLac : Nat) : Remote Unit := do
  let m ← getLedger ledgerId
  if m.state = .Closed then pure ()
  else
    let _ ← putLedger
      { m with state := .Closed, lastAddConfirmed := finalLac, lastEntryId := some finalLac }

end Client

section Metadata

def Quiet : Op → Prop
  | .putLedger _ | .transitionState _ _ _ => False
  | _ => True

theorem perform_quiet (crc32 : Bytes → UInt32) (w : World) {o : Op} (h : Quiet o) :
    (perform crc32 w o).1.store = w.store := by
  cases o <;> first | rfl | exact h.elim

theorem fenceAll_quiet (id : Nat) (ns : List NodeId) : (fenceAll id ns).Uses Quiet := by
  induction ns with
  | nil => exact Prog.uses_pure _
  | cons n ns ih =>
    refine (Prog.uses_request trivial).bind fun _ => ?_
    refine (Prog.uses_request trivial).bind fun lac => ?_
    exact ih.bind fun _ => Prog.uses_pure _

/-- What `restore_replication` does before it writes the metadata. -/
def restorePlan (m : LedgerMetadata) (failed : NodeId) (fromId : Nat) :
    Remote (NodeId × Fragment) := do
  let fragment ← .okOr (.invalidFragment m.id) (LedgerHandle.owner m.fragments fromId)
  let source ← .okOr (.metadata "no surviving source node found") (sourceNode fragment failed)
  let nodes ← listNodes
  let target ← .okOr (.metadata "no healthy target node available")
    (targetNode fragment failed nodes)
  resolve source
  resolve target.nodeId
  copyEntries m.id source target.nodeId
    (List.range' fromId (endEntryId m fragment - fromId))
  pure (target.nodeId, fragment)

theorem restoreReplication_eq (m : LedgerMetadata) (failed : NodeId) (fromId : Nat) :
    restoreReplication m failed fromId = restorePlan m failed fromId >>= fun plan =>
      putLedger (restoredMetadata m failed plan.1 plan.2) >>= fun _ => pure () := by
  simp only [restorePlan, Prog.bind_assoc]
  rfl

theorem restorePlan_uses {P : Op → Prop} (hnodes : P .listNodes) (hresolve : ∀ n, P (.resolve n))
    (hread : ∀ n l i, P (.readEntry n l i)) (hadd : ∀ n e, P (.addEntry n e))
    (m : LedgerMetadata) (failed : NodeId) (fromId : Nat) :
    (restorePlan m failed fromId).Uses P := by
  have hcopy (source target : NodeId) (ids : List Nat) :
      (copyEntries m.id source target ids).Uses P := by
    induction ids with
    | nil => exact Prog.uses_pure _
    | cons i ids ih =>
      refine Prog.Uses.bind ?_ fun _ => ih
      refine (Prog.uses_request (hread _ _ _)).bind fun e => ?_
      refine ((Prog.uses_request (hadd _ _)).bind fun _ => Prog.uses_pure _).handle fun err => ?_
      split
      · exact Prog.uses_pure _
      · exact Prog.uses_throw _
  refine (Prog.uses_okOr _ _).bind fun fragment => ?_
  refine (Prog.uses_okOr _ _).bind fun source => ?_
  refine (Prog.uses_request hnodes).bind fun nodes => ?_
  refine (Prog.uses_okOr _ _).bind fun target => ?_
  refine (Prog.uses_request (hresolve _)).bind fun _ => ?_
  refine (Prog.uses_request (hresolve _)).bind fun _ => ?_
  exact (hcopy _ _ _).bind fun _ => Prog.uses_pure _

theorem restorePlan_quiet (m : LedgerMetadata) (failed : NodeId) (fromId : Nat) :
    (restorePlan m failed fromId).Uses Quiet :=
  restorePlan_uses trivial (fun _ => trivial) (fun _ _ _ => trivial) (fun _ _ => trivial) ..

end Metadata

end Folio.Recovery
