import Folio.LedgerClient
import Folio.TransitionSystem

/-! One writer of a ledger, its storage nodes, any number of `fence_and_seal` calls on the
ledger and the metadata store, interleaved at every remote call. -/
namespace Folio.Cluster
open KeyedTable Protocol Metadata LedgerClient

inductive Delivery where
  | delivered
  | lostRequest (e : FolioError)
  | lostReply (e : FolioError)
  deriving DecidableEq

def Delivery.send {σ α : Type} (d : Delivery) (call : σ × Except FolioError α) (s : σ) :
    σ × Except FolioError α :=
  match d with
  | .delivered => call
  | .lostRequest e => (s, .error e)
  | .lostReply e => (call.1, .error e)

theorem Delivery.delivered_of_ok {σ α : Type} {d : Delivery} {call : σ × Except FolioError α}
    {s : σ} {a : α} (h : (d.send call s).2 = .ok a) : d = .delivered := by
  cases d with
  | delivered => rfl
  | lostRequest e => cases h
  | lostReply e => cases h

/-- One pass of the loop of `do_append`; a slot is filled when its node's call has ended. -/
structure Attempt where
  number : Nat
  entry : Entry
  fragment : Fragment
  slots : List (NodeId × Option (Except FolioError AppendAck))

namespace Attempt

def acks (a : Attempt) : List AppendAck :=
  a.slots.filterMap fun s => s.2.bind Except.toOption

def isFailed (s : NodeId × Option (Except FolioError AppendAck)) : Bool :=
  match s.2 with
  | some (.error _) => true
  | _ => false

def failed (a : Attempt) : List NodeId := (a.slots.filter isFailed).map Prod.fst

def isFenced (s : NodeId × Option (Except FolioError AppendAck)) : Bool :=
  match s.2 with
  | some (.error (.ledgerFenced _)) => true
  | _ => false

def fenced (a : Attempt) : Bool := a.slots.any isFenced

def isOver (a : Attempt) : Bool := a.slots.all fun s => s.2.isSome

def fill (a : Attempt) (i : Nat) (n : NodeId) (r : Except FolioError AppendAck) : Attempt :=
  { a with slots := a.slots.set i (n, some r) }

end Attempt

/-- What follows a `change_fragment`: another attempt, or the return of a finished append. -/
inductive AfterChange where
  | retry
  | done
  deriving DecidableEq

inductive WriterPc where
  | idle
  | sending (a : Attempt)
  | listing (a : Attempt) (after : AfterChange)
  | putting (a : Attempt) (after : AfterChange)

/-- `afterSeal`: a `fence_and_seal` had returned `Ok` before the append was called. -/
structure Reply where
  data : Bytes
  afterSeal : Bool
  result : Except FolioError Nat
  deriving DecidableEq

structure Writer where
  handle : LedgerHandle
  pc : WriterPc
  afterSeal : Bool
  replies : List Reply

inductive FencerPc where
  | started
  | fallback
  | fencing (m : LedgerMetadata) (todo : List NodeId) (lacs : List Nat)
  | returned (result : Except FolioError LedgerMetadata)
  deriving DecidableEq

/-- `ackedBefore` are the ids appends had returned when the call was made. -/
structure Fencer where
  pc : FencerPc
  ackedBefore : List Nat
  deriving DecidableEq

structure State where
  store : Store
  replicas : Table NodeId Replica
  writer : Writer
  fencers : Table Nat Fencer

def State.replica (s : State) (n : NodeId) : Replica := (s.replicas.get n).getD .empty

def State.ledger (s : State) : Nat := s.writer.handle.metadata.id

def fencedIn (s : State) (n : NodeId) : Prop := s.ledger ∈ (s.replica n).fences

def Reply.ackedId (r : Reply) : Option Nat := r.result.toOption

def isSealed (f : Fencer) : Bool :=
  match f.pc with
  | .returned (.ok _) => true
  | _ => false

section Writer
variable (crc32 : Bytes → UInt32)

def reply (w : Writer) (data : Bytes) (result : Except FolioError Nat) : Writer :=
  { w with pc := .idle, replies := ⟨data, w.afterSeal, result⟩ :: w.replies }

def withMetadata (w : Writer) (m : LedgerMetadata) : Writer :=
  { w with handle := { w.handle with metadata := m } }

def startAttempt (w : Writer) (number : Nat) (data : Bytes) : Writer :=
  match w.handle.metadata.fragments.getLast? with
  | none => reply w data (.error (.invalidFragment w.handle.metadata.id))
  | some fragment =>
    let entry := Entry.new crc32 w.handle.metadata.id w.handle.nextEntryId w.handle.lac data
    let slots := (fragment.ensemble.take fragment.writeQuorum).map fun n => (n, none)
    { w with pc := .sending { number, entry, fragment, slots } }

def startAppend (w : Writer) (data : Bytes) (afterSeal : Bool) : Writer :=
  let w := { w with afterSeal }
  if w.handle.metadata.state ≠ .Open then
    reply w data (.error (.stateConflict .Open w.handle.metadata.state))
  else startAttempt crc32 w 0 data

/-- What `do_append` does once all calls of an attempt have ended. -/
def decideAttempt (w : Writer) (a : Attempt) : Writer :=
  if a.fenced then reply w a.entry.data (.error (.ledgerFenced a.entry.ledgerId))
  else if a.fragment.ackQuorum ≤ a.acks.length then
    let w := { w with handle := w.handle.commit a.acks a.entry.entryId }
    if a.failed ≠ [] then { w with pc := .listing a .done }
    else reply w a.entry.data (.ok a.entry.entryId)
  else if a.failed ≠ [] ∧ a.number = 0 then { w with pc := .listing a .retry }
  else reply w a.entry.data (.error (.quorumNotMet a.fragment.ackQuorum a.acks.length))

/-- The end of a `change_fragment`. Its failure is not reported after a finished append. -/
def endChange (w : Writer) (a : Attempt) (after : AfterChange) (ok : Bool) : Writer :=
  match after, ok with
  | .done, _ => reply w a.entry.data (.ok a.entry.entryId)
  | .retry, true => startAttempt crc32 w (a.number + 1) a.entry.data
  | .retry, false =>
    reply w a.entry.data (.error (.quorumNotMet a.fragment.ackQuorum a.acks.length))

/-- `change_fragment` up to its `put_ledger`: the new fragment is pushed into the handle's
own metadata first. -/
def pushFragment (w : Writer) (a : Attempt) (after : AfterChange)
    (nodes : Except FolioError (List NodeInfo)) : Writer :=
  match nodes.bind fun ns => newFragment w.handle.metadata a.failed ns w.handle.nextEntryId with
  | .error _ => endChange crc32 w a after false
  | .ok f =>
    let m := { w.handle.metadata with fragments := w.handle.metadata.fragments ++ [f] }
    { withMetadata w m with pc := .putting a after }

def deliverAdd (s : State) (n : NodeId) (e : Entry) (d : Delivery) :
    Replica × Except FolioError AppendAck :=
  d.send ((s.replica n).addEntry crc32 n e) (s.replica n)

def afterDeliver (s : State) (n : NodeId) (e : Entry) (d : Delivery) (writer : Writer) : State :=
  { s with replicas := s.replicas.put n (deliverAdd crc32 s n e d).1, writer }

inductive WriterAct where
  | append (data : Bytes)
  | deliver (i : Nat) (d : Delivery)
  | decide
  | listNodes (d : Delivery)
  | putLedger (d : Delivery)

def stepWriter (s : State) (a : WriterAct) : Option State :=
  match a, s.writer.pc with
  | .append data, .idle =>
    some { s with writer := startAppend crc32 s.writer data (s.fencers.values.any isSealed) }
  | .deliver i d, .sending a =>
    match a.slots[i]? with
    | some (n, none) =>
      some (afterDeliver crc32 s n a.entry d { s.writer with
        pc := .sending (a.fill i n (deliverAdd crc32 s n a.entry d).2) })
    | _ => none
  | .decide, .sending a =>
    if a.isOver then some { s with writer := decideAttempt s.writer a } else none
  | .listNodes d, .listing a after =>
    let nodes := (d.send (s.store, .ok s.store.listNodes) s.store).2
    some { s with writer := pushFragment crc32 s.writer a after nodes }
  | .putLedger d, .putting a after =>
    let r := d.send (s.store.putLedger s.writer.handle.metadata) s.store
    match r.2 with
    | .ok m =>
      some { s with
        store := r.1
        writer := endChange crc32 (withMetadata s.writer m) a after true }
    | .error _ => some { s with store := r.1, writer := endChange crc32 s.writer a after false }
  | _, _ => none

end Writer

section FenceAndSeal

def startFencing (m : LedgerMetadata) : FencerPc :=
  match m.fragments.getLast? with
  | none => .returned (.error (.invalidFragment m.id))
  | some fragment => .fencing m fragment.ensemble []

/-- The metadata `fence_and_seal` writes; `checked_sub` gives `None` for 0. -/
def sealedMetadata (m : LedgerMetadata) (lacs : List Nat) : LedgerMetadata :=
  let lac := lacs.max?.getD 0
  { m with
    state := .Closed
    lastAddConfirmed := lac
    lastEntryId := if lac = 0 then none else some (lac - 1) }

def deliverFence (s : State) (n : NodeId) (d : Delivery) : Replica × Except FolioError Nat :=
  d.send ((s.replica n).fenceLedger s.ledger) (s.replica n)

inductive FencerAct where
  | invoke
  | transition (d : Delivery)
  | getLedger (d : Delivery)
  | fence (d : Delivery)
  | putLedger (d : Delivery)

def stepFencer (s : State) (c : Nat) (a : FencerAct) : Option State :=
  match a, s.fencers.get c with
  | .invoke, none =>
    some { s with fencers := s.fencers.put c ⟨.started, s.writer.replies.filterMap Reply.ackedId⟩ }
  | .transition d, some ⟨.started, acked⟩ =>
    let r := d.send (s.store.transitionState s.ledger .Open .InRecovery) s.store
    let pc := match r.2 with
      | .ok m => startFencing m
      | .error _ => .fallback
    some { s with store := r.1, fencers := s.fencers.put c ⟨pc, acked⟩ }
  | .getLedger d, some ⟨.fallback, acked⟩ =>
    let pc := match (d.send (s.store, s.store.getLedger s.ledger) s.store).2 with
      | .ok m => startFencing m
      | .error e => .returned (.error e)
    some { s with fencers := s.fencers.put c ⟨pc, acked⟩ }
  | .fence d, some ⟨.fencing m (n :: todo) lacs, acked⟩ =>
    let r := deliverFence s n d
    let pc := match r.2 with
      | .ok lac => .fencing m todo (lacs ++ [lac])
      | .error e => .returned (.error e)
    some { s with replicas := s.replicas.put n r.1, fencers := s.fencers.put c ⟨pc, acked⟩ }
  | .putLedger d, some ⟨.fencing m [] lacs, acked⟩ =>
    let r := d.send (s.store.putLedger (sealedMetadata m lacs)) s.store
    some { s with store := r.1, fencers := s.fencers.put c ⟨.returned r.2, acked⟩ }
  | _, _ => none

end FenceAndSeal

inductive Act where
  | writer (a : WriterAct)
  | fencer (c : Nat) (a : FencerAct)
  | register (n : NodeInfo)
  | expire (n : NodeId)

def step (crc32 : Bytes → UInt32) (s : State) : Act → Option State
  | .writer a => stepWriter crc32 s a
  | .fencer c a => stepFencer s c a
  | .register n => some { s with store := s.store.registerNode n }
  | .expire n => some { s with store := s.store.expireNode n }

section Runs

def newCluster (m : LedgerMetadata) (nodes : Table NodeId NodeStatus) : State where
  store := ⟨m.id, Table.empty.put m.id m, nodes⟩
  replicas := .empty
  writer := ⟨.new m, .idle, false, []⟩
  fencers := .empty

def newLedger (ensemble : List NodeId) (writeQuorum ackQuorum : Nat) : LedgerMetadata :=
  ⟨1, .Open, [⟨0, ensemble, writeQuorum, ackQuorum⟩], none, 0, 1⟩

def appendCall (data : Bytes) (ds : List Delivery) : List WriterAct :=
  .append data :: ds.zipIdx.map (fun d => .deliver d.2 d.1) ++ [.decide]

def appendActs (data : Bytes) (ds : List Delivery) : List Act := (appendCall data ds).map .writer

def changeActs : List Act := [.writer (.listNodes .delivered), .writer (.putLedger .delivered)]

/-- A `fence_and_seal` on a fragment of `members` nodes, with nothing lost. -/
def sealActs (members : Nat) : List Act :=
  [.fencer 0 .invoke, .fencer 0 (.transition .delivered)] ++
    List.replicate members (.fencer 0 (.fence .delivered)) ++ [.fencer 0 (.putLedger .delivered)]

def oneNode : LedgerMetadata := newLedger ["n0"] 1 1

def unreachable : Delivery := .lostRequest (.storage "gRPC unavailable")

end Runs
end Folio.Cluster
