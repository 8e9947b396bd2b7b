import Mathlib.Data.List.Basic

/-! Shared protocol types of the ledger service. Wall-clock stamps, node addresses
and heartbeats are left out: no modelled decision reads them. -/
namespace Folio.Protocol

abbrev NodeId := String
abbrev Bytes := List UInt8

inductive LedgerState where
  | Open | InRecovery | Closed | Deleted
  deriving DecidableEq, Repr

inductive NodeStatus where
  | ReadWrite | ReadOnly | Recovering | Unavailable
  deriving DecidableEq, Repr

inductive FolioError where
  | ledgerNotFound (ledgerId : Nat)
  | entryNotFound (ledgerId entryId : Nat)
  | ledgerFenced (ledgerId : Nat)
  | quorumNotMet (required received : Nat)
  | stateConflict (expected found : LedgerState)
  | casConflict
  | invalidFragment (ledgerId : Nat)
  | invalidEntryId (expected entryId : Nat)
  | lacTimeout
  | io (msg : String)
  | serialization (msg : String)
  | metadata (msg : String)
  | storage (msg : String)
  deriving DecidableEq, Repr

structure NodeInfo where
  nodeId : NodeId
  status : NodeStatus
  deriving DecidableEq, Repr

structure Fragment where
  firstEntryId : Nat
  ensemble : List NodeId
  writeQuorum : Nat
  ackQuorum : Nat
  deriving DecidableEq, Repr

structure LedgerMetadata where
  id : Nat
  state : LedgerState
  fragments : List Fragment
  lastEntryId : Option Nat
  lastAddConfirmed : Nat
  version : Nat
  deriving DecidableEq, Repr

structure LedgerOptions where
  ensembleSize : Nat
  writeQuorum : Nat
  ackQuorum : Nat
  deriving DecidableEq, Repr

def LedgerOptions.validate (o : LedgerOptions) : Except FolioError Unit :=
  if o.ensembleSize = 0 then
    .error (.metadata "ensemble size must be greater than zero")
  else if o.writeQuorum = 0 ∨ o.ackQuorum = 0 then
    .error (.metadata "quorums must be greater than zero")
  else if o.ackQuorum > o.writeQuorum ∨ o.writeQuorum > o.ensembleSize then
    .error (.metadata "quorum sizes must satisfy ack <= write <= ensemble")
  else .ok ()

/-- Master keys and HMAC tags, `[u8; 32]`. -/
abbrev Key32 := { b : Bytes // b.length = 32 }

structure Entry where
  ledgerId : Nat
  entryId : Nat
  lac : Nat
  digest : Nat
  data : Bytes
  masterKey : Option Key32
  hmac : Option Key32
  deriving DecidableEq, Repr

def Entry.new (crc32 : Bytes → UInt32) (ledgerId entryId lac : Nat) (data : Bytes) : Entry :=
  { ledgerId, entryId, lac, digest := (crc32 data).toNat, data, masterKey := none, hmac := none }

def Entry.validateDigest (crc32 : Bytes → UInt32) (e : Entry) : Bool :=
  (crc32 e.data).toNat == e.digest

def Entry.key (e : Entry) : Nat × Nat := (e.ledgerId, e.entryId)

structure AppendAck where
  ledgerId : Nat
  entryId : Nat
  localLac : Nat
  nodeId : NodeId
  deriving DecidableEq, Repr

end Folio.Protocol
