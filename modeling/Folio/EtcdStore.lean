import Folio.Linearization
import Folio.Metadata
import Folio.RevisionStore

/-! The metadata store on etcd. Every method is a program of gets and guarded transactions,
and any number of clients run them at the same time. -/
namespace Folio.EtcdStore
open Protocol Metadata RevisionStore RemoteProgram Linearization
variable {β : Type}

structure Stamped where
  metadata : LedgerMetadata
  createdAtMs : Nat
  updatedAtMs : Nat
  deriving DecidableEq, Repr

/-- `/folio/id-gen` and `/folio/ledgers/<id>`. -/
inductive Key where
  | idGen
  | ledger (id : Nat)
  deriving DecidableEq, Repr

/-- The encodings of a ledger and of the last id as stored values. -/
structure Codec (β : Type) where
  encode : Stamped → β
  decode : β → Except FolioError Stamped
  print : Nat → β
  parse : β → Except FolioError Nat
  decode_encode : ∀ m, decode (encode m) = .ok m
  encode_decode : ∀ b m, decode b = .ok m → encode m = b
  parse_print : ∀ n < UInt64.size, parse (print n) = .ok n

abbrev Etcd (β : Type) := RevStore Key β

section Requests

inductive Op (β : Type) where
  | get (k : Key)
  | txn (c : Compare Key β) (k : Key) (v : β)
  | delete (k : Key)
  | now

def Op.Reply : Op β → Type
  | .get _ => Option (Row β)
  | .txn _ _ _ => Bool
  | .delete _ => Unit
  | .now => Nat

abbrev Requests (β : Type) : Interface := ⟨Op β, Op.Reply⟩

abbrev Client (β α : Type) := Prog (Requests β) FolioError α

abbrev ask (o : Op β) : Client β o.Reply := Prog.request (I := Requests β) o

/-- Every request is answered; the clock shows any time. -/
def answer [DecidableEq β] (clock : Nat) (e : Etcd β) :
    (o : Op β) → Etcd β × Except FolioError o.Reply
  | .get k => (e, .ok (e.rows.get k))
  | .txn c k v => ((e.txn c k v).1, .ok (e.txn c k v).2)
  | .delete k => (e.delete k, .ok ())
  | .now => (e, .ok clock)

end Requests

section Methods
variable (codec : Codec β)

def idGenCasRetries : Nat := 32

/-- The `u64` overflow of `current + 1` is an error that writes nothing. -/
def nextId : Option (Row β) → Except FolioError (Nat × Compare Key β)
  | some kv => (codec.parse kv.value).bind fun current =>
      if current + 1 < UInt64.size then .ok (current + 1, .modRevision .idGen kv.modRevision)
      else .error (.metadata "attempt to add with overflow")
  | none => .ok (1, .createRevision .idGen 0)

def nextLedgerIdLoop : Nat → Client β Nat
  | 0 => throw .casConflict
  | retries + 1 => do
    let kv ← ask (.get .idGen)
    let (next, compare) ← .done (nextId codec kv)
    let succeeded : Bool ← ask (.txn compare .idGen (codec.print next))
    if succeeded then pure next else nextLedgerIdLoop retries

def nextLedgerId : Client β Nat := nextLedgerIdLoop codec idGenCasRetries

def createLedger (o : LedgerOptions) (ensemble : List NodeId) : Client β Stamped := do
  Prog.done o.validate
  let ledgerId ← nextLedgerId codec
  let now : Nat ← ask .now
  let metadata : Stamped := ⟨newMetadata ledgerId o ensemble, now, now⟩
  let succeeded : Bool ← ask (.txn (.createRevision (.ledger ledgerId) 0) (.ledger ledgerId)
    (codec.encode metadata))
  if !succeeded then throw .casConflict
  pure metadata

def decodeLedger (ledgerId : Nat) : Option (Row β) → Except FolioError Stamped
  | some kv => codec.decode kv.value
  | none => .error (.ledgerNotFound ledgerId)

def getLedger (ledgerId : Nat) : Client β Stamped := do
  let kv ← ask (.get (.ledger ledgerId))
  .done (decodeLedger codec ledgerId kv)

/-- The next version of `m`, put in the place of what was read. -/
def replaceLedger (ledgerId : Nat) (current m : Stamped) : Client β Stamped := do
  let now : Nat ← ask .now
  let updated : Stamped :=
    ⟨{ m.metadata with version := m.metadata.version + 1 }, m.createdAtMs, now⟩
  let succeeded : Bool ← ask (.txn (.value (.ledger ledgerId) (codec.encode current))
    (.ledger ledgerId) (codec.encode updated))
  if !succeeded then throw .casConflict
  pure updated

def putLedger (m : Stamped) : Client β Stamped := do
  let current ← getLedger codec m.metadata.id
  if current.metadata.version ≠ m.metadata.version then throw .casConflict
  replaceLedger codec m.metadata.id current m

def transitionState (ledgerId : Nat) (expected next : LedgerState) : Client β Stamped := do
  let current ← getLedger codec ledgerId
  if current.metadata.state ≠ expected then
    throw (.stateConflict expected current.metadata.state)
  replaceLedger codec ledgerId current
    { current with metadata := { current.metadata with state := next } }

def deleteLedger (ledgerId : Nat) : Client β Unit := ask (.delete (.ledger ledgerId))

end Methods

inductive Call where
  | nextLedgerId
  | createLedger (o : LedgerOptions) (ensemble : List NodeId)
  | putLedger (m : Stamped)
  | transitionState (ledgerId : Nat) (expected next : LedgerState)
  | deleteLedger (ledgerId : Nat)
  deriving DecidableEq, Repr

inductive Value where
  | id (ledgerId : Nat)
  | ledger (m : Stamped)
  | unit
  deriving DecidableEq, Repr

def Call.body (codec : Codec β) : Call → Client β Value
  | .nextLedgerId => Value.id <$> EtcdStore.nextLedgerId codec
  | .createLedger o ensemble => Value.ledger <$> EtcdStore.createLedger codec o ensemble
  | .putLedger m => Value.ledger <$> EtcdStore.putLedger codec m
  | .transitionState ledgerId expected next =>
    Value.ledger <$> EtcdStore.transitionState codec ledgerId expected next
  | .deleteLedger ledgerId => (fun _ => Value.unit) <$> EtcdStore.deleteLedger ledgerId

inductive MemOp where
  | nextLedgerId
  | insertLedger (m : LedgerMetadata)
  | putLedger (m : LedgerMetadata)
  | transitionState (ledgerId : Nat) (expected next : LedgerState)
  | deleteLedger (ledgerId : Nat)
  deriving DecidableEq, Repr

inductive MemValue where
  | id (ledgerId : Nat)
  | ledger (m : LedgerMetadata)
  | unit
  deriving DecidableEq, Repr

def MemOp.apply (st : Store) : MemOp → Store × Except FolioError MemValue
  | .nextLedgerId => (st.nextLedgerId.1, .ok (.id st.nextLedgerId.2))
  | .insertLedger m => (st.insertLedger m, .ok (.ledger m))
  | .putLedger m => ((st.putLedger m).1, (st.putLedger m).2.map .ledger)
  | .transitionState ledgerId expected next =>
    ((st.transitionState ledgerId expected next).1,
      (st.transitionState ledgerId expected next).2.map .ledger)
  | .deleteLedger ledgerId => (st.deleteLedger ledgerId, .ok .unit)

def MemOp.accepted (st : Store) (op : MemOp) : Option (Store × MemValue) :=
  match (op.apply st).2 with
  | .ok v => some ((op.apply st).1, v)
  | .error _ => none

def written : Call → Key → Option MemOp
  | _, .idGen => some .nextLedgerId
  | .createLedger o ensemble, .ledger id => some (.insertLedger (newMetadata id o ensemble))
  | .putLedger m, .ledger _ => some (.putLedger m.metadata)
  | .transitionState ledgerId expected next, .ledger _ =>
    some (.transitionState ledgerId expected next)
  | .deleteLedger ledgerId, .ledger _ => some (.deleteLedger ledgerId)
  | .nextLedgerId, .ledger _ => none

section System

def emit (call : Call) : (o : Op β) → Except FolioError o.Reply → Option MemOp
  | .txn _ k _, .ok true => written call k
  | .delete k, .ok () => written call k
  | _, _ => none

def clients [DecidableEq β] (codec : Codec β) :
    System (Requests β) FolioError Value (Etcd β) Nat MemOp Call where
  answer := answer
  body := Call.body codec
  emit := emit

abbrev State (β : Type) :=
  Linearization.State (Requests β) FolioError Value (Etcd β) MemOp Call

end System
end Folio.EtcdStore
