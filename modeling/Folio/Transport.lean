import Folio.Protocol
import Folio.TextCodec

/-! The gRPC front of a storage node and the client that speaks to it. An error crosses the wire
as a status code and an English text, and is read back from both. -/
namespace Folio.Transport
open Protocol TextCodec

structure ReadResult where
  entry : Entry
  nodeId : NodeId
  appendedAtMs : Nat
  deriving DecidableEq

inductive Code where
  | InvalidArgument | DeadlineExceeded | NotFound | FailedPrecondition | Aborted | Internal
  | Unavailable
  deriving DecidableEq

structure Status where
  code : Code
  message : String
  deriving DecidableEq

structure ProtoEntry where
  ledgerId : Nat
  entryId : Nat
  lac : Nat
  digest : Nat
  data : Bytes
  masterKey : Bytes
  hmac : Bytes
  deriving DecidableEq

structure ReadEntryResponse where
  entry : Option ProtoEntry
  nodeId : NodeId
  appendedAtMs : Nat
  deriving DecidableEq

structure AddEntryResponse where
  ledgerId : Nat
  entryId : Nat
  localLac : Nat
  nodeId : NodeId
  deriving DecidableEq

/-- The calls of `JournalService` that are served, by their results. -/
structure JournalService where
  addEntry : Entry → Except FolioError AppendAck
  readEntry : Nat → Nat → Except FolioError ReadResult
  fenceLedger : Nat → Except FolioError Nat

section ErrorText

/-- `{:?}`. -/
def debugState : LedgerState → String
  | .Open => "Open"
  | .InRecovery => "InRecovery"
  | .Closed => "Closed"
  | .Deleted => "Deleted"

def display : FolioError → String
  | .ledgerNotFound id => "ledger not found: " ++ toString id
  | .entryNotFound ledgerId entryId =>
    "entry not found: ledger=" ++ toString ledgerId ++ " entry=" ++ toString entryId
  | .ledgerFenced id => "ledger is fenced: " ++ toString id
  | .quorumNotMet required received =>
    "quorum not met: required=" ++ toString required ++ " received=" ++ toString received
  | .stateConflict expected found =>
    "ledger state conflict: expected " ++ debugState expected ++ ", found " ++ debugState found
  | .casConflict => "compare-and-swap conflict"
  | .invalidFragment id => "invalid fragment for ledger " ++ toString id
  | .invalidEntryId expected entryId =>
    "invalid entry id " ++ toString entryId ++ "; expected " ++ toString expected
  | .lacTimeout => "timed out waiting for LAC"
  | .io msg => "io error: " ++ msg
  | .serialization msg => "serialization error: " ++ msg
  | .metadata msg => "metadata error: " ++ msg
  | .storage msg => "storage error: " ++ msg

def toStatus : FolioError → Status
  | .ledgerFenced id => ⟨.FailedPrecondition, "ledger " ++ toString id ++ " is fenced"⟩
  | .ledgerNotFound id => ⟨.NotFound, "ledger " ++ toString id ++ " not found"⟩
  | .entryNotFound ledgerId entryId =>
    ⟨.NotFound, "entry " ++ toString entryId ++ " not found in ledger " ++ toString ledgerId⟩
  | .quorumNotMet required received =>
    ⟨.Unavailable, "quorum not met: required=" ++ toString required ++
      " received=" ++ toString received⟩
  | .invalidEntryId expected entryId =>
    ⟨.InvalidArgument, "invalid entry_id " ++ toString entryId ++ ": expected " ++
      toString expected⟩
  | .casConflict => ⟨.Aborted, "compare-and-swap conflict"⟩
  | .lacTimeout => ⟨.DeadlineExceeded, "LAC wait timed out"⟩
  | .stateConflict expected found =>
    ⟨.FailedPrecondition, "state conflict: expected " ++ debugState expected ++
      " found " ++ debugState found⟩
  | other => ⟨.Internal, display other⟩

/-- `str::parse::<u64>`. -/
def parseU64 (s : List Char) : Option Nat := parseNat (2 ^ 64) s

/-- "ledger {id} is fenced", otherwise `Storage`. -/
def parseFenced (msg : String) : FolioError :=
  let fenced := do
    let rest ← stripFront "ledger ".toList msg.toList
    let (idStr, _) ← splitOnce " is fenced".toList rest
    parseU64 idStr
  match fenced with
  | some id => .ledgerFenced id
  | none => .storage ("precondition: " ++ msg)

/-- "entry {entry_id} not found in ledger {ledger_id}", otherwise `Storage`. -/
def parseNotFound (msg : String) : FolioError :=
  let missing := do
    let rest ← stripFront "entry ".toList msg.toList
    let (eidStr, tail) ← splitOnce " not found in ledger ".toList rest
    let entryId ← parseU64 eidStr
    let ledgerId ← parseU64 tail
    pure (ledgerId, entryId)
  match missing with
  | some (ledgerId, entryId) => .entryNotFound ledgerId entryId
  | none => .storage ("not found: " ++ msg)

/-- `codeText` is the text gRPC has for a code. -/
def grpcErr (codeText : Code → String) (e : Status) : FolioError :=
  match e.code with
  | .FailedPrecondition => parseFenced e.message
  | .NotFound => parseNotFound e.message
  | .DeadlineExceeded => .lacTimeout
  | .Aborted => .casConflict
  | code => .storage ("gRPC " ++ codeText code ++ ": " ++ e.message)

end ErrorText

section Entries

/-- `Some` for exactly 32 bytes. -/
def key32 (b : Bytes) : Option Key32 := if h : b.length = 32 then some ⟨b, h⟩ else none

def keyBytes (k : Option Key32) : Bytes := (k.map Subtype.val).getD []

/-- `to_proto` of the client; `entry_to_proto` of the server is the same. -/
def toProto (e : Entry) : ProtoEntry where
  ledgerId := e.ledgerId
  entryId := e.entryId
  lac := e.lac
  digest := e.digest
  data := e.data
  masterKey := keyBytes e.masterKey
  hmac := keyBytes e.hmac

def entryToProto (e : Entry) : ProtoEntry := toProto e

/-- `from_proto_entry` of the client; `proto_to_entry` of the server is the same. -/
def fromProtoEntry (p : ProtoEntry) : Entry where
  ledgerId := p.ledgerId
  entryId := p.entryId
  lac := p.lac
  digest := p.digest
  data := p.data
  masterKey := key32 p.masterKey
  hmac := key32 p.hmac

def protoToEntry (p : ProtoEntry) : Entry := fromProtoEntry p

def ackToResp (a : AppendAck) : AddEntryResponse := ⟨a.ledgerId, a.entryId, a.localLac, a.nodeId⟩

def readToResp (r : ReadResult) : ReadEntryResponse :=
  ⟨some (entryToProto r.entry), r.nodeId, r.appendedAtMs⟩

end Entries

section Calls

/-- `JournalGrpcService`: requests of the wire in, responses or a status out. -/
structure GrpcService where
  addEntry : Option ProtoEntry → Except Status AddEntryResponse
  readEntry : Nat → Nat → Except Status ReadEntryResponse
  fenceLedger : Nat → Except Status Nat

def serve (svc : JournalService) : GrpcService where
  addEntry req := do
    let proto ← req.elim (.error ⟨.InvalidArgument, "missing entry"⟩) .ok
    let ack ← (svc.addEntry (protoToEntry proto)).mapError toStatus
    pure (ackToResp ack)
  readEntry ledgerId entryId := do
    let result ← (svc.readEntry ledgerId entryId).mapError toStatus
    pure (readToResp result)
  fenceLedger ledgerId := (svc.fenceLedger ledgerId).mapError toStatus

variable (codeText : Code → String)

/-- `JournalGrpcClient`, as a node for its callers. -/
def grpcClient (inner : GrpcService) : JournalService where
  addEntry entry := do
    let r ← (inner.addEntry (some (toProto entry))).mapError (grpcErr codeText)
    pure ⟨r.ledgerId, r.entryId, r.localLac, r.nodeId⟩
  readEntry ledgerId entryId := do
    let r ← (inner.readEntry ledgerId entryId).mapError (grpcErr codeText)
    let pe ← r.entry.elim (.error (.storage "empty read_entry response")) .ok
    pure ⟨fromProtoEntry pe, r.nodeId, r.appendedAtMs⟩
  fenceLedger ledgerId := (inner.fenceLedger ledgerId).mapError (grpcErr codeText)

/-- What a caller sees of an error on the other side. -/
def viaGrpc (e : FolioError) : FolioError := grpcErr codeText (toStatus e)

end Calls

section RoundTrips

theorem key32_keyBytes (k : Option Key32) : key32 (keyBytes k) = k := by
  cases k with
  | none => rfl
  | some k => simp [keyBytes, key32, k.property]

theorem fromProtoEntry_toProto (e : Entry) : fromProtoEntry (toProto e) = e := by
  simp [fromProtoEntry, toProto, key32_keyBytes]

theorem toList_toString (n : Nat) : (toString n).toList = decimal n := by
  rw [Nat.toString_eq_ofList_toDigits, String.toList_ofList]
  rfl

theorem parseU64_decimal {n : Nat} (h : n < 2 ^ 64) : parseU64 (decimal n) = some n :=
  parseNat_decimal h

theorem parseFenced_text {id : Nat} (h : id < 2 ^ 64) :
    parseFenced ("ledger " ++ toString id ++ " is fenced") = .ledgerFenced id := by
  have hsplit : splitOnce " is fenced".toList (decimal id ++ " is fenced".toList) =
      some (decimal id, []) := by
    have hfound := splitOnce_append (c := ' ') (u := decimal id) (v := []) "is fenced".toList
      (not_mem_decimal (by decide))
    simpa using hfound
  simp only [parseFenced, String.toList_append, toList_toString, List.append_assoc,
    stripFront_append, Option.bind_eq_bind, Option.bind_some, hsplit, parseU64_decimal h]

theorem parseNotFound_text {ledgerId entryId : Nat} (hl : ledgerId < 2 ^ 64)
    (he : entryId < 2 ^ 64) :
    parseNotFound ("entry " ++ toString entryId ++ " not found in ledger " ++ toString ledgerId) =
      .entryNotFound ledgerId entryId := by
  have hsplit : splitOnce " not found in ledger ".toList
      (decimal entryId ++ (" not found in ledger ".toList ++ decimal ledgerId)) =
        some (decimal entryId, decimal ledgerId) :=
    splitOnce_append (c := ' ') "not found in ledger ".toList (not_mem_decimal (by decide))
  simp only [parseNotFound, String.toList_append, toList_toString, List.append_assoc,
    stripFront_append, Option.bind_eq_bind, Option.bind_some, hsplit, parseU64_decimal hl,
    parseU64_decimal he, Option.pure_def]

theorem parseFenced_other {c : Char} {msg : String} (h : msg.toList.head? = some c)
    (hc : 'l' ≠ c) : parseFenced msg = .storage ("precondition: " ++ msg) := by
  obtain ⟨cs, hcs⟩ := List.head?_eq_some_iff.mp h
  have hfront : stripFront "ledger ".toList (c :: cs) = none := stripFront_ne hc
  simp only [parseFenced, hcs, hfront, Option.bind_eq_bind, Option.bind_none]

theorem parseNotFound_other {c : Char} {msg : String} (h : msg.toList.head? = some c)
    (hc : 'e' ≠ c) : parseNotFound msg = .storage ("not found: " ++ msg) := by
  obtain ⟨cs, hcs⟩ := List.head?_eq_some_iff.mp h
  have hfront : stripFront "entry ".toList (c :: cs) = none := stripFront_ne hc
  simp only [parseNotFound, hcs, hfront, Option.bind_eq_bind, Option.bind_none]

end RoundTrips

section Interchangeable
variable (codeText : Code → String)

/-- The errors that have a text or a code of their own on the way back. -/
def Carried : FolioError → Prop
  | .ledgerFenced _ | .entryNotFound _ _ | .casConflict | .lacTimeout => True
  | _ => False

/-- The `u64` fields of the errors that are read back from text. -/
def FieldsFit : FolioError → Prop
  | .ledgerFenced id => id < 2 ^ 64
  | .entryNotFound ledgerId entryId => ledgerId < 2 ^ 64 ∧ entryId < 2 ^ 64
  | _ => True

instance (e : FolioError) : Decidable (Carried e) := by
  cases e <;> unfold Carried <;> infer_instance

instance (e : FolioError) : Decidable (FieldsFit e) := by
  cases e <;> unfold FieldsFit <;> infer_instance

theorem viaGrpc_carried {e : FolioError} (hfit : FieldsFit e) (h : Carried e) :
    viaGrpc codeText e = e := by
  cases e with
  | ledgerFenced id => exact parseFenced_text hfit
  | entryNotFound ledgerId entryId => exact parseNotFound_text hfit.1 hfit.2
  | casConflict => rfl
  | lacTimeout => rfl
  | _ => exact h.elim

theorem viaGrpc_other {e : FolioError} (h : ¬ Carried e) :
    ∃ msg, viaGrpc codeText e = .storage msg := by
  cases e with
  | ledgerFenced | entryNotFound | casConflict | lacTimeout => exact absurd trivial h
  | ledgerNotFound id =>
    exact ⟨_, parseNotFound_other (c := 'l') (by simp [toStatus]) (by decide)⟩
  | stateConflict expected found =>
    exact ⟨_, parseFenced_other (c := 's') (by simp [toStatus]) (by decide)⟩
  | _ => exact ⟨_, rfl⟩

/-- A node behind the transport answers as the node itself: the same entry arrives, the same
values come back, the four errors as they are and every other one as a storage error. -/
theorem remote_node_interchangeable (svc : JournalService) :
    (∀ e, (grpcClient codeText (serve svc)).addEntry e =
      (svc.addEntry e).mapError (viaGrpc codeText)) ∧
    (∀ l e, (grpcClient codeText (serve svc)).readEntry l e =
      (svc.readEntry l e).mapError (viaGrpc codeText)) ∧
    (∀ l, (grpcClient codeText (serve svc)).fenceLedger l =
      (svc.fenceLedger l).mapError (viaGrpc codeText)) ∧
    (∀ e, FieldsFit e → Carried e → viaGrpc codeText e = e) ∧
    ∀ e, ¬ Carried e → ∃ msg, viaGrpc codeText e = .storage msg := by
  refine ⟨fun e => ?_, fun l e => ?_, fun l => ?_, fun e => viaGrpc_carried codeText,
    fun e => viaGrpc_other codeText⟩
  · have hentry : protoToEntry (toProto e) = e := fromProtoEntry_toProto e
    simp only [grpcClient, serve, Option.elim_some, bind, Except.bind, hentry]
    cases svc.addEntry e <;> rfl
  · simp only [grpcClient, serve]
    cases svc.readEntry l e with
    | error err => rfl
    | ok r =>
      have hentry : fromProtoEntry (entryToProto r.entry) = r.entry := fromProtoEntry_toProto _
      simp only [Except.mapError, readToResp, Except.bind, bind, pure, Except.pure,
        Option.elim_some, hentry]
  · simp only [grpcClient, serve]
    cases svc.fenceLedger l <;> rfl

/-- A node that has fenced the ledger with the last id and holds one entry with a key. -/
def lastLedgerNode (e : Entry) : JournalService where
  addEntry _ := .error (.ledgerFenced (2 ^ 64 - 1))
  readEntry _ _ := .ok ⟨e, "n1", 5⟩
  fenceLedger _ := .error (.metadata "no such ledger")

theorem last_ledger_error_arrives :
    ∃ e : Entry, e.masterKey.isSome ∧ e.hmac = none ∧
      (grpcClient (fun _ => "") (serve (lastLedgerNode e))).addEntry e =
        .error (.ledgerFenced (2 ^ 64 - 1)) ∧
      (grpcClient (fun _ => "") (serve (lastLedgerNode e))).readEntry 1 0 = .ok ⟨e, "n1", 5⟩ ∧
      ∃ msg, (grpcClient (fun _ => "") (serve (lastLedgerNode e))).fenceLedger 1 =
        .error (.storage msg) := by
  let e : Entry := ⟨1, 0, 0, 0, [], some ⟨List.replicate 32 7, List.length_replicate⟩, none⟩
  obtain ⟨hadd, hread, hfence, hcarried, hother⟩ :=
    remote_node_interchangeable (fun _ => "") (lastLedgerNode e)
  have hfit : FieldsFit (.ledgerFenced (2 ^ 64 - 1)) := by decide
  obtain ⟨msg, hmsg⟩ := hother (.metadata "no such ledger") (by decide)
  refine ⟨e, rfl, rfl, (hadd e).trans ?_, hread 1 0, msg, (hfence 1).trans ?_⟩
  · exact congrArg Except.error (hcarried _ hfit trivial)
  · exact congrArg Except.error hmsg

end Interchangeable
end Folio.Transport
