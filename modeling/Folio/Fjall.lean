import Folio.KeyedTable
import Folio.Protocol
import Mathlib.Algebra.Group.Nat.Defs
import Mathlib.Data.List.Lattice

/-! Fjall-backed indices and segment registries. Partitions are keyed tables; a scan
order is only modelled where the source sorts the result itself. -/
namespace Folio.Fjall
open KeyedTable Protocol

/-- `(ledger_id, entry_id)`. -/
abbrev Key := Nat × Nat
abbrev SegmentId := Nat

inductive SegmentKind where
  | Wal | Entry
  deriving DecidableEq, Repr

inductive SegmentStatus where
  | Local | Offloading | S3 | Deleted | Active
  deriving DecidableEq, Repr

/-- The segment files of one data directory: `wal/active.seg`, `wal/seg-{id}.seg`,
`entries/entry-{id}.ent`. -/
inductive SegPath where
  | activeSeg
  | sealedSeg (id : SegmentId)
  | entrySeg (id : SegmentId)
  deriving DecidableEq, Repr

structure SegmentMeta where
  id : SegmentId
  kind : SegmentKind
  status : SegmentStatus
  localPath : Option SegPath
  s3Key : Option String
  byteLen : Nat
  deriving DecidableEq, Repr

structure IndexValue where
  segmentId : SegmentId
  offset : Nat
  length : Nat
  deriving DecidableEq, Repr

structure LedgerState where
  isFenced : Bool
  masterKey : Option Key32
  deriving DecidableEq, Repr

structure FjallIndex where
  locations : Table Key IndexValue
  checkpoints : Table SegmentId Nat
  ledgers : Table Nat LedgerState

namespace FjallIndex

def empty : FjallIndex := ⟨.empty, .empty, .empty⟩

def getLocation (x : FjallIndex) (k : Key) : Option IndexValue := x.locations.get k

def insertLocation (x : FjallIndex) (k : Key) (segmentId offset length : Nat) : FjallIndex :=
  { x with locations := x.locations.put k ⟨segmentId, offset, length⟩ }

def deleteLocation (x : FjallIndex) (k : Key) : FjallIndex :=
  { x with locations := x.locations.del k }

def inTail (segmentId minOffset : Nat) (e : Key × IndexValue) : Bool :=
  e.2.segmentId == segmentId && decide (minOffset ≤ e.2.offset)

/-- Removes the locations that point into the cut-off tail and returns their keys. -/
def deleteLocationsInSegmentTail (x : FjallIndex) (segmentId minOffset : Nat) :
    FjallIndex × List Key :=
  let toDelete := (x.locations.filter (inTail segmentId minOffset)).keys
  (toDelete.foldl deleteLocation x, toDelete)

/-- One past the largest entry id of the ledger, in `u64` arithmetic; 0 when there is none. -/
def getNextEntryId (x : FjallIndex) (ledgerId : Nat) : Nat :=
  match ((x.locations.keys.filter fun k => k.1 == ledgerId).map Prod.snd).max? with
  | none => 0
  | some eid => (eid + 1) % 2 ^ 64

/-- The entry ids of the ledger with their locations, in no particular order. -/
def scanLedgerLocations (x : FjallIndex) (ledgerId : Nat) : List (Nat × IndexValue) :=
  (x.locations.entries.filter fun r => r.1.1 == ledgerId).map fun r => (r.1.2, r.2)

def referencedSegmentIds (x : FjallIndex) : List SegmentId :=
  x.locations.values.map IndexValue.segmentId

def getCheckpoint (x : FjallIndex) (segmentId : SegmentId) : Nat :=
  (x.checkpoints.get segmentId).getD 0

def setCheckpoint (x : FjallIndex) (segmentId : SegmentId) (offset : Nat) : FjallIndex :=
  { x with checkpoints := x.checkpoints.put segmentId offset }

def getLedgerState (x : FjallIndex) (ledgerId : Nat) : Option LedgerState :=
  x.ledgers.get ledgerId

def fencedState (seen : Option LedgerState) : LedgerState :=
  { seen.getD ⟨false, none⟩ with isFenced := true }

def fenceLedger (x : FjallIndex) (ledgerId : Nat) : FjallIndex :=
  { x with ledgers := x.ledgers.put ledgerId (fencedState (x.getLedgerState ledgerId)) }

inductive EnsureVerdict where
  | write (state : LedgerState)
  | reject (e : FolioError)
  | keep

def ensureVerdict (ledgerId : Nat) (seen : Option LedgerState) (masterKey : Option Key32) :
    EnsureVerdict :=
  match seen with
  | none => .write ⟨false, masterKey⟩
  | some state =>
    match state.masterKey, masterKey with
    | none, some newKey => .write { state with masterKey := some newKey }
    | some existing, some newKey =>
      if existing ≠ newKey then
        .reject (.serialization s!"ledger {ledgerId}: master key mismatch — rejecting write")
      else .keep
    | _, _ => .keep

/-- `true` when the state was newly written. -/
def ensureLedgerKnown (x : FjallIndex) (ledgerId : Nat) (masterKey : Option Key32) :
    Except FolioError (FjallIndex × Bool) :=
  match ensureVerdict ledgerId (x.getLedgerState ledgerId) masterKey with
  | .write state => .ok ({ x with ledgers := x.ledgers.put ledgerId state }, true)
  | .reject e => .error e
  | .keep => .ok (x, false)

def getLedgerMasterKey (x : FjallIndex) (ledgerId : Nat) : Option Key32 :=
  (x.getLedgerState ledgerId).bind LedgerState.masterKey

def loadFencedLedgers (x : FjallIndex) : List Nat :=
  (x.ledgers.filter fun e => e.2.isFenced).keys

def listKnownLedgerIds (x : FjallIndex) : List Nat := x.ledgers.keys

theorem ensureVerdict_write {ledgerId : Nat} {seen : Option LedgerState} {key : Option Key32}
    {st : LedgerState} (h : ensureVerdict ledgerId seen key = .write st) :
    (seen = none ∧ st = ⟨false, key⟩) ∨ ∃ old k, seen = some old ∧ old.masterKey = none ∧
      key = some k ∧ st = { old with masterKey := some k } := by
  cases seen with
  | none =>
    cases h
    exact .inl ⟨rfl, rfl⟩
  | some old =>
    obtain ⟨fenced, stored⟩ := old
    cases stored <;> cases key <;> simp only [ensureVerdict] at h
    case none.some k =>
      cases h
      exact .inr ⟨_, k, rfl, rfl, rfl, rfl⟩
    case some.some =>
      split_ifs at h
    all_goals cases h

theorem ensureVerdict_keep {ledgerId : Nat} {seen : Option LedgerState} {key : Option Key32}
    (h : ensureVerdict ledgerId seen key = .keep) :
    ∃ old, seen = some old ∧ ∀ k, key = some k → old.masterKey = some k := by
  cases seen with
  | none => cases h
  | some old =>
    refine ⟨old, rfl, ?_⟩
    obtain ⟨fenced, stored⟩ := old
    cases stored <;> cases key <;> simp only [ensureVerdict] at h
    case some.some existing k =>
      split_ifs at h with hne
      rintro k' hk
      rw [← hk, not_not.mp hne]
    case none.some => cases h
    all_goals simp

theorem ensureLedgerKnown_no_key (x : FjallIndex) (ledgerId : Nat) :
    ∃ y, x.ensureLedgerKnown ledgerId none = .ok y := by
  unfold ensureLedgerKnown
  cases x.getLedgerState ledgerId with
  | none => exact ⟨_, rfl⟩
  | some state =>
    obtain ⟨fenced, stored⟩ := state
    cases stored <;> exact ⟨_, rfl⟩

theorem mem_loadFencedLedgers (x : FjallIndex) (ledgerId : Nat) :
    ledgerId ∈ x.loadFencedLedgers ↔ ∃ st, x.getLedgerState ledgerId = some st ∧ st.isFenced := by
  rw [loadFencedLedgers, Table.mem_keys_iff]
  simp [Table.get_filter, getLedgerState]

theorem getLocation_insert (x : FjallIndex) (k k' : Key) (id offset length : Nat) :
    (x.insertLocation k id offset length).getLocation k' =
      if k' = k then some ⟨id, offset, length⟩ else x.getLocation k' :=
  Table.get_put _ _ _ _

theorem getLocation_delete (x : FjallIndex) (k k' : Key) :
    (x.deleteLocation k).getLocation k' = if k' = k then none else x.getLocation k' :=
  Table.get_del _ _ _

theorem mem_indexIds (x : FjallIndex) (ledger id : Nat) :
    id ∈ (x.locations.keys.filter fun k => k.1 == ledger).map Prod.snd ↔
      (x.getLocation (ledger, id)).isSome := by
  unfold getLocation
  rw [Option.isSome_iff_exists, ← Table.mem_keys_iff]
  simp

theorem getNextEntryId_congr {x y : FjallIndex} {ledger : Nat}
    (h : ∀ id, y.getLocation (ledger, id) = x.getLocation (ledger, id)) :
    y.getNextEntryId ledger = x.getNextEntryId ledger := by
  have hmax : ((y.locations.keys.filter fun k => k.1 == ledger).map Prod.snd).max? =
      ((x.locations.keys.filter fun k => k.1 == ledger).map Prod.snd).max? := by
    ext top
    simp only [List.max?_eq_some_iff, mem_indexIds, h]
  unfold getNextEntryId
  rw [hmax]

theorem mem_scanLedgerLocations (x : FjallIndex) (ledgerId id : Nat) (iv : IndexValue) :
    (id, iv) ∈ x.scanLedgerLocations ledgerId ↔ x.getLocation (ledgerId, id) = some iv := by
  rw [scanLedgerLocations, List.mem_map, getLocation, ← Table.mem_entries_iff]
  constructor
  · rintro ⟨⟨⟨l, e⟩, v⟩, hr, heq⟩
    obtain ⟨hmem, hl⟩ := List.mem_filter.mp hr
    cases heq
    cases beq_iff_eq.mp hl
    exact hmem
  · exact fun hmem => ⟨_, List.mem_filter.mpr ⟨hmem, beq_iff_eq.mpr rfl⟩, rfl⟩

theorem scanLedgerLocations_nodup (x : FjallIndex) (ledgerId : Nat) :
    (x.scanLedgerLocations ledgerId).Nodup := by
  have hentries : x.locations.entries.Nodup := .of_map _ x.locations.nodup
  refine List.Nodup.map_on (fun a ha b hb heq => ?_) (hentries.filter _)
  obtain ⟨he, hv⟩ := Prod.ext_iff.mp heq
  have hla := beq_iff_eq.mp (List.mem_filter.mp ha).2
  have hlb := beq_iff_eq.mp (List.mem_filter.mp hb).2
  exact Prod.ext (Prod.ext (hla.trans hlb.symm) he) hv

theorem located_insert {k' : Key} (x : FjallIndex) (k : Key) (id offset length : Nat)
    (h : (x.getLocation k').isSome) :
    ((x.insertLocation k id offset length).getLocation k').isSome :=
  Table.isSome_put _ h

theorem foldl_deleteLocation (ks : List Key) (x : FjallIndex) (k : Key) :
    (ks.foldl deleteLocation x).getLocation k = if k ∈ ks then none else x.getLocation k := by
  induction ks generalizing x with
  | nil => simp
  | cons k' ks ih =>
    rw [List.foldl_cons, ih]
    by_cases hk : k ∈ ks
    · simp [hk]
    · by_cases he : k = k' <;> simp [hk, he, getLocation_delete]

theorem foldl_deleteLocation_checkpoints (ks : List Key) (x : FjallIndex) :
    (ks.foldl deleteLocation x).checkpoints = x.checkpoints := by
  induction ks generalizing x with
  | nil => rfl
  | cons k ks ih => rw [List.foldl_cons, ih]; rfl

theorem getLocation_deleteTail (x : FjallIndex) (s m : Nat) (k : Key) :
    (x.deleteLocationsInSegmentTail s m).1.getLocation k =
      (x.getLocation k).filter fun iv => !inTail s m (k, iv) := by
  have hmem : k ∈ (x.locations.filter (inTail s m)).keys ↔
      ∃ iv, x.getLocation k = some iv ∧ inTail s m (k, iv) = true := by
    rw [Table.mem_keys_iff]
    simp [Table.get_filter, getLocation]
  unfold deleteLocationsInSegmentTail
  rw [foldl_deleteLocation]
  cases hg : x.getLocation k with
  | none => simp
  | some iv =>
    have : k ∈ (x.locations.filter (inTail s m)).keys ↔ inTail s m (k, iv) = true := by
      rw [hmem, hg]; simp
    by_cases hi : inTail s m (k, iv) = true <;> simp [this, hi, Option.filter]

end FjallIndex

abbrev SegmentRegistry := Table SegmentId SegmentMeta

namespace SegmentRegistry

def upsert (r : SegmentRegistry) (m : SegmentMeta) : SegmentRegistry := r.put m.id m

def listByStatus (r : SegmentRegistry) (s : SegmentStatus) : List SegmentMeta :=
  r.values.filter fun m => decide (m.status = s)

def maxId (r : SegmentRegistry) : Option SegmentId := r.keys.max?

inductive CasOp where
  | status (expected new : SegmentStatus)
  | toS3 (expected : SegmentStatus) (s3Key : String)
  deriving DecidableEq

namespace CasOp

def expected : CasOp → SegmentStatus
  | .status expected _ => expected
  | .toS3 expected _ => expected

def next : CasOp → SegmentStatus
  | .status _ new => new
  | .toS3 _ _ => .S3

def write (m : SegmentMeta) : CasOp → SegmentMeta
  | .status _ new => { m with status := new }
  | .toS3 _ s3Key => { m with status := .S3, s3Key := some s3Key, localPath := none }

@[simp] theorem write_id (m : SegmentMeta) (op : CasOp) : (op.write m).id = m.id := by
  cases op <;> rfl

@[simp] theorem write_status (m : SegmentMeta) (op : CasOp) : (op.write m).status = op.next := by
  cases op <;> rfl

end CasOp

def cas (r : SegmentRegistry) (id : SegmentId) (op : CasOp) : SegmentRegistry × Bool :=
  match r.get id with
  | none => (r, false)
  | some m => if m.status ≠ op.expected then (r, false) else (r.upsert (op.write m), true)

def casStatus (r : SegmentRegistry) (id : SegmentId) (expected new : SegmentStatus) :
    SegmentRegistry × Bool :=
  r.cas id (.status expected new)

def casToS3 (r : SegmentRegistry) (id : SegmentId) (expected : SegmentStatus) (s3Key : String) :
    SegmentRegistry × Bool :=
  r.cas id (.toS3 expected s3Key)

def WellKeyed (r : SegmentRegistry) : Prop := ∀ id m, r.get id = some m → m.id = id

theorem WellKeyed.upsert {r : SegmentRegistry} (h : r.WellKeyed) (m : SegmentMeta) :
    (r.upsert m).WellKeyed := by
  intro id m' hm'
  rw [SegmentRegistry.upsert, Table.get_put] at hm'
  split_ifs at hm' with heq
  · cases hm'
    exact heq.symm
  · exact h id m' hm'

end SegmentRegistry
end Folio.Fjall
