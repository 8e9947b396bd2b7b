import Folio.KeyedTable
import Folio.Protocol
import Mathlib.Data.List.Sort

/-! The metadata store: ledgers with a version that every write compares and increments,
and the registered nodes. -/
namespace Folio.Metadata
open KeyedTable Protocol

/-- What `create_ledger` stores under a new id, with `write_quorum as u8` and
`ack_quorum as u8`. -/
def newMetadata (ledgerId : Nat) (o : LedgerOptions) (ensemble : List NodeId) :
    LedgerMetadata where
  id := ledgerId
  state := .Open
  fragments := [{ firstEntryId := 0, ensemble, writeQuorum := o.writeQuorum % 256,
                  ackQuorum := o.ackQuorum % 256 }]
  lastEntryId := none
  lastAddConfirmed := 0
  version := 1

structure Store where
  lastId : Nat
  ledgers : Table Nat LedgerMetadata
  nodes : Table NodeId NodeStatus

namespace Store

def createLedger (st : Store) (o : LedgerOptions) (ensemble : List NodeId) :
    Store × Except FolioError LedgerMetadata :=
  match o.validate with
  | .error e => (st, .error e)
  | .ok () =>
    let m := newMetadata (st.lastId + 1) o ensemble
    ({ st with lastId := st.lastId + 1, ledgers := st.ledgers.put m.id m }, .ok m)

theorem createLedger_ok {st st' : Store} {o : LedgerOptions} {ensemble : List NodeId}
    {m : LedgerMetadata} (h : st.createLedger o ensemble = (st', .ok m)) :
    o.validate = .ok () ∧ m = newMetadata (st.lastId + 1) o ensemble ∧
      st'.ledgers.get m.id = some m := by
  unfold createLedger at h
  split at h
  · cases h
  · rename_i hvalid
    cases h
    exact ⟨hvalid, rfl, Table.get_put_self _ _ _⟩

/-- The write lock is taken once for the id and once more for the insertion of a new ledger. -/
def nextLedgerId (st : Store) : Store × Nat :=
  ({ st with lastId := st.lastId + 1 }, st.lastId + 1)

def insertLedger (st : Store) (m : LedgerMetadata) : Store :=
  { st with ledgers := st.ledgers.put m.id m }

def getLedger (st : Store) (ledgerId : Nat) : Except FolioError LedgerMetadata :=
  match st.ledgers.get ledgerId with
  | some m => .ok m
  | none => .error (.ledgerNotFound ledgerId)

theorem getLedger_ok {st : Store} {ledgerId : Nat} {m : LedgerMetadata}
    (h : st.getLedger ledgerId = .ok m) : st.ledgers.get ledgerId = some m := by
  unfold getLedger at h
  split at h
  · rename_i hget
    cases h
    exact hget
  · cases h

def writeLedger (st : Store) (key : Nat) (m : LedgerMetadata) : Store × LedgerMetadata :=
  let updated := { m with version := m.version + 1 }
  ({ st with ledgers := st.ledgers.put key updated }, updated)

def putLedger (st : Store) (m : LedgerMetadata) : Store × Except FolioError LedgerMetadata :=
  match st.ledgers.get m.id with
  | none => (st, .error (.ledgerNotFound m.id))
  | some current =>
    if current.version ≠ m.version then (st, .error .casConflict)
    else ((st.writeLedger m.id m).1, .ok (st.writeLedger m.id m).2)

def transitionState (st : Store) (ledgerId : Nat) (expected next : LedgerState) :
    Store × Except FolioError LedgerMetadata :=
  match st.ledgers.get ledgerId with
  | none => (st, .error (.ledgerNotFound ledgerId))
  | some ledger =>
    if ledger.state ≠ expected then (st, .error (.stateConflict expected ledger.state))
    else
      let written := st.writeLedger ledgerId { ledger with state := next }
      (written.1, .ok written.2)

def deleteLedger (st : Store) (ledgerId : Nat) : Store :=
  { st with ledgers := st.ledgers.del ledgerId }

def byId (a b : NodeInfo) : Prop := a.nodeId ≤ b.nodeId

instance : DecidableRel byId := fun a b => by
  unfold byId
  infer_instance

def listNodes (st : Store) : List NodeInfo :=
  (st.nodes.entries.map fun e => ⟨e.1, e.2⟩).insertionSort byId

def byKey (a b : Nat × LedgerMetadata) : Prop := a.1 ≤ b.1

instance : DecidableRel byKey := fun a b => by
  unfold byKey
  infer_instance

def listLedgers (st : Store) : List LedgerMetadata :=
  (st.ledgers.entries.insertionSort byKey).map Prod.snd

def registerNode (st : Store) (n : NodeInfo) : Store :=
  { st with nodes := st.nodes.put n.nodeId n.status }

def expireNode (st : Store) (n : NodeId) : Store := { st with nodes := st.nodes.del n }

theorem listNodes_nodup (st : Store) : (st.listNodes.map NodeInfo.nodeId).Nodup := by
  have hperm := (List.perm_insertionSort byId
    (st.nodes.entries.map fun e => (⟨e.1, e.2⟩ : NodeInfo))).map NodeInfo.nodeId
  refine hperm.nodup_iff.mpr ?_
  rw [List.map_map]
  exact st.nodes.nodup

theorem mem_listLedgers (st : Store) (m : LedgerMetadata) :
    m ∈ st.listLedgers ↔ ∃ id, st.ledgers.get id = some m := by
  unfold listLedgers
  rw [← Table.mem_values_iff, Table.values, List.mem_map, List.mem_map]
  simp only [List.mem_insertionSort]

theorem putLedger_cases (st : Store) (m : LedgerMetadata) :
    (∃ cur, st.ledgers.get m.id = some cur ∧ cur.version = m.version ∧
      st.putLedger m = ((st.writeLedger m.id m).1, .ok (st.writeLedger m.id m).2)) ∨
    ∃ e, st.putLedger m = (st, .error e) := by
  unfold putLedger
  split
  · exact .inr ⟨_, rfl⟩
  · rename_i cur hcur
    split_ifs with hv
    · exact .inr ⟨_, rfl⟩
    · exact .inl ⟨cur, hcur, not_not.mp hv, rfl⟩

theorem transitionState_cases (st : Store) (ledgerId : Nat) (expected next : LedgerState) :
    (∃ cur, st.ledgers.get ledgerId = some cur ∧
      st.transitionState ledgerId expected next =
        ((st.writeLedger ledgerId { cur with state := next }).1,
          .ok (st.writeLedger ledgerId { cur with state := next }).2)) ∨
    ∃ e, st.transitionState ledgerId expected next = (st, .error e) := by
  unfold transitionState
  split
  · exact .inr ⟨_, rfl⟩
  · rename_i cur hcur
    split_ifs
    · exact .inr ⟨_, rfl⟩
    · exact .inl ⟨cur, hcur, rfl⟩

def WellKeyed (st : Store) : Prop := ∀ id m, st.ledgers.get id = some m → m.id = id

instance (st : Store) : Decidable st.WellKeyed :=
  decidable_of_iff (∀ e ∈ st.ledgers.entries, e.2.id = e.1)
    ⟨fun h id m hm => h (id, m) ((st.ledgers.mem_entries_iff id m).mpr hm),
      fun h e he => h e.1 e.2 ((st.ledgers.mem_entries_iff e.1 e.2).mp he)⟩

theorem WellKeyed.listLedgers_nodup {st : Store} (h : st.WellKeyed) :
    (st.listLedgers.map LedgerMetadata.id).Nodup := by
  have hids : st.listLedgers.map LedgerMetadata.id =
      (st.ledgers.entries.insertionSort byKey).map Prod.fst := by
    unfold listLedgers
    rw [List.map_map]
    refine List.map_congr_left fun e he => ?_
    exact h e.1 e.2 ((st.ledgers.mem_entries_iff e.1 e.2).mp ((List.mem_insertionSort _).mp he))
  rw [hids]
  exact ((List.perm_insertionSort byKey st.ledgers.entries).map Prod.fst).nodup_iff.mpr
    st.ledgers.nodup

theorem WellKeyed.writeLedger {st : Store} (h : st.WellKeyed) {key : Nat} {m : LedgerMetadata}
    (hm : m.id = key) : (st.writeLedger key m).1.WellKeyed := by
  intro id m' hget
  simp only [Store.writeLedger] at hget
  rw [Table.get_put] at hget
  split_ifs at hget with heq
  · cases hget
    rw [heq]
    exact hm
  · exact h id m' hget

end Store
end Folio.Metadata
