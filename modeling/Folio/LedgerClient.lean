import Folio.Metadata

/-! The ledger client: the handle's position, the choice of a new ensemble, and reads. -/
namespace Folio.LedgerClient
open KeyedTable Protocol

/-- A storage node as its clients see it: each request runs as a whole. Entries of
`do_append` carry neither key nor HMAC, so registration refuses none of them. -/
structure Replica where
  entries : Table (Nat × Nat) Entry
  fences : List Nat
  lac : Table Nat Nat

namespace Replica

def empty : Replica := ⟨.empty, [], .empty⟩

/-- `add_entry`: the first entry stored for an id stays, later ones are acknowledged. -/
def addEntry (crc32 : Bytes → UInt32) (nodeId : NodeId) (r : Replica) (e : Entry) :
    Replica × Except FolioError AppendAck :=
  if !e.validateDigest crc32 then
    (r, .error (.serialization "entry checksum validation failed"))
  else if e.ledgerId ∈ r.fences then (r, .error (.ledgerFenced e.ledgerId))
  else
    match r.entries.get e.key with
    | some _ => (r, .ok ⟨e.ledgerId, e.entryId, (r.lac.get e.ledgerId).getD 0, nodeId⟩)
    | none =>
      let localLac := ((r.lac.get e.ledgerId).map (max e.lac)).getD e.lac
      ({ r with entries := r.entries.put e.key e, lac := r.lac.put e.ledgerId localLac },
        .ok ⟨e.ledgerId, e.entryId, localLac, nodeId⟩)

def highMark (r : Replica) (ledgerId : Nat) : Nat :=
  ((r.entries.keys.filter fun k => k.1 == ledgerId).map Prod.snd).max?.getD 0

def fenceLedger (r : Replica) (ledgerId : Nat) : Replica × Except FolioError Nat :=
  ({ r with fences := ledgerId :: r.fences }, .ok (r.highMark ledgerId))

def readEntry (r : Replica) (ledgerId entryId : Nat) : Except FolioError Entry :=
  match r.entries.get (ledgerId, entryId) with
  | some e => .ok e
  | none => .error (.entryNotFound ledgerId entryId)

end Replica

structure LedgerHandle where
  metadata : LedgerMetadata
  nextEntryId : Nat
  lac : Nat

namespace LedgerHandle

def new (m : LedgerMetadata) : LedgerHandle :=
  { metadata := m
    nextEntryId := (m.lastEntryId.map (· + 1)).getD 0
    lac := m.lastAddConfirmed }

def advanceLac (lac : Nat) (acks : List AppendAck) (entryId : Nat) : Nat :=
  max (max lac ((acks.map AppendAck.localLac).max?.getD 0)) entryId

def commit (h : LedgerHandle) (acks : List AppendAck) (entryId : Nat) : LedgerHandle :=
  let lac := advanceLac h.lac acks entryId
  { metadata := { h.metadata with lastAddConfirmed := lac, lastEntryId := some entryId }
    nextEntryId := h.nextEntryId + 1
    lac }

/-- The fragment `read` looks an entry up in. -/
def owner (fragments : List Fragment) (entryId : Nat) : Option Fragment :=
  fragments.reverse.find? fun f => decide (f.firstEntryId ≤ entryId)

/-- `read`, where `node` is the one whose answer `speculative_read` returns. -/
def read (h : LedgerHandle) (replica : NodeId → Replica) (entryId : Nat) (node : NodeId) :
    Except FolioError Bytes :=
  match h.metadata.lastEntryId with
  | none => .error (.entryNotFound h.metadata.id entryId)
  | some last =>
    if entryId > last ∨ entryId > h.lac then .error (.entryNotFound h.metadata.id entryId)
    else
      match owner h.metadata.fragments entryId with
      | none => .error (.invalidFragment h.metadata.id)
      | some f =>
        if node ∈ f.ensemble then ((replica node).readEntry h.metadata.id entryId).map Entry.data
        else .error (.entryNotFound h.metadata.id entryId)

end LedgerHandle

section ChangeFragment

def spares (current : Fragment) (failed : List NodeId) (nodes : List NodeInfo) : List NodeId :=
  (((nodes.filter fun n => decide (n.status = .ReadWrite)).filter fun n =>
    decide (n.nodeId ∉ current.ensemble)).take failed.dedup.length).map NodeInfo.nodeId

/-- The fragment `change_fragment` pushes, given what `list_nodes` has returned. -/
def newFragment (m : LedgerMetadata) (failed : List NodeId) (nodes : List NodeInfo)
    (nextEntryId : Nat) : Except FolioError Fragment :=
  match m.fragments.getLast? with
  | none => .error (.invalidFragment m.id)
  | some current =>
    let survivors := current.ensemble.filter fun n => decide (n ∉ failed)
    if failed = [] then .ok { current with firstEntryId := nextEntryId, ensemble := survivors }
    else
      let spare := spares current failed nodes
      if survivors.length + spare.length < current.writeQuorum then
        .error (.quorumNotMet current.writeQuorum (survivors.length + spare.length))
      else .ok { current with firstEntryId := nextEntryId, ensemble := survivors ++ spare }

theorem newFragment_ok {m : LedgerMetadata} {failed : List NodeId} {nodes : List NodeInfo}
    {next : Nat} {f : Fragment} (h : newFragment m failed nodes next = .ok f) :
    f.firstEntryId = next ∧ ∃ current, m.fragments.getLast? = some current ∧
      f.ackQuorum = current.ackQuorum ∧
      ((nodes.map NodeInfo.nodeId).Nodup → current.ensemble.Nodup → f.ensemble.Nodup) := by
  unfold newFragment at h
  split at h
  · cases h
  · rename_i current hcur
    dsimp only at h
    split_ifs at h
    · cases h
      exact ⟨rfl, current, hcur, rfl, fun _ hn => hn.filter _⟩
    · cases h
      refine ⟨rfl, current, hcur, rfl, fun hnodes hn => ?_⟩
      -- spares are registered once each, and none of them is a member already
      have hspares : (spares current failed nodes).Nodup := by
        refine hnodes.sublist (List.Sublist.map _ ?_)
        exact (List.take_sublist _ _).trans (List.filter_sublist.trans List.filter_sublist)
      refine List.nodup_append'.mpr ⟨hn.filter _, hspares, ?_⟩
      intro n hsurv hspare
      obtain ⟨info, hinfo, rfl⟩ := List.mem_map.mp hspare
      have hout := (List.mem_filter.mp (List.mem_of_mem_take hinfo)).2
      exact of_decide_eq_true hout (List.mem_filter.mp hsurv).1

end ChangeFragment

section Owner
variable {fs : List Fragment}

theorem owner_append_of_lt {f : Fragment} {id : Nat} (h : id < f.firstEntryId) :
    LedgerHandle.owner (fs ++ [f]) id = LedgerHandle.owner fs id := by
  unfold LedgerHandle.owner
  rw [List.reverse_append, List.reverse_singleton, List.singleton_append, List.find?_cons]
  simp [Nat.not_le.mpr h]

theorem owner_of_last {f : Fragment} {id : Nat} (hlast : fs.getLast? = some f)
    (h : f.firstEntryId ≤ id) : LedgerHandle.owner fs id = some f := by
  obtain ⟨front, rfl⟩ := List.getLast?_eq_some_iff.mp hlast
  unfold LedgerHandle.owner
  rw [List.reverse_append, List.reverse_singleton, List.singleton_append, List.find?_cons]
  simp [h]

end Owner

section Marks
variable {r : Replica} {ledger id : Nat}

theorem mem_ledgerIds (r : Replica) (ledger id : Nat) :
    id ∈ (r.entries.keys.filter fun k => k.1 == ledger).map Prod.snd ↔
      (r.entries.get (ledger, id)).isSome := by
  rw [Option.isSome_iff_exists, ← Table.mem_keys_iff]
  constructor
  · intro h
    obtain ⟨⟨l, i⟩, hmem, rfl⟩ := List.mem_map.mp h
    obtain ⟨hkey, hl⟩ := List.mem_filter.mp hmem
    obtain rfl : l = ledger := eq_of_beq hl
    exact hkey
  · intro h
    exact List.mem_map.mpr ⟨(ledger, id), List.mem_filter.mpr ⟨h, beq_self_eq_true _⟩, rfl⟩

theorem le_maxD {l : List Nat} {x : Nat} (h : x ∈ l) : x ≤ l.max?.getD 0 := by
  cases hm : l.max? with
  | none =>
    rw [List.max?_eq_none_iff.mp hm] at h
    cases h
  | some top => exact (List.max?_eq_some_iff.mp hm).2 x h

theorem maxD_mem {l : List Nat} (h : l ≠ []) : l.max?.getD 0 ∈ l := by
  cases hm : l.max? with
  | none => exact absurd (List.max?_eq_none_iff.mp hm) h
  | some top => exact (List.max?_eq_some_iff.mp hm).1

theorem le_highMark (h : (r.entries.get (ledger, id)).isSome) : id ≤ r.highMark ledger :=
  le_maxD ((mem_ledgerIds r ledger id).mpr h)

theorem highMark_held (h : (r.entries.get (ledger, id)).isSome) :
    (r.entries.get (ledger, r.highMark ledger)).isSome := by
  refine (mem_ledgerIds r ledger _).mp (maxD_mem ?_)
  exact List.ne_nil_of_mem ((mem_ledgerIds r ledger id).mpr h)

theorem highMark_eq_zero {ledger : Nat}
    (h : ∀ id, ¬(r.entries.get (ledger, id)).isSome) : r.highMark ledger = 0 := by
  unfold Replica.highMark
  rw [List.eq_nil_iff_forall_not_mem.mpr fun id hid => h id ((mem_ledgerIds r ledger id).mp hid)]
  rfl

theorem highMark_congr {r r' : Replica} {ledger : Nat}
    (h : ∀ id, r'.entries.get (ledger, id) = r.entries.get (ledger, id)) :
    r'.highMark ledger = r.highMark ledger := by
  by_cases hheld : ∃ id, (r.entries.get (ledger, id)).isSome
  · obtain ⟨id, hid⟩ := hheld
    have hid' : (r'.entries.get (ledger, id)).isSome := by rw [h]; exact hid
    refine Nat.le_antisymm (le_highMark ?_) (le_highMark ?_)
    · rw [← h]
      exact highMark_held hid'
    · rw [h]
      exact highMark_held hid
  · rw [highMark_eq_zero fun id hid => hheld ⟨id, hid⟩,
      highMark_eq_zero fun id hid => hheld ⟨id, by rw [← h]; exact hid⟩]

end Marks

end Folio.LedgerClient
