import Folio.Keyspace

/-! A segment registry as the bytes that are in its partition: the rows carry paths as texts and the
ledger sizes in whatever order the hash map gives them. -/
namespace Folio.RegistryRows
open ByteCodec KeyedTable Fjall Protocol Bincode EncodedTable
open Keyspace (idKey decoded)

section Formats

/-- `SegmentMeta` as serde writes it; `ledgerSizes` are the pairs of the map in some order. -/
structure SegmentRow where
  id : Nat
  kind : SegmentKind
  status : SegmentStatus
  localPath : Option String
  s3Key : Option String
  byteLen : Nat
  ledgerSizes : List (Nat × Nat)

/-- Numbers are `u64`, and so are the lengths of the texts and of the map. -/
structure SegmentRow.Fits (r : SegmentRow) : Prop where
  id : r.id < 256 ^ 8
  localPath : ∀ s, r.localPath = some s → s.utf8ByteSize < 256 ^ 8
  s3Key : ∀ s, r.s3Key = some s → s.utf8ByteSize < 256 ^ 8
  byteLen : r.byteLen < 256 ^ 8
  count : r.ledgerSizes.length < 256 ^ 8
  sizes : ∀ a ∈ r.ledgerSizes, a.1 < 256 ^ 8 ∧ a.2 < 256 ^ 8

def segmentKinds : List SegmentKind := [.Wal, .Entry]

def segmentStatuses : List SegmentStatus := [.Local, .Offloading, .S3, .Deleted, .Active]

theorem segmentKinds_nodup : segmentKinds.Nodup := by decide

theorem segmentStatuses_nodup : segmentStatuses.Nodup := by decide

theorem segmentKinds_length : segmentKinds.length ≤ 256 ^ 4 := by decide

theorem segmentStatuses_length : segmentStatuses.length ≤ 256 ^ 4 := by decide

def segmentKind : Codec SegmentKind :=
  Codec.enumeration segmentKinds segmentKinds_nodup segmentKinds_length

def segmentStatus : Codec SegmentStatus :=
  Codec.enumeration segmentStatuses segmentStatuses_nodup segmentStatuses_length

def u64 : Codec Nat := Codec.uint 8

def segmentRow : Codec SegmentRow :=
  (u64.pair (segmentKind.pair (segmentStatus.pair ((Codec.option Codec.text).pair
    ((Codec.option Codec.text).pair (u64.pair (Codec.seq (u64.pair u64)))))))).iso
    (fun r => ⟨r.1, r.2.1, r.2.2.1, r.2.2.2.1, r.2.2.2.2.1, r.2.2.2.2.2.1, r.2.2.2.2.2.2⟩)
    (fun m => (m.id, m.kind, m.status, m.localPath, m.s3Key, m.byteLen, m.ledgerSizes))
    (fun _ => rfl) (fun _ => rfl)

theorem segmentKind_fits (k : SegmentKind) : segmentKind.Fits k := by
  cases k <;> simp [segmentKind, Codec.enumeration, segmentKinds]

theorem segmentStatus_fits (s : SegmentStatus) : segmentStatus.Fits s := by
  cases s <;> simp [segmentStatus, Codec.enumeration, segmentStatuses]

def bincodeRow : RowFormat DecodeError SegmentRow.Fits :=
  segmentRow.rowFormat fun _ h => ⟨h.id, segmentKind_fits _, segmentStatus_fits _, h.localPath,
    h.s3Key, h.byteLen, h.count, h.sizes⟩

end Formats

section Model
variable {ε : Type} (describe : ε → String) (bincode : RowFormat ε SegmentRow.Fits)

def upsert (p : Partition) (m : SegmentRow) : Partition :=
  p.put (idKey.enc m.id) (bincode.enc m)

def get (p : Partition) (id : Nat) : Except FolioError (Option SegmentRow) :=
  decoded describe (readRow bincode p (idKey.enc id))

def withStatus (status : SegmentStatus) (r : Bytes × Bytes) :
    Except FolioError (Option SegmentRow) :=
  (decoded describe (bincode.read r.2)).map fun m => if m.status = status then some m else none

def listByStatus (p : Partition) (status : SegmentStatus) : Except FolioError (List SegmentRow) :=
  collect (withStatus describe bincode status) p.ascending

def writeRow (m : SegmentRow) : SegmentRegistry.CasOp → SegmentRow
  | .status _ new => { m with status := new }
  | .toS3 _ s3Key => { m with status := .S3, s3Key := some s3Key, localPath := none }

/-- The row is decoded and encoded again; `order` is how the new hash map is iterated. -/
def cas (order : List (Nat × Nat) → List (Nat × Nat)) (p : Partition) (id : Nat)
    (op : SegmentRegistry.CasOp) : Except FolioError (Partition × Bool) :=
  (get describe bincode p id).map fun seen =>
    match seen with
    | none => (p, false)
    | some m =>
      if m.status ≠ op.expected then (p, false)
      else (upsert bincode p { writeRow m op with ledgerSizes := order m.ledgerSizes }, true)

def casStatus (order : List (Nat × Nat) → List (Nat × Nat)) (p : Partition) (id : Nat)
    (expected new : SegmentStatus) : Except FolioError (Partition × Bool) :=
  cas describe bincode order p id (.status expected new)

def casToS3 (order : List (Nat × Nat) → List (Nat × Nat)) (p : Partition) (id : Nat)
    (expected : SegmentStatus) (s3Key : String) : Except FolioError (Partition × Bool) :=
  cas describe bincode order p id (.toS3 expected s3Key)

def eightByteId (r : Bytes × Bytes) : Option Nat :=
  if r.1.length = 8 then some (beNat r.1) else none

def maxId (p : Partition) : Option Nat := (p.ascending.filterMap eightByteId).max?

end Model

section Calls
variable {ε : Type} (describe : ε → String) (bincode : RowFormat ε SegmentRow.Fits)
  (pathText : SegPath → String)

def rowOf (m : SegmentMeta) (sizes : List (Nat × Nat)) : SegmentRow :=
  ⟨m.id, m.kind, m.status, m.localPath.map pathText, m.s3Key, m.byteLen, sizes⟩

inductive RegistryCall where
  | upsert (m : SegmentMeta) (sizes : List (Nat × Nat))
  | get (id : Nat)
  | listByStatus (status : SegmentStatus)
  | cas (order : List (Nat × Nat) → List (Nat × Nat)) (id : Nat) (op : SegmentRegistry.CasOp)
  | maxId

/-- Ids are `u64`, and no path, key or map is longer than `u64` can say. -/
def RegistryCall.Fits : RegistryCall → Prop
  | .upsert m sizes => (rowOf pathText m sizes).Fits
  | .get id => id < 256 ^ 8
  | .listByStatus _ => True
  | .cas order id op => id < 256 ^ 8 ∧ (∀ l, (order l).Perm l) ∧
      ∀ expected s3Key, op = .toS3 expected s3Key → s3Key.utf8ByteSize < 256 ^ 8
  | .maxId => True

inductive RegistryAnswer (ρ : Type) where
  | done
  | row (r : Option ρ)
  | rows (l : List ρ)
  | swapped (b : Bool)
  | max (id : Option Nat)

def perform (p : Partition) :
    RegistryCall → Except FolioError (Partition × RegistryAnswer SegmentRow)
  | .upsert m sizes => .ok (upsert bincode p (rowOf pathText m sizes), .done)
  | .get id => (get describe bincode p id).map fun r => (p, .row r)
  | .listByStatus status => (listByStatus describe bincode p status).map fun l => (p, .rows l)
  | .cas order id op => (cas describe bincode order p id op).map fun r => (r.1, .swapped r.2)
  | .maxId => .ok (p, .max (maxId p))

def serve (t : SegmentRegistry) : RegistryCall → SegmentRegistry × RegistryAnswer SegmentMeta
  | .upsert m _ => (t.upsert m, .done)
  | .get id => (t, .row (Table.get t id))
  | .listByStatus status => (t, .rows (t.listByStatus status))
  | .cas _ id op => ((t.cas id op).1, .swapped (t.cas id op).2)
  | .maxId => (t, .max t.maxId)

def performAll (p : Partition) :
    List RegistryCall → Except FolioError (Partition × List (RegistryAnswer SegmentRow))
  | [] => .ok (p, [])
  | call :: calls => (perform describe bincode pathText p call).bind fun r =>
      (performAll r.1 calls).map fun q => (q.1, r.2 :: q.2)

def serveAll (t : SegmentRegistry) :
    List RegistryCall → SegmentRegistry × List (RegistryAnswer SegmentMeta)
  | [] => (t, [])
  | call :: calls =>
    let rest := serveAll (serve t call).1 calls
    (rest.1, (serve t call).2 :: rest.2)

/-- The ledger sizes that each segment was last given. -/
def sizesAfter (sizes : Nat → List (Nat × Nat)) : RegistryCall → Nat → List (Nat × Nat)
  | .upsert m new => Function.update sizes m.id new
  | _ => sizes

def Shows (r : SegmentRow) (m : SegmentMeta) : Prop := r = rowOf pathText m r.ledgerSizes

inductive Agrees : RegistryAnswer SegmentRow → RegistryAnswer SegmentMeta → Prop
  | done : Agrees .done .done
  | row {r : Option SegmentRow} {m : Option SegmentMeta}
      (h : Option.Rel (Shows pathText) r m) : Agrees (.row r) (.row m)
  | rows {l : List SegmentRow} {l' sorted : List SegmentMeta}
      (hasc : l.Pairwise fun a b => a.id < b.id) (hperm : sorted.Perm l')
      (h : List.Forall₂ (Shows pathText) l sorted) : Agrees (.rows l) (.rows l')
  | swapped (b : Bool) : Agrees (.swapped b) (.swapped b)
  | max (id : Option Nat) : Agrees (.max id) (.max id)

end Calls

section Refinement
variable {ε : Type} {describe : ε → String} {bincode : RowFormat ε SegmentRow.Fits}
  {pathText : SegPath → String} {p : Partition} {t : SegmentRegistry}
  {sizes : Nat → List (Nat × Nat)} {rows : Table Nat SegmentRow} {r : SegmentRow} {m : SegmentMeta}
  {new : List (Nat × Nat)} {id : Nat} {op : SegmentRegistry.CasOp}

structure Mirrors (pathText : SegPath → String) (rows : Table Nat SegmentRow)
    (t : SegmentRegistry) (sizes : Nat → List (Nat × Nat)) : Prop where
  shows : ∀ id, Option.Rel (Shows pathText) (rows.get id) (Table.get t id)
  keyed : ∀ id r, rows.get id = some r → r.id = id
  sizes : ∀ id r, rows.get id = some r → r.ledgerSizes.Perm (sizes id)

structure Holds (bincode : RowFormat ε SegmentRow.Fits) (pathText : SegPath → String)
    (p : Partition) (t : SegmentRegistry) (sizes : Nat → List (Nat × Nat)) : Prop where
  rows : ∃ rows, EncodedTable.Encodes idKey bincode p rows ∧ Mirrors pathText rows t sizes

theorem holds_empty : Holds bincode pathText .empty .empty sizes := by
  refine ⟨.empty, EncodedTable.encodes_empty, fun id => .none, fun id r h => ?_, fun id r h => ?_⟩
  · cases h
  · cases h

theorem Mirrors.exists_meta (h : Mirrors pathText rows t sizes)
    (hr : rows.get id = some r) : ∃ m, Table.get t id = some m ∧ Shows pathText r m := by
  have hrel := h.shows id
  rw [hr] at hrel
  generalize Table.get t id = o at hrel ⊢
  cases hrel with
  | some hshows => exact ⟨_, rfl, hshows⟩

theorem Mirrors.put (h : Mirrors pathText rows t sizes)
    (hshows : Shows pathText r m) (hnew : r.ledgerSizes.Perm new) :
    Mirrors pathText (rows.put r.id r) (t.upsert m) (Function.update sizes m.id new) := by
  have hid : r.id = m.id := congrArg SegmentRow.id hshows
  rw [hid]
  refine ⟨fun id => ?_, fun id r' hr' => ?_, fun id r' hr' => ?_⟩
  · rw [SegmentRegistry.upsert, Table.get_put, Table.get_put]
    split_ifs
    · exact .some hshows
    · exact h.shows id
  · rw [Table.get_put] at hr'
    split_ifs at hr' with heq
    · cases hr'
      rw [hid, heq]
    · exact h.keyed id r' hr'
  · rw [Table.get_put] at hr'
    split_ifs at hr' with heq
    · cases hr'
      rw [heq, Function.update_self]
      exact hnew
    · rw [Function.update_of_ne heq]
      exact h.sizes id r' hr'

theorem Holds.upsert (h : Holds bincode pathText p t sizes) (hfits : (rowOf pathText m new).Fits) :
    Holds bincode pathText (upsert bincode p (rowOf pathText m new)) (t.upsert m)
      (Function.update sizes m.id new) := by
  obtain ⟨rows, henc, hmirror⟩ := h.rows
  exact ⟨_, henc.put hfits.id hfits, hmirror.put rfl (.refl new)⟩

theorem Holds.get (describe : ε → String) (h : Holds bincode pathText p t sizes)
    (hid : id < 256 ^ 8) :
    ∃ r, get describe bincode p id = .ok r ∧ Option.Rel (Shows pathText) r (Table.get t id) := by
  obtain ⟨rows, henc, hmirror⟩ := h.rows
  refine ⟨rows.get id, ?_, hmirror.shows id⟩
  rw [RegistryRows.get, henc.readRow hid]
  rfl

theorem withStatus_row (hr : r.Fits) (status : SegmentStatus) (b : Bytes) :
    withStatus describe bincode status (b, bincode.enc r) =
      .ok (if r.status = status then some r else none) := by
  change (decoded describe (bincode.read (bincode.enc r))).map _ = _
  rw [bincode.read_enc r hr]
  rfl

def hasStatus (status : SegmentStatus) (r : Nat × SegmentRow) : Bool :=
  decide (r.2.status = status)

theorem listByStatus_eq (henc : EncodedTable.Encodes idKey bincode p rows)
    (status : SegmentStatus) : listByStatus describe bincode p status =
      .ok ((rows.ascending.filter (hasStatus status)).map Prod.snd) := by
  have hrow : ∀ r ∈ p.ascending, withStatus describe bincode status r =
      .ok ((withStatus describe bincode status r).toOption.bind id) := by
    intro r hr
    obtain ⟨k, a, hget, rfl⟩ := henc.mem_ascending.mp hr
    rw [withStatus_row (henc.row k a hget).2.1]
    rfl
  rw [listByStatus, collect_ok hrow, henc.ascending, List.filterMap_map]
  congr 1
  rw [← List.filterMap_eq_map, ← List.filterMap_eq_filter, List.filterMap_filterMap]
  refine List.filterMap_congr fun r hr => ?_
  have hfits := (henc.row r.1 r.2 ((rows.mem_ascending r.1 r.2).mp hr)).2.1
  rw [Function.comp_apply, withStatus_row hfits]
  by_cases hstatus : r.2.status = status <;>
    simp [hasStatus, hstatus, Except.toOption, Option.guard]

theorem Holds.listByStatus (describe : ε → String) (h : Holds bincode pathText p t sizes)
    (status : SegmentStatus) :
    ∃ l sorted, listByStatus describe bincode p status = .ok l ∧
      (l.Pairwise fun a b => a.id < b.id) ∧ sorted.Perm (t.listByStatus status) ∧
      List.Forall₂ (Shows pathText) l sorted := by
  obtain ⟨rows, henc, hmirror⟩ := h.rows
  refine ⟨_, ((t.ascending.filter fun r => decide (r.2.status = status)).map Prod.snd),
    listByStatus_eq henc status, ?_, ?_, ?_⟩
  · refine List.pairwise_map.mpr ((rows.ascending_pairwise.filter _).imp_of_mem ?_)
    intro a b ha hb hlt
    have hid {r : Nat × SegmentRow} (hr : r ∈ rows.ascending.filter (hasStatus status)) :
        r.2.id = r.1 :=
      hmirror.keyed r.1 r.2 ((rows.mem_ascending r.1 r.2).mp (List.mem_of_mem_filter hr))
    rw [hid ha, hid hb]
    exact hlt
  · have hperm : t.ascending.Perm t.entries := List.perm_insertionSort _ _
    refine ((hperm.filter _).map Prod.snd).trans (.of_eq ?_)
    rw [SegmentRegistry.listByStatus, Table.values, List.filter_map]
    rfl
  · have hrel := Table.ascending_rel hmirror.shows
    have hsame : List.Forall₂ (fun a b => a.1 = b.1 ∧ Shows pathText a.2 b.2)
        (rows.ascending.filter (hasStatus status))
        (t.ascending.filter fun r => decide (r.2.status = status)) := by
      refine List.rel_filter (fun a b hab => ?_) hrel
      have hstatus : a.2.status = b.2.status := congrArg SegmentRow.status hab.2
      dsimp only [hasStatus]
      rw [hstatus]
    exact List.rel_map (fun _ _ hab => hab.2) hsame

theorem writeRow_shows (h : Shows pathText r m)
    (op : SegmentRegistry.CasOp) (new : List (Nat × Nat)) :
    Shows pathText { writeRow r op with ledgerSizes := new } (op.write m) := by
  unfold Shows at h ⊢
  rw [h]
  cases op <;> rfl

theorem writeRow_fits (h : r.Fits)
    (hop : ∀ expected s3Key, op = .toS3 expected s3Key → s3Key.utf8ByteSize < 256 ^ 8)
    (hnew : new.Perm r.ledgerSizes) :
    SegmentRow.Fits { writeRow r op with ledgerSizes := new } := by
  have hcount : new.length < 256 ^ 8 := hnew.length_eq ▸ h.count
  have hsizes : ∀ a ∈ new, a.1 < 256 ^ 8 ∧ a.2 < 256 ^ 8 := fun a ha =>
    h.sizes a (hnew.mem_iff.mp ha)
  cases op with
  | status expected status => exact ⟨h.id, h.localPath, h.s3Key, h.byteLen, hcount, hsizes⟩
  | toS3 expected s3Key =>
    refine ⟨h.id, ?_, ?_, h.byteLen, hcount, hsizes⟩
    · rintro a ⟨⟩
    · rintro a ⟨⟩
      exact hop expected s3Key rfl

theorem Holds.cas (describe : ε → String) (h : Holds bincode pathText p t sizes)
    {order : List (Nat × Nat) → List (Nat × Nat)}
    (hid : id < 256 ^ 8) (horder : ∀ l, (order l).Perm l)
    (hop : ∀ expected s3Key, op = .toS3 expected s3Key → s3Key.utf8ByteSize < 256 ^ 8) :
    ∃ p', cas describe bincode order p id op = .ok (p', (t.cas id op).2) ∧
      Holds bincode pathText p' (t.cas id op).1 sizes := by
  obtain ⟨rows, henc, hmirror⟩ := h.rows
  have hget : RegistryRows.get describe bincode p id = .ok (rows.get id) := by
    rw [RegistryRows.get, henc.readRow hid]
    rfl
  rw [RegistryRows.cas, hget, Except.map, SegmentRegistry.cas]
  cases hr : rows.get id with
  | none =>
    have hrel := hmirror.shows id
    rw [hr] at hrel
    cases hm : Table.get t id with
    | none => exact ⟨p, rfl, h⟩
    | some m =>
      rw [hm] at hrel
      cases hrel
  | some r =>
    obtain ⟨m, hm, hshows⟩ := hmirror.exists_meta hr
    have hstatus : r.status = m.status := congrArg SegmentRow.status hshows
    rw [hm]
    dsimp only
    rw [hstatus]
    split_ifs with hexpected
    · exact ⟨p, rfl, h⟩
    · have hperm := horder r.ledgerSizes
      have hmid : (op.write m).id = id := by
        rw [SegmentRegistry.CasOp.write_id, ← show r.id = m.id from congrArg SegmentRow.id hshows]
        exact hmirror.keyed id r hr
      have hmirror' := hmirror.put (writeRow_shows hshows op (order r.ledgerSizes))
        (hperm.trans (hmirror.sizes id r hr))
      rw [hmid, Function.update_eq_self] at hmirror'
      have hfits := writeRow_fits (henc.row id r hr).2.1 hop hperm
      exact ⟨_, rfl, _, henc.put hfits.id hfits, hmirror'⟩

theorem Holds.maxId (h : Holds bincode pathText p t sizes) : maxId p = t.maxId := by
  obtain ⟨rows, henc, hmirror⟩ := h.rows
  have hid : ∀ r ∈ rows.ascending, eightByteId (idKey.enc r.1, bincode.enc r.2) = some r.1 := by
    intro r hr
    have hk : idKey.Fits r.1 := (henc.row r.1 r.2 ((rows.mem_ascending r.1 r.2).mp hr)).1
    have hdec : beNat (idKey.enc r.1) = r.1 := (beNat_beBytes 8 r.1).trans (Nat.mod_eq_of_lt hk)
    have hlen : (idKey.enc r.1).length = 8 := beBytes_length 8 r.1
    rw [eightByteId, if_pos hlen, hdec]
  have hsame (id : Nat) : (rows.get id).isSome ↔ (Table.get t id).isSome := by
    have hrel := hmirror.shows id
    generalize rows.get id = o at hrel
    generalize Table.get t id = o' at hrel
    cases hrel <;> rfl
  have hids : p.ascending.filterMap eightByteId = t.ascending.map Prod.fst := by
    rw [henc.ascending, List.filterMap_map, ← Table.ascending_keys hsame, ← List.filterMap_eq_map]
    exact List.filterMap_congr fun r hr => hid r hr
  have hperm : (t.ascending.map Prod.fst).Perm t.keys :=
    (List.perm_insertionSort _ t.entries).map Prod.fst
  rw [RegistryRows.maxId, hids, SegmentRegistry.maxId]
  refine Option.ext fun top => ?_
  rw [List.max?_eq_some_iff, List.max?_eq_some_iff]
  simp only [hperm.mem_iff]

theorem Holds.perform (describe : ε → String) (h : Holds bincode pathText p t sizes)
    {call : RegistryCall} (hfits : call.Fits pathText) :
    ∃ p' a, perform describe bincode pathText p call = .ok (p', a) ∧
      Holds bincode pathText p' (serve t call).1 (sizesAfter sizes call) ∧
      Agrees pathText a (serve t call).2 := by
  cases call with
  | upsert m new => exact ⟨_, _, rfl, h.upsert hfits, .done⟩
  | get id =>
    obtain ⟨r, hget, hrel⟩ := h.get describe hfits
    refine ⟨p, .row r, ?_, h, .row hrel⟩
    rw [RegistryRows.perform, hget]
    rfl
  | listByStatus status =>
    obtain ⟨l, sorted, hlist, hasc, hperm, hrows⟩ := h.listByStatus describe status
    refine ⟨p, .rows l, ?_, h, .rows hasc hperm hrows⟩
    rw [RegistryRows.perform, hlist]
    rfl
  | cas order id op =>
    obtain ⟨hid, horder, hop⟩ := hfits
    obtain ⟨p', hcas, hholds⟩ := h.cas describe hid horder hop
    refine ⟨p', .swapped (t.cas id op).2, ?_, hholds, .swapped _⟩
    rw [RegistryRows.perform, hcas]
    rfl
  | maxId =>
    refine ⟨p, .max t.maxId, ?_, h, .max _⟩
    rw [RegistryRows.perform, h.maxId]

theorem Holds.performAll (describe : ε → String) (h : Holds bincode pathText p t sizes)
    {calls : List RegistryCall} (hfits : ∀ call ∈ calls, call.Fits pathText) :
    ∃ p' as, performAll describe bincode pathText p calls = .ok (p', as) ∧
      Holds bincode pathText p' (serveAll t calls).1 (calls.foldl sizesAfter sizes) ∧
      List.Forall₂ (Agrees pathText) as (serveAll t calls).2 := by
  induction calls generalizing p t sizes with
  | nil => exact ⟨p, [], rfl, h, .nil⟩
  | cons call calls ih =>
    obtain ⟨p₁, a, hcall, h₁, ha⟩ := h.perform describe (hfits call List.mem_cons_self)
    obtain ⟨p', as, hrest, h', has⟩ := ih h₁ fun c hc => hfits c (List.mem_cons_of_mem call hc)
    refine ⟨p', a :: as, ?_, h', .cons ha has⟩
    rw [RegistryRows.performAll, hcall]
    exact congrArg (Except.map fun q => (q.1, a :: q.2)) hrest

/-- From an empty registry no history of calls meets a row that it cannot decode, every answer is
that of the table, and a swap of the status keeps the ledger sizes of the segment. -/
theorem registry_bytes_refine_table (describe : ε → String)
    (bincode : RowFormat ε SegmentRow.Fits) (pathText : SegPath → String)
    (calls : List RegistryCall) (hfits : ∀ call ∈ calls, call.Fits pathText) :
    ∃ p as, performAll describe bincode pathText .empty calls = .ok (p, as) ∧
      List.Forall₂ (Agrees pathText) as (serveAll .empty calls).2 ∧
      ∀ id r, id < 256 ^ 8 → get describe bincode p id = .ok (some r) →
        r.ledgerSizes.Perm (calls.foldl sizesAfter (fun _ => []) id) := by
  have hempty : Holds bincode pathText .empty .empty fun _ => [] := holds_empty
  obtain ⟨p, as, hrun, ⟨rows, henc, hmirror⟩, has⟩ := hempty.performAll describe hfits
  refine ⟨p, as, hrun, has, fun id r hid hget => hmirror.sizes id r ?_⟩
  rw [RegistryRows.get, henc.readRow hid] at hget
  exact Except.ok.inj hget

/-- A segment with two ledgers is sealed; its map comes back in the other order. -/
def sealCalls : List RegistryCall :=
  [.upsert ⟨7, .Entry, .Active, some (.entrySeg 7), none, 90⟩ [(1, 40), (2, 50)],
    .cas List.reverse 7 (.status .Active .Local), .get 7]

def plainPath : SegPath → String
  | .activeSeg => "wal/active.seg"
  | .sealedSeg _ => "wal/seg.seg"
  | .entrySeg _ => "entries/entry.ent"

theorem sealCalls_fit : ∀ call ∈ sealCalls, call.Fits plainPath := by
  intro call hcall
  simp only [sealCalls, List.mem_cons, List.not_mem_nil, or_false] at hcall
  have hid : 7 < 256 ^ 8 := by decide
  have hlen : 90 < 256 ^ 8 := by decide
  rcases hcall with rfl | rfl | rfl
  · refine ⟨hid, ?_, ?_, hlen, by decide, ?_⟩
    · rintro s ⟨⟩
      exact (by decide : "entries/entry.ent".utf8ByteSize < 256 ^ 8)
    · rintro s ⟨⟩
    · intro a ha
      simp only [rowOf, List.mem_cons, List.not_mem_nil, or_false] at ha
      rcases ha with rfl | rfl
      · exact (by decide : 1 < 256 ^ 8 ∧ 40 < 256 ^ 8)
      · exact (by decide : 2 < 256 ^ 8 ∧ 50 < 256 ^ 8)
  · refine ⟨hid, List.reverse_perm, ?_⟩
    rintro expected s3Key ⟨⟩
  · exact hid

theorem sealed_row_read_back :
    ∃ p as, performAll (fun _ => "decode error") bincodeRow plainPath .empty sealCalls =
        .ok (p, as) ∧
      List.Forall₂ (Agrees plainPath) as (serveAll .empty sealCalls).2 ∧
      ∀ r, get (fun _ => "decode error") bincodeRow p 7 = .ok (some r) →
        r.ledgerSizes.Perm [(1, 40), (2, 50)] := by
  obtain ⟨p, as, hrun, has, hsizes⟩ := registry_bytes_refine_table (fun _ => "decode error")
    bincodeRow plainPath sealCalls sealCalls_fit
  exact ⟨p, as, hrun, has, fun r hr => hsizes 7 r (by decide) hr⟩

end Refinement
end Folio.RegistryRows
