import Folio.Offloader

/-! Where the records of a segment are, by the status of its row. A thread that has read a row,
or has put it into a status of its own, has a claim on it. -/
namespace Folio.Offloader
open KeyedTable Fjall Fjall.SegmentRegistry EntrySegment
variable {rows : SegmentRegistry} {id : SegmentId} {m : SegmentMeta}

def Complete (written : Table SegmentId Records) (id : SegmentId)
    (data : Records) : Prop :=
  ∃ w, written.get id = some w ∧ w <+: data

section Rows
variable {files files' written written' : Table SegmentId Records}
  {objects objects' : Table String Records}

structure RowOk (files : Table SegmentId Records)
    (objects : Table String Records) (id : SegmentId) (m : SegmentMeta) : Prop where
  id_eq : m.id = id
  onDisk : m.status ≠ .S3 → m.localPath = some (.entrySeg id) ∧ (files.get id).isSome
  inS3 : m.status = .S3 → m.s3Key = some (s3Key id) ∧ (objects.get (s3Key id)).isSome

theorem RowOk.status {st new : SegmentStatus} (h : RowOk files objects id m)
    (hold : m.status ≠ .S3) (hnew : new ≠ .S3) :
    RowOk files objects id ((CasOp.status st new).write m) :=
  ⟨h.id_eq, fun _ => h.onDisk hold, fun hs3 => absurd hs3 hnew⟩

theorem RowOk.record (h : RowOk files objects id m) (hobj : (objects.get (s3Key id)).isSome) :
    RowOk files objects id ((record id).write m) :=
  ⟨h.id_eq, fun hne => absurd rfl hne, fun _ => ⟨rfl, hobj⟩⟩

theorem rowOk_entryMeta {st : SegmentStatus} {byteLen : Nat} (hst : st ≠ .S3)
    (hfile : (files.get id).isSome) : RowOk files objects id (entryMeta id st byteLen) :=
  ⟨rfl, fun _ => ⟨rfl, hfile⟩, fun hs3 => absurd hs3 hst⟩

/-- Every row tells where the records are, and a file is gone only under an `S3` row. -/
structure RowsOk (files : Table SegmentId Records)
    (objects : Table String Records)
    (written : Table SegmentId Records) (rows : SegmentRegistry) : Prop where
  row : ∀ id m, rows.get id = some m → RowOk files objects id m
  gone : ∀ id, (written.get id).isSome → files.get id = none →
    ∃ m, rows.get id = some m ∧ m.status = .S3

theorem RowsOk.put (h : RowsOk files objects written rows) (hrow : RowOk files objects id m) :
    RowsOk files objects written (rows.put id m) where
  row := by
    intro id' m' hget
    rw [Table.get_put] at hget
    split_ifs at hget with heq
    · cases hget
      rw [heq]
      exact hrow
    · exact h.row id' m' hget
  gone := by
    intro id' hw hnone
    rw [Table.get_put]
    split_ifs with heq
    · refine ⟨m, rfl, ?_⟩
      by_contra hne
      have hfile := (hrow.onDisk hne).2
      rw [← heq, hnone] at hfile
      cases hfile
    · exact h.gone id' hw hnone

theorem RowsOk.mono (h : RowsOk files objects written rows)
    (hfiles : ∀ id, (files.get id).isSome → (files'.get id).isSome)
    (hobjects : ∀ key, (objects.get key).isSome → (objects'.get key).isSome)
    (hwritten : ∀ id, (written'.get id).isSome → (written.get id).isSome ∨ (files'.get id).isSome) :
    RowsOk files' objects' written' rows where
  row := by
    intro id m hget
    have hrow := h.row id m hget
    exact ⟨hrow.id_eq, fun hne => (hrow.onDisk hne).imp_right (hfiles id),
      fun hs3 => (hrow.inS3 hs3).imp_right (hobjects _)⟩
  gone := by
    intro id hw hnone
    rcases hwritten id hw with hold | hfile
    · refine h.gone id hold ?_
      by_contra hne
      have hfile := hfiles id (Option.isSome_iff_ne_none.mpr hne)
      rw [hnone] at hfile
      cases hfile
    · rw [hnone] at hfile
      cases hfile

theorem RowsOk.remove (h : RowsOk files objects written rows) (hget : rows.get id = some m)
    (hst : m.status = .S3) : RowsOk (files.del id) objects written rows where
  row := by
    intro id' m' hget'
    have hrow := h.row id' m' hget'
    refine ⟨hrow.id_eq, fun hne => ?_, hrow.inS3⟩
    have hid : id' ≠ id := by
      rintro rfl
      rw [hget] at hget'
      cases hget'
      exact hne hst
    rw [Table.get_del_ne _ hid]
    exact hrow.onDisk hne
  gone := by
    intro id' hw hnone
    by_cases hid : id' = id
    · rw [hid]
      exact ⟨m, hget, hst⟩
    · rw [Table.get_del_ne _ hid] at hnone
      exact h.gone id' hw hnone

theorem RowsOk.isWritten (h : RowsOk files objects written rows)
    (hfiles : ∀ id data, files.get id = some data → Complete written id data)
    (hobjects : ∀ id data, objects.get (s3Key id) = some data → Complete written id data)
    (hget : rows.get id = some m) : (written.get id).isSome := by
  have hrow := h.row id m hget
  have hsome : ∃ data, Complete written id data := by
    by_cases hst : m.status = .S3
    · obtain ⟨data, hdata⟩ := Option.isSome_iff_exists.mp (hrow.inS3 hst).2
      exact ⟨data, hobjects id data hdata⟩
    · obtain ⟨data, hdata⟩ := Option.isSome_iff_exists.mp (hrow.onDisk hst).2
      exact ⟨data, hfiles id data hdata⟩
  obtain ⟨data, w, hw, -⟩ := hsome
  rw [hw]
  rfl

end Rows

section Claims
variable {seen : Option SegmentMeta}

structure Claim where
  id : SegmentId
  status : SegmentStatus
  seen : Option SegmentMeta

def Claim.Met (c : Claim) (rows : SegmentRegistry) : Prop :=
  ∃ m, rows.get c.id = some m ∧ m.status = c.status ∧ ∀ m', c.seen = some m' → m' = m

variable {c : Claim} {st : SegmentStatus}

theorem Claim.Met.put (h : c.Met rows) (hne : c.id ≠ id) : c.Met (rows.put id m) := by
  unfold Claim.Met
  rw [Table.get_put_ne _ _ hne]
  exact h

theorem claim_put (rows : SegmentRegistry) (hst : m.status = st) :
    Claim.Met ⟨id, st, none⟩ (rows.put id m) :=
  ⟨m, Table.get_put_self _ _ _, hst, nofun⟩

theorem Claim.Met.forget (h : Claim.Met ⟨id, st, seen⟩ rows) : Claim.Met ⟨id, st, none⟩ rows := by
  obtain ⟨m, hget, hst, -⟩ := h
  exact ⟨m, hget, hst, nofun⟩

theorem Claim.Met.read (h : Claim.Met ⟨id, st, some m⟩ rows) :
    rows.get id = some m ∧ m.status = st := by
  obtain ⟨m', hget, hst, hseen⟩ := h
  cases hseen m rfl
  exact ⟨hget, hst⟩

theorem claim_casGet {op : CasOp} (h : casGet rows id op = some m) :
    Claim.Met ⟨id, op.expected, some m⟩ rows := by
  obtain ⟨hget, hst⟩ := Option.filter_eq_some_iff.mp h
  exact ⟨m, hget, of_decide_eq_true hst, fun m' hm' => (Option.some.inj hm').symm⟩

theorem Claim.Met.casGet {op : CasOp}
    (h : Claim.Met ⟨id, op.expected, seen⟩ rows) : casGet rows id op ≠ none := by
  obtain ⟨m, hget, hst, -⟩ := h
  unfold Offloader.casGet
  rw [hget, Option.filter_some, if_pos (decide_eq_true hst)]
  nofun

theorem Claim.Met.id_ne {c' : Claim} (h : c.Met rows) (h' : c'.Met rows)
    (hne : c.status ≠ c'.status) : c.id ≠ c'.id := by
  obtain ⟨m, hget, hst, -⟩ := h
  obtain ⟨m', hget', hst', -⟩ := h'
  intro heq
  rw [heq, hget'] at hget
  cases hget
  exact hne (hst.symm.trans hst')

def OffloadPc.claim : OffloadPc → Option Claim
  | .between | .marking _ none => none
  | .marking j (some m) => some ⟨j.id, .Local, some m⟩
  | .uploading j _ | .verifying j => some ⟨j.id, .Offloading, none⟩
  | .recording j seen | .rollingBack j seen => some ⟨j.id, .Offloading, seen⟩
  | .removing j => some ⟨j.id, .S3, none⟩

def FlushPc.claim : FlushPc → Option Claim
  | .resetting st (o :: _) (some seen) => some ⟨o.id, st, some seen⟩
  | .writing id _ | .synced id => some ⟨id, .Active, none⟩
  | .sealing id seen => some ⟨id, .Active, seen⟩
  | _ => none

end Claims

end Folio.Offloader
