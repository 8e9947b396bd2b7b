import Folio.DurableLog
import Folio.EntrySegment
import Folio.TransitionSystem
import Mathlib.Data.Nat.Digits.Lemmas

/-! One entry registry with the offloader, the flush loop and the registrations of recovery
working on it, each compare-and-swap cut between its `get` and its `upsert`. A segment file
and an S3 object are the list of their records. -/
namespace Folio.Offloader
open KeyedTable DurableLog Protocol Fjall Fjall.SegmentRegistry EntrySegment

section ObjectKeys

/-- `{:016x}`. -/
def hex16 (n : Nat) : String :=
  String.ofList (((Nat.digits 16 n).reverse.map Nat.digitChar).leftpad 16 '0')

def s3Key (id : SegmentId) : String := "entries/" ++ hex16 id ++ ".ent"

theorem digitChar_inj {a b : Nat} (ha : a < 16) (hb : b < 16)
    (h : Nat.digitChar a = Nat.digitChar b) : a = b := by
  have hall : ∀ a < 16, ∀ b < 16, Nat.digitChar a = Nat.digitChar b → a = b := by decide
  exact hall a ha b hb h

theorem map_digitChar_inj {l l' : List Nat} (hl : ∀ d ∈ l, d < 16) (hl' : ∀ d ∈ l', d < 16)
    (h : l.map Nat.digitChar = l'.map Nat.digitChar) : l = l' := by
  induction l generalizing l' with
  | nil => exact (List.map_eq_nil_iff.mp h.symm).symm
  | cons d l ih =>
    cases l' with
    | nil => cases h
    | cons d' l' =>
      obtain ⟨hd, hrest⟩ := List.cons_eq_cons.mp h
      rw [digitChar_inj (hl d List.mem_cons_self) (hl' d' List.mem_cons_self) hd]
      rw [ih (fun e he => hl e (List.mem_cons_of_mem _ he))
        (fun e he => hl' e (List.mem_cons_of_mem _ he)) hrest]

def padded (n : Nat) : List Nat :=
  Nat.digits 16 n ++ List.replicate (16 - (Nat.digits 16 n).length) 0

theorem padded_lt {n d : Nat} (h : d ∈ padded n) : d < 16 := by
  rcases List.mem_append.mp h with hdigit | hzero
  · exact Nat.digits_lt_base (by decide) hdigit
  · rw [List.eq_of_mem_replicate hzero]
    decide

theorem hex16_padded (n : Nat) :
    hex16 n = String.ofList ((padded n).reverse.map Nat.digitChar) := by
  have hzero : Nat.digitChar 0 = '0' := rfl
  simp [hex16, padded, List.leftpad, hzero]

theorem hex16_inj {n m : Nat} (h : hex16 n = hex16 m) : n = m := by
  rw [hex16_padded, hex16_padded] at h
  have hchars := String.ofList_injective h
  have hrev : (padded n).reverse = (padded m).reverse :=
    map_digitChar_inj (fun _ hd => padded_lt (List.mem_reverse.mp hd))
      (fun _ hd => padded_lt (List.mem_reverse.mp hd)) hchars
  have hpad := congrArg (Nat.ofDigits 16) (List.reverse_injective hrev)
  simpa [padded, Nat.ofDigits_append_replicate_zero, Nat.ofDigits_digits] using hpad

theorem s3Key_inj {id id' : SegmentId} (h : s3Key id = s3Key id') : id = id' := by
  have hlist := congrArg String.toList h
  simp only [s3Key, String.toList_append] at hlist
  have hmid := List.append_cancel_left (List.append_cancel_right hlist)
  exact hex16_inj (String.toList_injective hmid)

end ObjectKeys

abbrev Records := List (Key × Bytes)

structure Job where
  id : SegmentId
  file : SegmentId
  deriving DecidableEq

/-- `seen` is the row that a compare-and-swap has read and not yet written. -/
inductive OffloadPc where
  | between
  | marking (j : Job) (seen : Option SegmentMeta)
  | uploading (j : Job) (attempt : Nat)
  | verifying (j : Job)
  | recording (j : Job) (seen : Option SegmentMeta)
  | rollingBack (j : Job) (seen : Option SegmentMeta)
  | removing (j : Job)
  deriving DecidableEq

structure Offload where
  pending : List SegmentMeta
  pc : OffloadPc

inductive FlushPc where
  | recovering (rest : List SegmentId)
  | listing (st : SegmentStatus)
  | resetting (st : SegmentStatus) (orphans : List SegmentMeta) (seen : Option SegmentMeta)
  | starting
  | opening (id : SegmentId)
  | created (id : SegmentId)
  | writing (id : SegmentId) (flushed : Bool)
  | synced (id : SegmentId)
  | sealing (id : SegmentId) (seen : Option SegmentMeta)
  | stopped
  deriving DecidableEq

/-- `written` is what the flush loop has written and synced to a segment; the code has no such
record. -/
structure State where
  registry : Log SegmentId SegmentMeta
  files : Table SegmentId Records
  objects : Table String Records
  offload : Offload
  flush : FlushPc
  written : Table SegmentId Records

namespace State
variable (s : State)

def rows : SegmentRegistry := s.registry.contents
def upsert (m : SegmentMeta) : State := { s with registry := s.registry.insert m.id m }
def setOffload (pc : OffloadPc) : State := { s with offload := { s.offload with pc } }
def setFlush (pc : FlushPc) : State := { s with flush := pc }

end State

def casGet (rows : SegmentRegistry) (id : SegmentId) (op : CasOp) : Option SegmentMeta :=
  (rows.get id).filter fun m => decide (m.status = op.expected)

section ProcessPending

def maxRetries : Nat := 5

def mark : CasOp := .status .Local .Offloading
def rollBack : CasOp := .status .Offloading .Local
def record (id : SegmentId) : CasOp := .toS3 .Offloading (s3Key id)

inductive Upload where
  | ok
  | failed (stored : Bool)

/-- `skip` is a segment without local path or not old enough, `error` an error of the registry
call that is under way. -/
inductive OffloadAct where
  | list (order : List SegmentMeta)
  | skip
  | take
  | get
  | upsert
  | error
  | upload (out : Upload)
  | head (ok : Bool)
  | remove (ok : Bool)

def putObject (s : State) (j : Job) (pc : OffloadPc) : Option State :=
  (s.files.get j.file).map fun data =>
    { s with objects := s.objects.put (s3Key j.id) data }.setOffload pc

def afterFailure (j : Job) (attempt : Nat) : OffloadPc :=
  if attempt < maxRetries then .uploading j (attempt + 1) else .rollingBack j none

def takeNext (s : State) : Option State :=
  match s.offload.pending with
  | m :: rest =>
    match m.localPath with
    | some (.entrySeg file) => some { s with offload := ⟨rest, .marking ⟨m.id, file⟩ none⟩ }
    | _ => none
  | [] => none

def stepOffload (s : State) (a : OffloadAct) : Option State :=
  match a, s.offload.pc with
  | .list order, .between =>
    if s.offload.pending.isEmpty ∧ order.isPerm (listByStatus s.rows .Local) then
      some { s with offload := ⟨order, .between⟩ }
    else none
  | .skip, .between => some { s with offload := ⟨s.offload.pending.tail, .between⟩ }
  | .take, .between => takeNext s
  | .get, .marking j none =>
    some (s.setOffload ((casGet s.rows j.id mark).elim .between fun m => .marking j (some m)))
  | .upsert, .marking j (some m) => some ((s.upsert (mark.write m)).setOffload (.uploading j 0))
  | .error, .marking _ _ => some (s.setOffload .between)
  | .upload .ok, .uploading j _ => putObject s j (.verifying j)
  | .upload (.failed true), .uploading j n => putObject s j (afterFailure j n)
  | .upload (.failed false), .uploading j n => some (s.setOffload (afterFailure j n))
  | .head true, .verifying j =>
    if (s.objects.get (s3Key j.id)).isSome then some (s.setOffload (.recording j none)) else none
  | .head false, .verifying j => some (s.setOffload (.rollingBack j none))
  -- `Ok(false)` of `cas_to_s3` is not told from `Ok(true)`
  | .get, .recording j none =>
    some (s.setOffload ((casGet s.rows j.id (record j.id)).elim (.removing j) fun m =>
      .recording j (some m)))
  | .upsert, .recording j (some m) =>
    some ((s.upsert ((record j.id).write m)).setOffload (.removing j))
  | .error, .recording j _ => some (s.setOffload (.rollingBack j none))
  | .get, .rollingBack j none =>
    some (s.setOffload ((casGet s.rows j.id rollBack).elim .between fun m =>
      .rollingBack j (some m)))
  | .upsert, .rollingBack _ (some m) => some ((s.upsert (rollBack.write m)).setOffload .between)
  | .error, .rollingBack _ _ => some (s.setOffload .between)
  | .remove true, .removing j =>
    some ({ s with files := s.files.del j.file }.setOffload .between)
  | .remove false, .removing _ => some (s.setOffload .between)
  | _, _ => none

end ProcessPending

section FlushLoop

inductive FlushAct where
  | recover (byteLen : Nat)
  | unreadable
  | list (order : List SegmentMeta)
  | listError
  | get
  | upsert
  | error
  | next
  | create
  | register
  | batch (rs : Records)
  | batchFails (part : Records)
  | update (byteLen : Nat)
  | seal
  | stop

def reset (st : SegmentStatus) : CasOp := .status st .Local

def sealOp : CasOp := .status .Active .Local

def afterResets : SegmentStatus → FlushPc
  | .Active => .listing .Offloading
  | _ => .starting

def appendFile (s : State) (id : SegmentId) (rs : Records) (pc : FlushPc) :
    Option State :=
  (s.files.get id).map fun data => { s with files := s.files.put id (data ++ rs) }.setFlush pc

def wrote (s : State) (id : SegmentId) (rs : Records) : State :=
  { s with written := s.written.put id ((s.written.get id).getD [] ++ rs) }

def stepFlush (s : State) (a : FlushAct) : Option State :=
  match a, s.flush with
  | .recover byteLen, .recovering (id :: rest) =>
    some (if (s.files.get id).isSome ∧ (s.rows.get id).isNone then
        (s.upsert (entryMeta id .Local byteLen)).setFlush (.recovering rest)
      else s.setFlush (.recovering rest))
  | .unreadable, .recovering (_ :: rest) => some (s.setFlush (.recovering rest))
  | .next, .recovering [] => some (s.setFlush (.listing .Active))
  | .list order, .listing st =>
    if order.isPerm (listByStatus s.rows st) then some (s.setFlush (.resetting st order none))
    else none
  | .listError, .listing st => some (s.setFlush (afterResets st))
  | .get, .resetting st (m :: rest) none =>
    some (s.setFlush (if m.kind = .Entry then
        (casGet s.rows m.id (reset st)).elim (.resetting st rest none) fun seen =>
          .resetting st (m :: rest) (some seen)
      else .resetting st rest none))
  | .upsert, .resetting st (_ :: rest) (some seen) =>
    some ((s.upsert ((reset st).write seen)).setFlush (.resetting st rest none))
  | .error, .resetting st (_ :: rest) _ => some (s.setFlush (.resetting st rest none))
  | .next, .resetting st [] none => some (s.setFlush (afterResets st))
  | .next, .starting => some (s.setFlush (.opening (nextEntrySegId s.files s.rows)))
  | .create, .opening id =>
    some ({ s with
      files := s.files.put id []
      written := s.written.put id [] }.setFlush (.created id))
  | .register, .created id =>
    some ((s.upsert (entryMeta id .Active 0)).setFlush (.writing id false))
  | .batch rs, .writing id _ => appendFile (wrote s id rs) id rs (.synced id)
  | .batchFails part, .writing id _ => appendFile s id part .stopped
  | .update byteLen, .synced id =>
    some ((s.upsert (entryMeta id .Active byteLen)).setFlush (.writing id true))
  | .seal, .writing id true => some (s.setFlush (.sealing id none))
  | .get, .sealing id none =>
    some (s.setFlush ((casGet s.rows id sealOp).elim (.opening (id + 1)) fun seen =>
      .sealing id (some seen)))
  | .upsert, .sealing id (some seen) =>
    some ((s.upsert (sealOp.write seen)).setFlush (.opening (id + 1)))
  | .error, .sealing _ _ => some (s.setFlush .stopped)
  | .stop, .recovering _ => none
  | .stop, _ => some (s.setFlush .stopped)
  | _, _ => none

end FlushLoop

inductive Act where
  | offload (a : OffloadAct)
  | flush (a : FlushAct)
  | persist
  | crash (kept : Nat)

def step (s : State) : Act → Option State
  | .offload a => if s.flush matches .recovering _ then none else stepOffload s a
  | .flush a => stepFlush s a
  | .persist => some { s with registry := s.registry.sync }
  | .crash kept => (s.registry.crash kept).map fun registry =>
    { s with registry, offload := ⟨[], .between⟩, flush := .recovering s.files.keys }

def fresh : State where
  registry := ⟨[], 0, le_rfl⟩
  files := .empty
  objects := .empty
  offload := ⟨[], .between⟩
  flush := .recovering []
  written := .empty

section Conditions

def inHand : OffloadPc → Option SegmentId
  | .uploading j _ | .verifying j | .recording j _ | .rollingBack j _ | .removing j => some j.id
  | .between | .marking _ _ => none

/-- No start-up reset finds a segment `Offloading` that the offloader has in hand. -/
def resetsApart (s : State) : Act → Prop
  | .flush .get =>
    match s.flush with
    | .resetting .Offloading (m :: _) none =>
      (casGet s.rows m.id (reset .Offloading)).isNone ∨ inHand s.offload.pc ≠ some m.id
    | _ => True
  | _ => True

/-- No registry write is unpersisted when `remove_file` runs. -/
def removesPersisted (s : State) : Act → Prop
  | .offload (.remove _) => s.registry.synced = s.registry.writes.length
  | _ => True

def inOrder (s : State) (a : Act) : Prop := resetsApart s a ∧ removesPersisted s a

instance (s : State) (a : Act) : Decidable (resetsApart s a) := by
  unfold resetsApart
  split
  · split <;> infer_instance
  · infer_instance

instance (s : State) (a : Act) : Decidable (removesPersisted s a) := by
  unfold removesPersisted
  split <;> infer_instance

instance (s : State) (a : Act) : Decidable (inOrder s a) :=
  inferInstanceAs (Decidable (resetsApart s a ∧ removesPersisted s a))

end Conditions
end Folio.Offloader
