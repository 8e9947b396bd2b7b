import Folio.Journal
import Folio.RecordCodec
import Folio.TransitionSystem

/-! The journal thread of one session: `journal_loop` with its batches, its positioned writes and
`do_seal`, one step for each message taken and each I/O call. Registry and watch channel are left
out. -/
namespace Folio.JournalLoop
open KeyedTable Protocol Fjall Segment RecordCodec Journal

def maxBatchBytes : Nat := 64 * 1024

/-- `MAX_RW_COUNT`: what one write can transfer on Linux. -/
def maxTransfer : Nat := 0x7ffff000

/-- A `Write` message; `ack` tells the senders of the answers apart. -/
structure WriteReq extends Push where
  ack : Nat
  deriving DecidableEq

inductive JournalMsg where
  | Write (req : WriteReq)
  | Seal
  deriving DecidableEq

/-- `(segment_id, file_offset, record_len)`. -/
abbrev Ack := SegmentId × Nat × Nat

section Batch
variable (crc32 : Bytes → UInt32)

structure Filling where
  batch : List WriteReq
  offsets : List (Nat × Nat)
  buf : Bytes
  deriving DecidableEq

def Filling.new : Filling := ⟨[], [], []⟩

def Filling.push (f : Filling) (r : WriteReq) : Filling where
  batch := f.batch ++ [r]
  offsets := f.offsets ++ [(f.buf.length, (recordOverhead + r.payload.length) % 2 ^ 32)]
  buf := f.buf ++ r.toPush.encode crc32

/-- `make_aligned` pads once more, which finds nothing to pad. -/
def makeAligned (data : Bytes) : Bytes := paddedAligned data

def Filling.padded (f : Filling) : Bytes := paddedAligned f.buf

end Batch

/-- Position of the thread. A seal remembers whether a `Seal` message asked for it. -/
inductive Pc where
  | receiving
  | filling (f : Filling)
  | writing (f : Filling)
  | syncing (f : Filling)
  | checking
  | sealSync (asked : Bool)
  | sealRename (asked : Bool)
  | sealReopen (asked : Bool)
  deriving DecidableEq

/-- `renamed`: the open file is `seg-{id}.seg` already. The lists from `sent` on record what has
happened. -/
structure State where
  files : Table SegPath Bytes
  segId : SegmentId
  fileOffset : Nat
  renamed : Bool
  rx : List JournalMsg
  pc : Pc
  sent : List WriteReq
  writes : List (Nat × Nat)
  answers : List (WriteReq × Except FolioError Ack)
  sealAnswers : List (Except FolioError SegmentId)
  seals : List SegmentId

def State.path (s : State) (id : SegmentId) : SegPath :=
  if id = s.segId ∧ s.renamed = false then .activeSeg else .sealedSeg id

def State.file (s : State) : Bytes := (s.files.get (s.path s.segId)).getD []

def State.setFile (s : State) (data : Bytes) : State :=
  { s with files := s.files.put (s.path s.segId) data }

/-- The result of `write_at`: all bytes, some of them, or an error that may leave anything in the
range. -/
inductive WriteOutcome where
  | full
  | short (n : Nat)
  | error (left : Bytes) (e : String)
  deriving DecidableEq

/-- A client sends a message, or the thread goes on; an I/O call that fails carries its error. -/
inductive Act where
  | sendWrite (p : Push)
  | sendSeal
  | recv
  | tryRecv (found : Bool)
  | batchFull
  | write (o : WriteOutcome)
  | sync (err : Option String)
  | check
  | sealSync (err : Option String)
  | rename (err : Option String)
  | reopen (err : Option String)
  deriving DecidableEq

section Step

def writeSome (data : Bytes) (off : Nat) (bs : Bytes) : Bytes :=
  if bs = [] then data else writeAt data off bs

def State.fail (s : State) (f : Filling) (msg : String) : State :=
  { s with
    answers := s.answers ++ f.batch.map fun r => (r, .error (.storage msg))
    pc := .checking }

def State.ackAll (s : State) (f : Filling) : State :=
  { s with
    fileOffset := s.fileOffset + f.padded.length
    answers := s.answers ++ (f.batch.zip f.offsets).map fun p =>
      (p.1, .ok (s.segId, s.fileOffset + p.2.1, p.2.2))
    pc := .checking }

def State.sealFailed (s : State) (asked : Bool) (e : String) : State :=
  { s with
    sealAnswers := if asked then s.sealAnswers ++ [.error (.storage e)] else s.sealAnswers
    pc := .receiving }

/-- `do_seal` has returned `next_id`; a `Seal` message is answered `next_id - 1`. -/
def State.sealDone (s : State) (asked : Bool) : State :=
  { s with
    files := openOdirect s.files
    segId := (s.segId + 1) % 2 ^ 64
    fileOffset := 0
    renamed := false
    sealAnswers := if asked then
      s.sealAnswers ++ [.ok (((s.segId + 1) % 2 ^ 64 + (2 ^ 64 - 1)) % 2 ^ 64)] else s.sealAnswers
    seals := s.seals ++ [s.segId]
    pc := .receiving }

def shortWrite (pos expected n : Nat) : String :=
  s!"lsmc-journal: short write at offset {pos}: expected {expected} bytes, wrote {n}"

variable (crc32 : Bytes → UInt32) (threshold : Nat)

def writeStep (s : State) (f : Filling) : WriteOutcome → Option State
  | .full =>
    if f.padded.length ≤ maxTransfer then
      some { s.setFile (writeAt s.file s.fileOffset (makeAligned f.padded)) with
        writes := s.writes ++ [(s.fileOffset, (makeAligned f.padded).length)]
        pc := .syncing f }
    else none
  | .short n =>
    if n < f.padded.length then
      some (({ s.setFile (writeSome s.file s.fileOffset ((makeAligned f.padded).take n)) with
        writes := s.writes ++ [(s.fileOffset, (makeAligned f.padded).length)] }).fail f
          (shortWrite s.fileOffset f.padded.length n))
    else none
  | .error left e =>
    if left.length ≤ f.padded.length then
      some (({ s.setFile (writeSome s.file s.fileOffset left) with
        writes := s.writes ++ [(s.fileOffset, (makeAligned f.padded).length)] }).fail f e)
    else none

def step (s : State) (a : Act) : Option State :=
  match a, s.pc with
  | .sendWrite p, _ => some { s with
      sent := s.sent ++ [⟨p, s.sent.length⟩]
      rx := s.rx ++ [.Write ⟨p, s.sent.length⟩] }
  | .sendSeal, _ => some { s with rx := s.rx ++ [.Seal] }
  | .recv, .receiving =>
    match s.rx with
    | .Write r :: rx => some { s with rx, pc := .filling (Filling.new.push crc32 r) }
    | .Seal :: rx => some { s with rx, pc := .sealSync true }
    | [] => none
  | .tryRecv found, .filling f =>
    if f.buf.length < maxBatchBytes then
      if found then
        match s.rx with
        | .Write r :: rx => some { s with rx, pc := .filling (f.push crc32 r) }
        | .Seal :: rx => some { s with
            rx, sealAnswers := s.sealAnswers ++ [.error (.storage "seal during batch; retry")] }
        | [] => none
      else some { s with pc := .writing f }
    else none
  | .batchFull, .filling f =>
    if f.buf.length < maxBatchBytes then none else some { s with pc := .writing f }
  | .write o, .writing f => writeStep s f o
  | .sync none, .syncing f => some (s.ackAll f)
  | .sync (some e), .syncing f => some (s.fail f s!"fdatasync failed: {e}")
  | .check, .checking =>
    some { s with pc := if threshold ≤ s.fileOffset then .sealSync false else .receiving }
  | .sealSync none, .sealSync asked => some { s with pc := .sealRename asked }
  | .sealSync (some e), .sealSync asked => some (s.sealFailed asked e)
  | .rename none, .sealRename asked =>
    (renameActive s.files s.segId).map fun files =>
      { s with files, renamed := true, pc := .sealReopen asked }
  | .rename (some e), .sealRename asked => some (s.sealFailed asked e)
  | .reopen none, .sealReopen asked => some (s.sealDone asked)
  | .reopen (some e), .sealReopen asked => some (s.sealFailed asked e)
  | _, _ => none

/-- A session starts with `active.seg` opened, at any block-aligned offset. -/
structure Init (s : State) : Prop where
  offset : s.fileOffset % align = 0
  renamed : s.renamed = false
  rx : s.rx = []
  pc : s.pc = .receiving
  sent : s.sent = []
  writes : s.writes = []
  answers : s.answers = []
  sealAnswers : s.sealAnswers = []
  seals : s.seals = []

inductive Effect (s : State) : Act → State → Prop
  | sendWrite (p : Push) : Effect s (.sendWrite p) { s with
      sent := s.sent ++ [⟨p, s.sent.length⟩]
      rx := s.rx ++ [.Write ⟨p, s.sent.length⟩] }
  | sendSeal : Effect s .sendSeal { s with rx := s.rx ++ [.Seal] }
  | recvWrite {r rx} (hpc : s.pc = .receiving) (hrx : s.rx = .Write r :: rx) :
      Effect s .recv { s with rx, pc := .filling (Filling.new.push crc32 r) }
  | recvSeal {rx} (hpc : s.pc = .receiving) (hrx : s.rx = .Seal :: rx) :
      Effect s .recv { s with rx, pc := .sealSync true }
  | tryWrite {f r rx} (hpc : s.pc = .filling f) (hrx : s.rx = .Write r :: rx) :
      Effect s (.tryRecv true) { s with rx, pc := .filling (f.push crc32 r) }
  | trySeal {f rx} (hpc : s.pc = .filling f) (hrx : s.rx = .Seal :: rx) :
      Effect s (.tryRecv true) { s with
        rx, sealAnswers := s.sealAnswers ++ [.error (.storage "seal during batch; retry")] }
  | tryNone {f} (hpc : s.pc = .filling f) : Effect s (.tryRecv false) { s with pc := .writing f }
  | batchFull {f} (hpc : s.pc = .filling f) : Effect s .batchFull { s with pc := .writing f }
  | wrote {f} (hpc : s.pc = .writing f) (hlen : f.padded.length ≤ maxTransfer) :
      Effect s (.write .full) { s.setFile (writeAt s.file s.fileOffset (makeAligned f.padded)) with
        writes := s.writes ++ [(s.fileOffset, (makeAligned f.padded).length)]
        pc := .syncing f }
  | writeFailed {f} (o : WriteOutcome) (left : Bytes) (msg : String) (hpc : s.pc = .writing f) :
      Effect s (.write o) (({ s.setFile (writeSome s.file s.fileOffset left) with
        writes := s.writes ++ [(s.fileOffset, (makeAligned f.padded).length)] }).fail f msg)
  | synced {f} (hpc : s.pc = .syncing f) : Effect s (.sync none) (s.ackAll f)
  | syncFailed {f} (e : String) (hpc : s.pc = .syncing f) :
      Effect s (.sync (some e)) (s.fail f s!"fdatasync failed: {e}")
  | check (hpc : s.pc = .checking) : Effect s .check
      { s with pc := if threshold ≤ s.fileOffset then .sealSync false else .receiving }
  | sealSynced {asked} (hpc : s.pc = .sealSync asked) :
      Effect s (.sealSync none) { s with pc := .sealRename asked }
  | sealSyncFailed {asked} (e : String) (hpc : s.pc = .sealSync asked) :
      Effect s (.sealSync (some e)) (s.sealFailed asked e)
  | renamed {asked data} (hpc : s.pc = .sealRename asked)
      (hfile : s.files.get .activeSeg = some data) :
      Effect s (.rename none) { s with
        files := (s.files.del .activeSeg).put (.sealedSeg s.segId) data, renamed := true
        pc := .sealReopen asked }
  | renameFailed {asked} (e : String) (hpc : s.pc = .sealRename asked) :
      Effect s (.rename (some e)) (s.sealFailed asked e)
  | reopened {asked} (hpc : s.pc = .sealReopen asked) :
      Effect s (.reopen none) (s.sealDone asked)
  | reopenFailed {asked} (e : String) (hpc : s.pc = .sealReopen asked) :
      Effect s (.reopen (some e)) (s.sealFailed asked e)

variable {crc32 threshold} {s t : State} {a : Act}

theorem step_effect (h : step crc32 threshold s a = some t) : Effect crc32 threshold s a t := by
  unfold step at h
  split at h
  · cases h
    exact .sendWrite _
  · cases h
    exact .sendSeal
  · split at h <;> cases h
    · exact .recvWrite ‹_› ‹_›
    · exact .recvSeal ‹_› ‹_›
  · split_ifs at h with hlen hfound
    · subst hfound
      split at h <;> cases h
      · exact .tryWrite ‹_› ‹_›
      · exact .trySeal ‹_› ‹_›
    · cases h
      rw [Bool.eq_false_iff.mpr hfound]
      exact .tryNone ‹_›
  · split_ifs at h
    cases h
    exact .batchFull ‹_›
  · rename_i o f hpc
    cases o with
    | full =>
      simp only [writeStep] at h
      split_ifs at h with hlen
      cases h
      exact .wrote hpc hlen
    | short n =>
      simp only [writeStep] at h
      split_ifs at h
      cases h
      exact .writeFailed _ _ _ hpc
    | error left e =>
      simp only [writeStep] at h
      split_ifs at h
      cases h
      exact .writeFailed _ _ _ hpc
  · cases h
    exact .synced ‹_›
  · cases h
    exact .syncFailed _ ‹_›
  · cases h
    exact .check ‹_›
  · cases h
    exact .sealSynced ‹_›
  · cases h
    exact .sealSyncFailed _ ‹_›
  · obtain ⟨files, hfiles, rfl⟩ := Option.map_eq_some_iff.mp h
    obtain ⟨data, hdata, rfl⟩ := Option.map_eq_some_iff.mp hfiles
    exact .renamed ‹_› hdata
  · cases h
    exact .renameFailed _ ‹_›
  · cases h
    exact .reopened ‹_›
  · cases h
    exact .reopenFailed _ ‹_›
  · cases h

end Step
end Folio.JournalLoop
