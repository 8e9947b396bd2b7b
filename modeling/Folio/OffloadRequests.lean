import Folio.RelyGuarantee
import Folio.TieredReader

/-! The offloader's requests to the bucket, to the registry and to the local files, how they are
answered, and what goes on in between. -/
namespace Folio.OffloadRequests
open KeyedTable ByteCodec Protocol Fjall RemoteProgram RelyGuarantee

section Bucket

/-- S3 takes parts with these numbers, and no part but the last below this size. -/
def maxPartNumber : Nat := 10000
def minPartBytes : Nat := 5 * 1024 * 1024

def maxPutBytes : Nat := 5 * 1024 * 1024 * 1024

/-- The calls of an S3 bucket with state `υ`, of which nothing is assumed but the laws. A call that
stores an object returns it, and `part` is the ETag and the contents of a part of an upload. -/
structure S3 (υ : Type) where
  putObject (u : υ) (key : String) (contentLength : Nat) (body : Bytes) : υ × Except String Bytes
  createMultipartUpload (u : υ) (key : String) : υ × Except String (Option Nat)
  uploadPart (u : υ) (key : String) (uploadId partNumber : Nat) (body : Bytes) :
    υ × Except String (Option String)
  completeMultipartUpload (u : υ) (key : String) (uploadId : Nat) (parts : List (Nat × String)) :
    υ × Except String Bytes
  headObject (u : υ) (key : String) (object : Option Bytes) : Except String Unit
  Opened (u : υ) (key : String) (uploadId : Nat) : Prop
  part (u : υ) (key : String) (uploadId partNumber : Nat) : Option (String × Bytes)
  put_ok : ∀ u key body, body.length ≤ maxPutBytes →
    ∃ u', putObject u key body.length body = (u', .ok body)
  create_ok : ∀ u key, ∃ u' uploadId,
    createMultipartUpload u key = (u', .ok (some uploadId)) ∧ Opened u' key uploadId
  part_ok : ∀ u key uploadId n body, Opened u key uploadId → 1 ≤ n → n ≤ maxPartNumber →
    body.length ≤ maxPutBytes → ∃ u' eTag,
      uploadPart u key uploadId n body = (u', .ok (some eTag)) ∧ Opened u' key uploadId ∧
      part u' key uploadId n = some (eTag, body) ∧
      ∀ k, k ≠ n → part u' key uploadId k = part u key uploadId k
  part_refused : ∀ u key uploadId n body, maxPartNumber < n →
    ∃ u' e, uploadPart u key uploadId n body = (u', .error e)
  complete_ok : ∀ u key uploadId parts bodies, Opened u key uploadId → parts ≠ [] →
    (parts.Pairwise fun p q => p.1 < q.1) →
    List.Forall₂ (fun p body => part u key uploadId p.1 = some (p.2, body)) parts bodies →
    (∀ body ∈ bodies.dropLast, minPartBytes ≤ body.length) →
    ∃ u', completeMultipartUpload u key uploadId parts = (u', .ok bodies.flatten)
  head_ok : ∀ u key body, headObject u key (some body) = .ok ()

end Bucket

section Requests

structure World (υ : Type) where
  node : TieredReader.State
  bucket : υ
  modified : Table SegPath Nat
  now : Nat

namespace World
variable {υ : Type} (w : World υ)

def files : Table SegPath Bytes := w.node.files
def rows : SegmentRegistry := w.node.entryRegistry
def objects : Table String Bytes := w.node.objects
def putObject (key : String) (body : Bytes) : World υ :=
  { w with node := { w.node with objects := w.node.objects.put key body } }
def upsert (m : SegmentMeta) : World υ :=
  { w with node := { w.node with entryRegistry := w.node.entryRegistry.upsert m } }
def removeFile (path : SegPath) : World υ :=
  { w with node := { w.node with files := w.node.files.del path } }

def stored (key : String) : υ × Except String Bytes → World υ × Except String Unit
  | (bucket, .ok body) => ({ w.putObject key body with bucket }, .ok ())
  | (bucket, .error e) => ({ w with bucket }, .error e)

end World

inductive Op where
  | metadata (path : SegPath)
  | fromPath (path : SegPath)
  | readAt (path : SegPath) (offset length : Nat)
  | elapsed (path : SegPath)
  | removeFile (path : SegPath)
  | putObject (key : String) (contentLength : Nat) (body : Bytes)
  | createMultipartUpload (key : String)
  | uploadPart (key : String) (uploadId partNumber : Nat) (body : Bytes)
  | completeMultipartUpload (key : String) (uploadId : Nat) (parts : List (Nat × String))
  | headObject (key : String)
  | listByStatus (status : SegmentStatus)
  | get (id : SegmentId)
  | upsert (m : SegmentMeta)
  | sleep (seconds : Nat)

def Op.Reply : Op → Type
  | .metadata _ | .elapsed _ => Nat
  | .fromPath _ | .readAt _ _ _ => Bytes
  | .createMultipartUpload _ => Option Nat
  | .uploadPart _ _ _ _ => Option String
  | .listByStatus _ => List SegmentMeta
  | .get _ => Option SegmentMeta
  | .removeFile _ | .putObject _ _ _ | .completeMultipartUpload _ _ _ | .headObject _
  | .upsert _ | .sleep _ => Unit

abbrev Requests : Interface := ⟨Op, Op.Reply⟩

abbrev Client (α : Type) := Prog Requests String α

abbrev ask (o : Op) : Client o.Reply := Prog.request (I := Requests) o

/-- Any request but a sleep can fail, before or after it has had its effect, and a `read_at` may
return some of the bytes only. -/
inductive Outcome where
  | delivered
  | lostRequest (e : String)
  | lostReply (e : String)
  | short (n : Nat)
  deriving DecidableEq

variable {υ : Type} (s3 : S3 υ)

def noSuchFile : String := "No such file or directory (os error 2)"

def onFile {α : Type} (w : World υ) (path : SegPath) (f : Bytes → α) :
    World υ × Except String α :=
  match w.files.get path with
  | some data => (w, .ok (f data))
  | none => (w, .error noSuchFile)

def perform (w : World υ) : (o : Op) → World υ × Except String o.Reply
  | .metadata path => onFile w path List.length
  | .fromPath path => onFile w path id
  | .readAt path offset length => onFile w path (window · offset length)
  | .elapsed path =>
    match w.modified.get path with
    | some t => (w, if t ≤ w.now then .ok (w.now - t)
        else .error "second time provided was later than self")
    | none => (w, .error noSuchFile)
  | .removeFile path =>
    match w.files.get path with
    | some _ => (w.removeFile path, .ok ())
    | none => (w, .error noSuchFile)
  | .putObject key contentLength body =>
    w.stored key (s3.putObject w.bucket key contentLength body)
  | .createMultipartUpload key =>
    let r := s3.createMultipartUpload w.bucket key
    ({ w with bucket := r.1 }, r.2)
  | .uploadPart key uploadId partNumber body =>
    let r := s3.uploadPart w.bucket key uploadId partNumber body
    ({ w with bucket := r.1 }, r.2)
  | .completeMultipartUpload key uploadId parts =>
    w.stored key (s3.completeMultipartUpload w.bucket key uploadId parts)
  | .headObject key => (w, s3.headObject w.bucket key (w.objects.get key))
  | .listByStatus status =>
    (w, .ok ((SegmentRegistry.listByStatus w.rows status).insertionSort fun m m' => m.id ≤ m'.id))
  | .get id => (w, .ok (w.rows.get id))
  | .upsert m => (w.upsert m, .ok ())
  | .sleep _ => (w, .ok ())

def Outcome.send {α : Type} (d : Outcome) (call : World υ × Except String α) (w : World υ) :
    World υ × Except String α :=
  match d with
  | .delivered | .short _ => call
  | .lostRequest e => (w, .error e)
  | .lostReply e => (call.1, .error e)

def answer (d : Outcome) (w : World υ) (o : Op) : World υ × Except String o.Reply :=
  match o, d with
  | .sleep _, _ => (w, .ok ())
  | .readAt path offset length, .short n =>
    onFile w path fun data => (window data offset length).take n
  | o, d => d.send (perform s3 w o) w

end Requests

section Interference
variable {υ : Type}

/-- What the others leave alone: the bucket, and every segment that is not written any more. -/
structure Apart (w w' : World υ) : Prop where
  objects : w'.node.objects = w.node.objects
  s3 : w'.node.s3 = w.node.s3
  bucket : w'.bucket = w.bucket
  row : ∀ id m, w.rows.get id = some m → m.status ≠ .Active → w'.rows.get id = some m
  file : ∀ id m, w.rows.get id = some m → m.status ≠ .Active →
    w'.files.get (.entrySeg id) = w.files.get (.entrySeg id)
  inv : TieredReader.Inv w.node → TieredReader.Inv w'.node

theorem Apart.refl (w : World υ) : Apart w w where
  objects := rfl
  s3 := rfl
  bucket := rfl
  row _ _ h _ := h
  file _ _ _ _ := rfl
  inv h := h

theorem Apart.trans {w w' w'' : World υ} (h : Apart w w') (h' : Apart w' w'') : Apart w w'' where
  objects := h'.objects.trans h.objects
  s3 := h'.s3.trans h.s3
  bucket := h'.bucket.trans h.bucket
  row id m hm hst := h'.row id m (h.row id m hm hst) hst
  file id m hm hst := (h'.file id m (h.row id m hm hst) hst).trans (h.file id m hm hst)
  inv hw := h'.inv (h.inv hw)

end Interference

section Rules
variable {δ υ : Type} (s3 : S3 υ) (out : δ → Outcome) {o : Op}
  {post : Except String o.Reply → World υ → Prop}

/-- The answers of a bucket, a registry and a disk that fail in some of the ways of `Outcome`. -/
def answers (d : δ) (w : World υ) (o : Op) : World υ × Except String o.Reply :=
  answer s3 (out d) w o

/-- No `read_at` returns less than there is of what it is asked for. -/
def FullReads : Prop := ∀ d n, out d ≠ .short n

def Faulty : Prop := ∃ d, out d ≠ .delivered

variable {s3 out} {guar : World υ → World υ → Prop} {w : World υ}

theorem answers_eq (hfull : FullReads out) (hsleep : ∀ n, o ≠ .sleep n) (d : δ)
    (w : World υ) : answers s3 out d w o = (out d).send (perform s3 w o) w := by
  cases o with
  | sleep n => exact absurd rfl (hsleep n)
  | readAt path offset length =>
    rw [answers]
    cases hd : out d with
    | short n => exact absurd hd (hfull d n)
    | _ => rfl
  | _ => rfl

theorem secures_ask
    (pre : World υ → Prop) (hfull : FullReads out) (hsleep : ∀ n, o ≠ .sleep n)
    (hstable : ∀ s t, Apart s t → pre s → pre t) (hrefl : ∀ t, guar t t) (hs : pre w)
    (hdone : ∀ t, pre t →
      guar t (perform s3 t o).1 ∧ post (perform s3 t o).2 (perform s3 t o).1)
    (hlost : Faulty out → ∀ t e, pre t →
      post (.error e) t ∧ post (.error e) (perform s3 t o).1) :
    Secures (I := Requests) (answers s3 out) Apart guar post (ask o) w := by
  refine secures_request hstable hs fun t d ht => ?_
  rw [answers_eq hfull hsleep]
  cases hd : out d with
  | delivered => exact hdone t ht
  | short n => exact absurd hd (hfull d n)
  | lostRequest e =>
    have hfaulty : Faulty out := ⟨d, by rw [hd]; exact Outcome.noConfusion⟩
    exact ⟨hrefl t, (hlost hfaulty t e ht).1⟩
  | lostReply e =>
    have hfaulty : Faulty out := ⟨d, by rw [hd]; exact Outcome.noConfusion⟩
    exact ⟨(hdone t ht).1, (hlost hfaulty t e ht).2⟩

variable {id : SegmentId} {file : Option Bytes}

theorem secures_onFile {f : Bytes → o.Reply} (pre : World υ → Prop) (hfull : FullReads out)
    (hsleep : ∀ n, o ≠ .sleep n) (hperform : ∀ t, perform s3 t o = onFile t (.entrySeg id) f)
    (hstable : ∀ s t, Apart s t → pre s → pre t) (hrefl : ∀ t, guar t t)
    (hfile : ∀ t, pre t → t.files.get (.entrySeg id) = file) (hs : pre w)
    (hok : ∀ t data, file = some data → pre t → post (.ok (f data)) t)
    (herr : ∀ t e, (file = none ∨ Faulty out) → pre t → post (.error e) t) :
    Secures (I := Requests) (answers s3 out) Apart guar post (ask o) w := by
  have hfst : ∀ t, (perform s3 t o).1 = t := by
    intro t
    rw [hperform, onFile]
    split <;> rfl
  refine secures_ask pre hfull hsleep hstable hrefl hs (fun t ht => ?_) fun hfaulty t e ht => ?_
  · rw [hfst]
    refine ⟨hrefl t, ?_⟩
    rw [hperform, onFile, hfile t ht]
    cases hf : file with
    | none => exact herr t _ (.inl hf) ht
    | some data => exact hok t data hf ht
  · rw [hfst]
    exact ⟨herr t e (.inr hfaulty) ht, herr t e (.inr hfaulty) ht⟩

end Rules

section Others
variable {s t : TieredReader.State}

/-- What goes on beside the offloader: reads, the flush loop on the segment that it writes, and
anything about the WAL and the indices. -/
def permitted : TieredReader.Act → Bool
  | .cas _ op => decide (op = Offloader.sealOp)
  | .removeFile _ | .object _ | .restart _ _ => false
  | _ => true

inductive OtherAct where
  | node (a : TieredReader.Act)
  | clock (modified : Table SegPath Nat) (now : Nat)

def other {υ : Type} (crc32 : Bytes → UInt32) (w : World υ) : OtherAct → Option (World υ)
  | .node a =>
    if permitted a then (TieredReader.step crc32 w.node a).map fun node => { w with node }
    else none
  | .clock modified now => some { w with modified, now }

variable {crc32 : Bytes → UInt32} {υ : Type} {w w' : World υ}

theorem getEntryBlock_cached (s : TieredReader.State) (segId : SegmentId) (path : SegPath)
    (cacheable : Bool) (start : Nat) :
    TieredReader.Cached s (TieredReader.getEntryBlock s segId path cacheable start).1 := by
  unfold TieredReader.getEntryBlock
  split
  · exact ⟨s.cache, rfl⟩
  · split
    · exact ⟨s.cache, rfl⟩
    · split
      · exact ⟨_, rfl⟩
      · exact ⟨s.cache, rfl⟩

theorem readEntry_cached (crc32 : Bytes → UInt32) (s : TieredReader.State) (k : Key) :
    TieredReader.Cached s (TieredReader.readEntry crc32 s k).1 := by
  have hself : TieredReader.Cached s s := ⟨s.cache, rfl⟩
  have hlocal (m : SegmentMeta) (iv : IndexValue) :
      TieredReader.Cached s (TieredReader.readLocalSegment crc32 s m iv).1 := by
    unfold TieredReader.readLocalSegment
    split
    · exact hself
    · refine TieredReader.readBlocks_keeps (fun t start ht => ?_) iv hself
      obtain ⟨cache, rfl⟩ := ht
      obtain ⟨cache', hcache'⟩ := getEntryBlock_cached { s with cache } iv.segmentId _ _ start
      exact ⟨cache', hcache'⟩
  unfold TieredReader.readEntry
  split
  · unfold TieredReader.readEntrySegment
    dsimp only
    split
    · exact hself
    · split
      · exact hlocal _ _
      · exact hlocal _ _
      · exact hlocal _ _
      · split <;> exact hself
      · exact hself
  · split
    · refine TieredReader.readBlocks_keeps (fun t start ht => ?_) _ hself
      rwa [TieredReader.getWalBlock_fst]
    · exact hself

theorem appendFile_apart {segId : SegmentId} {more : Bytes}
    (h : TieredReader.appendFile s segId more = some t) :
    ∃ data, t = { s with files := s.files.put (.entrySeg segId) data } ∧
      ∀ id m, s.entryRegistry.get id = some m → m.status ≠ .Active → id ≠ segId := by
  unfold TieredReader.appendFile at h
  split_ifs at h with hact
  obtain ⟨data, -, rfl⟩ := Option.map_eq_some_iff.mp h
  refine ⟨_, rfl, fun id m hm hst heq => ?_⟩
  subst heq
  simp [TieredReader.isActive, hm, hst] at hact

theorem get_seal {rows : SegmentRegistry} {segId id : SegmentId} {m : SegmentMeta}
    (hkeyed : rows.WellKeyed) (hm : rows.get id = some m) (hst : m.status ≠ .Active) :
    (rows.cas segId Offloader.sealOp).1.get id = some m := by
  unfold SegmentRegistry.cas
  split
  · exact hm
  · rename_i m' hm'
    split_ifs with hstatus
    · exact hm
    · have hne : id ≠ segId := by
        rintro rfl
        cases hm.symm.trans hm'
        exact hst (not_not.mp hstatus)
      rw [SegmentRegistry.upsert, SegmentRegistry.CasOp.write_id, hkeyed segId m' hm',
        Table.get_put_ne _ _ hne]
      exact hm

structure NodeApart (s t : TieredReader.State) : Prop where
  objects : t.objects = s.objects
  s3 : t.s3 = s.s3
  row : ∀ id m, s.entryRegistry.get id = some m → m.status ≠ .Active →
    t.entryRegistry.get id = some m
  file : ∀ id m, s.entryRegistry.get id = some m → m.status ≠ .Active →
    t.files.get (.entrySeg id) = s.files.get (.entrySeg id)

theorem nodeApart_files {s : TieredReader.State} {files : Table SegPath Bytes}
    (h : ∀ id m, s.entryRegistry.get id = some m → m.status ≠ .Active →
      files.get (.entrySeg id) = s.files.get (.entrySeg id)) : NodeApart s { s with files } :=
  ⟨rfl, rfl, fun _ _ hm _ => hm, h⟩

theorem nodeApart_rows {s : TieredReader.State} {entryRegistry : SegmentRegistry}
    (h : ∀ id m, s.entryRegistry.get id = some m → m.status ≠ .Active →
      entryRegistry.get id = some m) : NodeApart s { s with entryRegistry } :=
  ⟨rfl, rfl, h, fun _ _ _ _ => rfl⟩

theorem step_apart {a : TieredReader.Act} (hinv : TieredReader.Inv s)
    (ha : permitted a = true) (h : TieredReader.step crc32 s a = some t) : NodeApart s t := by
  cases a with
  | read k =>
    cases h
    obtain ⟨cache, hcache⟩ := readEntry_cached crc32 s k
    rw [hcache]
    exact ⟨rfl, rfl, fun _ _ hm _ => hm, fun _ _ _ _ => rfl⟩
  | create segId =>
    simp only [TieredReader.step] at h
    split_ifs at h with hnone
    cases h
    refine nodeApart_files fun id m hm _ => Table.get_put_ne _ _ ?_
    rintro heq
    cases heq
    simp [hm] at hnone
  | register segId byteLen =>
    simp only [TieredReader.step] at h
    split_ifs at h with hrow
    cases h
    refine nodeApart_rows fun id m hm hst => (Table.get_put_ne _ _ ?_).trans hm
    rintro rfl
    simp [TieredReader.isActive, hm, hst] at hrow
  | writeBatch segId rs =>
    obtain ⟨data, rfl, hne⟩ := appendFile_apart h
    exact nodeApart_files fun id m hm hst =>
      Table.get_put_ne _ _ fun heq => hne id m hm hst (SegPath.entrySeg.inj heq)
  | writeFails segId left =>
    obtain ⟨data, rfl, hne⟩ := appendFile_apart h
    exact nodeApart_files fun id m hm hst =>
      Table.get_put_ne _ _ fun heq => hne id m hm hst (SegPath.entrySeg.inj heq)
  | cas segId op =>
    cases of_decide_eq_true ha
    simp only [TieredReader.step] at h
    split_ifs at h
    cases h
    exact nodeApart_rows fun id m hm hst => get_seal (fun id m hm => (hinv.own id m hm).1) hm hst
  | writeWal path data =>
    cases path with
    | entrySeg id => cases h
    | activeSeg =>
      cases h
      refine nodeApart_files fun id m _ _ => ?_
      cases data with
      | some data => exact Table.get_put_ne _ _ SegPath.noConfusion
      | none => exact Table.get_del_ne _ SegPath.noConfusion
    | sealedSeg id =>
      cases h
      refine nodeApart_files fun id m _ _ => ?_
      cases data with
      | some data => exact Table.get_put_ne _ _ SegPath.noConfusion
      | none => exact Table.get_del_ne _ SegPath.noConfusion
  | removeFile segId => cases ha
  | object objects => cases ha
  | restart files rows => cases ha
  | evict block | invalidateSegment segId | index entryIndex walIndex | walRegistry rows =>
    cases h
    exact ⟨rfl, rfl, fun _ _ hm _ => hm, fun _ _ _ _ => rfl⟩

theorem other_apart {a : OtherAct} (hinv : TieredReader.Inv w.node)
    (h : other crc32 w a = some w') : Apart w w' ∧ TieredReader.Inv w'.node := by
  cases a with
  | clock modified now =>
    cases h
    exact ⟨⟨rfl, rfl, rfl, fun _ _ hm _ => hm, fun _ _ _ _ => rfl, fun hw => hw⟩, hinv⟩
  | node a =>
    simp only [other] at h
    split_ifs at h with ha
    obtain ⟨node, hnode, rfl⟩ := Option.map_eq_some_iff.mp h
    have hap := step_apart hinv ha hnode
    have hinv' := TieredReader.inv_step crc32 a hinv hnode
    exact ⟨⟨hap.objects, hap.s3, rfl, hap.row, hap.file, fun _ => hinv'⟩, hinv'⟩

end Others
end Folio.OffloadRequests
