import Folio.OffloadPass

/-! Reads of entry segments, request by request, among each other, the offloader and everything
else that goes on. -/
namespace Folio.OffloadedReads
open KeyedTable ByteCodec Protocol Fjall RemoteProgram RelyGuarantee TransitionSystem OffloadPass
open OffloadRequests (World S3 Outcome OtherAct Apart FullReads answers other other_apart)
open OffloadRequests (Client Requests permitted)
open Segment (Rec firstRec)
open S3Upload (plainS3 timely timely_full oneFile Uploads)
open Offloader (s3Key)
open TieredReader (payloadAt blockStart blockSize readLocalBlock FitsTwoBlocks)
variable {δ υ : Type} {id : SegmentId} {data : Bytes} {crc32 : Bytes → UInt32} {block : Bytes}

section Program

/-- What `read_entry` asks for once the index has led it to a location. -/
inductive ReadOp where
  | row (segId : SegmentId)
  | cached (segId : SegmentId) (start : Nat)
  | readBlock (path : SegPath) (start : Nat)
  | insert (segId : SegmentId) (start : Nat) (block : Bytes)
  | getObject (s3Key : String) (offset length : Nat)

def ReadOp.Reply : ReadOp → Type
  | .row _ => Option SegmentMeta
  | .cached _ _ => Option Bytes
  | .readBlock _ _ | .getObject _ _ _ => Bytes
  | .insert _ _ _ => Unit

abbrev Reads : Interface := ⟨ReadOp, ReadOp.Reply⟩

abbrev Reader (α : Type) := Prog Reads FolioError α

abbrev ask (o : ReadOp) : Reader o.Reply := Prog.request (I := Reads) o

def getObject (s : TieredReader.State) (s3Key : String) (offset length : Nat) :
    Except FolioError Bytes :=
  if s.s3 then
    match s.objects.get s3Key with
    | none => .error (.storage "S3 get_object: NoSuchKey")
    | some data =>
      if data.length ≤ offset then .error (.storage "S3 get_object: InvalidRange")
      else .ok (window data offset length)
  else .error (.storage "S3 read required but no S3 configured")

def perform (s : TieredReader.State) : (o : ReadOp) →
    TieredReader.State × Except FolioError o.Reply
  | .row segId => (s, .ok (s.entryRegistry.get segId))
  | .cached segId start => (s, .ok (s.cache.get (segId, start)))
  | .readBlock path start => (s, readLocalBlock s.files path start)
  | .insert segId start block =>
    ({ s with cache := s.cache.put (segId, start) block }, .ok ())
  | .getObject s3Key offset length => (s, getObject s s3Key offset length)

variable (crc32 : Bytes → UInt32)

def getEntryBlock (segId : SegmentId) (path : SegPath) (cacheable : Bool) (start : Nat) :
    Reader Bytes :=
  if cacheable then do
    let cached : Option Bytes ← ask (.cached segId start)
    match cached with
    | some block => pure block
    | none => do
      let block : Bytes ← ask (.readBlock path start)
      ask (.insert segId start block)
      pure block
  else ask (.readBlock path start)

def readBlocks (getBlock : Nat → Reader Bytes) (iv : IndexValue) : Reader Bytes := do
  let start := blockStart iv.offset
  let block ← getBlock start
  if iv.offset + iv.length ≤ start + blockSize then
    .done (payloadAt crc32 block (iv.offset - start))
  else do
    let block2 ← getBlock (start + blockSize)
    .done (payloadAt crc32 (block ++ block2) (iv.offset - start))

def readLocalSegment (m : SegmentMeta) (iv : IndexValue) : Reader Bytes :=
  let segId := iv.segmentId
  match m.localPath with
  | none => throw (.storage s!"entry segment {segId} has no local_path")
  | some path => readBlocks crc32 (getEntryBlock segId path (decide (m.status ≠ .Active))) iv

def readS3Record (s3Key : String) (offset length : Nat) : Reader Bytes := do
  let data : Bytes ← ask (.getObject s3Key offset length)
  .done (payloadAt crc32 data 0)

def readEntrySegment (iv : IndexValue) : Reader Bytes := do
  let segId := iv.segmentId
  let row : Option SegmentMeta ← ask (.row segId)
  match row with
  | none => throw (.storage s!"entry segment {segId} not in registry")
  | some m =>
    match m.status with
    | .Active | .Local | .Offloading => readLocalSegment crc32 m iv
    | .S3 =>
      match m.s3Key with
      | none => throw (.storage s!"entry segment {segId} has no s3_key")
      | some s3Key => readS3Record crc32 s3Key iv.offset iv.length
    | .Deleted => throw (.storage s!"entry segment {segId} is deleted")

abbrev runRead {α : Type} (p : Reader α) (s : TieredReader.State) :
    TieredReader.State × Except FolioError α :=
  Prog.run (I := Reads) perform p s

theorem run_getEntryBlock (s : TieredReader.State) (segId : SegmentId) (path : SegPath)
    (cacheable : Bool) (start : Nat) :
    runRead (getEntryBlock segId path cacheable start) s =
      TieredReader.getEntryBlock s segId path cacheable start := by
  have hread : runRead (ask (.readBlock path start)) s =
      (s, readLocalBlock s.files path start) := rfl
  have hcached : runRead (ask (.cached segId start)) s =
      (s, .ok (s.cache.get (segId, start))) := rfl
  unfold TieredReader.getEntryBlock
  cases cacheable with
  | false =>
    refine hread.trans ?_
    cases readLocalBlock s.files path start <;> rfl
  | true =>
    rw [if_pos rfl]
    refine (Prog.run_bind_of_ok _ hcached).trans ?_
    cases hcache : s.cache.get (segId, start) with
    | some block => rfl
    | none =>
      dsimp only
      cases hblock : readLocalBlock s.files path start with
      | error e => exact Prog.run_bind_of_error _ (hread.trans (by rw [hblock]))
      | ok block => exact Prog.run_bind_of_ok _ (hread.trans (by rw [hblock]))

theorem run_readBlocks {getBlock : Nat → Reader Bytes}
    {getBlock' : TieredReader.State → Nat → TieredReader.State × Except FolioError Bytes}
    (hget : ∀ s start, runRead (getBlock start) s = getBlock' s start)
    (s : TieredReader.State) (iv : IndexValue) :
    runRead (readBlocks crc32 getBlock iv) s = TieredReader.readBlocks crc32 getBlock' s iv := by
  unfold runRead at hget ⊢
  unfold readBlocks TieredReader.readBlocks
  dsimp only
  rw [Prog.run_bind, hget]
  cases hfirst : getBlock' s (blockStart iv.offset) with
  | mk t r =>
    cases r with
    | error e => rfl
    | ok block =>
      dsimp only
      split_ifs
      · rfl
      · rw [Prog.run_bind, hget]
        cases hsecond : getBlock' t (blockStart iv.offset + blockSize) with
        | mk u r => cases r <;> rfl

theorem readS3Record_eq (s : TieredReader.State) (key : String) (offset length : Nat) :
    TieredReader.readS3Record crc32 s key offset length =
      (getObject s key offset length).bind fun data => payloadAt crc32 data 0 := by
  unfold TieredReader.readS3Record getObject
  split_ifs
  · cases s.objects.get key with
    | none => rfl
    | some data =>
      dsimp only
      split_ifs <;> rfl
  · rfl

theorem run_readS3Record (s : TieredReader.State) (key : String) (offset length : Nat) :
    runRead (readS3Record crc32 key offset length) s =
      (s, TieredReader.readS3Record crc32 s key offset length) := by
  have hask : runRead (ask (.getObject key offset length)) s =
      (s, getObject s key offset length) := rfl
  rw [readS3Record_eq]
  cases hget : getObject s key offset length with
  | error e => exact Prog.run_bind_of_error _ (hask.trans (by rw [hget]))
  | ok data => exact Prog.run_bind_of_ok _ (hask.trans (by rw [hget]))

theorem run_readLocalSegment (s : TieredReader.State) (m : SegmentMeta) (iv : IndexValue) :
    runRead (readLocalSegment crc32 m iv) s = TieredReader.readLocalSegment crc32 s m iv := by
  unfold readLocalSegment TieredReader.readLocalSegment
  cases m.localPath with
  | none => rfl
  | some path => exact run_readBlocks crc32 (fun s => run_getEntryBlock s _ _ _) s iv

theorem run_readEntrySegment (s : TieredReader.State) (iv : IndexValue) :
    runRead (readEntrySegment crc32 iv) s = TieredReader.readEntrySegment crc32 s iv := by
  have hask : runRead (ask (.row iv.segmentId)) s =
      (s, .ok (s.entryRegistry.get iv.segmentId)) := rfl
  refine (Prog.run_bind_of_ok _ hask).trans ?_
  unfold TieredReader.readEntrySegment
  dsimp only
  cases s.entryRegistry.get iv.segmentId with
  | none => rfl
  | some m =>
    dsimp only
    cases m.status with
    | Active => exact run_readLocalSegment crc32 s m iv
    | Local => exact run_readLocalSegment crc32 s m iv
    | Offloading => exact run_readLocalSegment crc32 s m iv
    | S3 =>
      cases m.s3Key with
      | none => rfl
      | some key => exact run_readS3Record crc32 s key iv.offset iv.length
    | Deleted => rfl

end Program

section System

abbrev Shared (υ : Type) := World υ × Client Unit

def answerRead (_ : Unit) (s : Shared υ) (o : ReadOp) : Shared υ × Except FolioError o.Reply :=
  (({ s.1 with node := (perform s.1.node o).1 }, s.2), (perform s.1.node o).2)

def isRead : Move δ OtherAct → Bool
  | .others (.node (.read _)) => true
  | _ => false

def beside (crc32 : Bytes → UInt32) (s3 : S3 υ) (out : δ → Outcome) (s : Shared υ)
    (a : Move δ OtherAct) : Option (Shared υ) :=
  if isRead a then none
  else RelyGuarantee.step (I := Requests) (answers s3 out) (other crc32) s a

abbrev step (crc32 : Bytes → UInt32) (s3 : S3 υ) (out : δ → Outcome) :
    Pool Reads FolioError Bytes (Shared υ) IndexValue →
      PoolMove Unit (Move δ OtherAct) IndexValue →
        Option (Pool Reads FolioError Bytes (Shared υ) IndexValue) :=
  stepPool answerRead (readEntrySegment crc32) (beside crc32 s3 out)

end System

section Facts
variable {υ : Type} {w₀ w w' : World υ}

structure Source (w₀ : World υ) (id : SegmentId) (data : Bytes) : Prop where
  row : ∃ m, w₀.rows.get id = some m ∧ m.status ≠ .Active
  file : w₀.files.get (.entrySeg id) = some data

def Gone (id : SegmentId) (w : World υ) : Prop :=
  w.files.get (.entrySeg id) = none ∧ ∃ m, w.rows.get id = some m ∧ m.status = .S3

theorem Gone.lasting (h : Gone id w) (hw : Lasting w w') : Gone id w' := by
  obtain ⟨hnone, m, hm, hs3⟩ := h
  have hst : m.status ≠ .Active := by
    rw [hs3]
    exact nofun
  obtain ⟨m', hm', -, hsame⟩ := hw.row id m hm hst
  rcases hw.file id m hm hst with heq | hgone
  · exact ⟨heq.trans hnone, m', hm', by rw [hsame hs3]; exact hs3⟩
  · exact hgone

structure Right (w₀ w : World υ) : Prop where
  inv : TieredReader.Inv w.node
  lasting : Lasting w₀ w
  shown : ∀ id start block data, w.node.cache.get (id, start) = some block →
    Source w₀ id data → block = window data start blockSize

theorem right_self (h : TieredReader.Inv w₀.node) : Right w₀ w₀ where
  inv := h
  lasting := .refl w₀
  shown id start block data hget hsrc := by
    obtain ⟨-, -, -, hshows⟩ := h.coherent id start block hget
    exact hshows data hsrc.file

theorem Right.file (h : Right w₀ w) (hsrc : Source w₀ id data) :
    w.files.get (.entrySeg id) = some data ∨ Gone id w := by
  obtain ⟨m, hm, hst⟩ := hsrc.row
  exact (h.lasting.file id m hm hst).imp_left fun heq => heq.trans hsrc.file

theorem Right.source {m : SegmentMeta} (h : Right w₀ w) (hstored : Stored w₀ id data)
    (hm : w.rows.get id = some m) (hst : m.status ≠ .S3) : Source w₀ id data := by
  cases hstored with
  | onDisk row status path file =>
    refine ⟨⟨_, row, ?_⟩, file⟩
    rcases status with hlocal | hoffloading
    · rw [hlocal]
      exact nofun
    · rw [hoffloading]
      exact nofun
  | inBucket row status key object =>
    obtain ⟨m', hm', -, hsame⟩ := h.lasting.row id _ row (by rw [status]; exact nofun)
    cases hm.symm.trans hm'
    rw [hsame status] at hst
    exact absurd status hst

def SealedRow (id : SegmentId) (w : World υ) : Prop :=
  ∃ m, w.rows.get id = some m ∧ m.status ≠ .Active

theorem SealedRow.lasting (h : SealedRow id w) (hw : Lasting w w') : SealedRow id w' := by
  obtain ⟨m, hm, hst⟩ := h
  obtain ⟨m', hm', hst', -⟩ := hw.row id m hm hst
  exact ⟨m', hm', hst'⟩

structure Fresh (w₀ : World υ) (id : SegmentId) (start : Nat) (block : Bytes) (w : World υ) :
    Prop where
  file : ∀ data, w.files.get (.entrySeg id) = some data → block = window data start blockSize
  source : ∀ data, Source w₀ id data → block = window data start blockSize

theorem Fresh.lasting {start : Nat} (h : Fresh w₀ id start block w)
    (hrow : SealedRow id w) (hw : Lasting w w') : Fresh w₀ id start block w' where
  file data hdata := by
    obtain ⟨m, hm, hst⟩ := hrow
    rcases hw.file id m hm hst with heq | ⟨hnone, -⟩
    · exact h.file data (heq ▸ hdata)
    · rw [hnone] at hdata
      cases hdata
  source := h.source

theorem Right.insert {start : Nat} (h : Right w₀ w) (hrow : SealedRow id w)
    (hfresh : Fresh w₀ id start block w) :
    Right w₀ { w with node := { w.node with cache := w.node.cache.put (id, start) block } } := by
  have hinv : TieredReader.Inv { w.node with cache := w.node.cache.put (id, start) block } := by
    refine ⟨h.inv.own, fun id' start' block' hget => ?_⟩
    dsimp only at hget
    rw [Table.get_put] at hget
    split_ifs at hget with heq
    · cases heq
      cases hget
      obtain ⟨m, hm, hst⟩ := hrow
      exact ⟨m, hm, hst, hfresh.file⟩
    · exact h.inv.coherent id' start' block' hget
  refine ⟨hinv, h.lasting.trans (lasting_of_apart ?_), fun id' start' block' data hget hsrc => ?_⟩
  · exact ⟨rfl, rfl, rfl, fun _ _ hm _ => hm, fun _ _ _ _ => rfl, fun _ => hinv⟩
  · dsimp only at hget
    rw [Table.get_put] at hget
    split_ifs at hget with heq
    · cases heq
      cases hget
      exact hfresh.source data hsrc
    · exact h.shown id' start' block' data hget hsrc

end Facts

section Others
variable {s3 : S3 υ} {out : δ → Outcome} {w₀ : World υ} {s t : Shared υ}

structure Beside (w₀ : World υ) (s t : Shared υ) : Prop where
  lasting : Lasting s.1 t.1
  right : Right w₀ s.1 → Right w₀ t.1

theorem Beside.refl (s : Shared υ) : Beside w₀ s s := ⟨.refl _, fun h => h⟩

theorem Beside.trans {u : Shared υ} (h : Beside w₀ s t) (h' : Beside w₀ t u) : Beside w₀ s u :=
  ⟨h.lasting.trans h'.lasting, fun hs => h'.right (h.right hs)⟩

structure Reading (w₀ : World υ) (s t : Shared υ) : Prop where
  rest : t.2 = s.2
  cache : ∃ cache, t.1 = { s.1 with node := { s.1.node with cache } }
  right : Right w₀ s.1 → Right w₀ t.1

theorem Reading.refl (s : Shared υ) : Reading w₀ s s := ⟨rfl, ⟨s.1.node.cache, rfl⟩, fun h => h⟩

theorem Reading.apart (h : Reading w₀ s t) (hs : Right w₀ s.1) : Apart s.1 t.1 := by
  obtain ⟨cache, hcache⟩ := h.cache
  have hinv := (h.right hs).inv
  rw [hcache] at hinv ⊢
  exact ⟨rfl, rfl, rfl, fun _ _ hm _ => hm, fun _ _ _ _ => rfl, fun _ => hinv⟩

def Between (s3 : S3 υ) (out : δ → Outcome) (w₀ : World υ) (s : Shared υ) : Prop :=
  Right w₀ s.1 ∧ Passes s3 out Safe s.2 s.1

theorem safe_apart (r : Except String Unit) (w w' : World υ) (h : Apart w w') (hr : Safe r w) :
    Safe r w' := by
  cases r with
  | error e => exact hr
  | ok a => exact h.inv hr

theorem Between.reading (hs : Between s3 out w₀ s) (h : Reading w₀ s t) :
    Beside w₀ s t ∧ Between s3 out w₀ t := by
  have hap := h.apart hs.1
  refine ⟨⟨lasting_of_apart hap, h.right⟩, h.right hs.1, ?_⟩
  rw [h.rest]
  exact Secures.interfere Apart.trans safe_apart hs.2 hap

theorem step_cache {n n' : TieredReader.State} {a : TieredReader.Act}
    (hread : ∀ k, a ≠ .read k) (h : TieredReader.step crc32 n a = some n') {key : SegmentId × Nat}
    (hget : n'.cache.get key = some block) : n.cache.get key = some block := by
  have hsame (hc : n'.cache = n.cache) : n.cache.get key = some block := hc ▸ hget
  have happend {id : SegmentId} {more : Bytes}
      (happ : TieredReader.appendFile n id more = some n') : n'.cache = n.cache := by
    unfold TieredReader.appendFile at happ
    split_ifs at happ
    obtain ⟨data, -, rfl⟩ := Option.map_eq_some_iff.mp happ
    rfl
  cases a with
  | read k => exact absurd rfl (hread k)
  | evict block =>
    cases h
    dsimp only at hget
    rw [Table.get_del] at hget
    split_ifs at hget
    exact hget
  | invalidateSegment id =>
    cases h
    dsimp only at hget
    rw [Table.get_filter] at hget
    exact (Option.filter_eq_some_iff.mp hget).1
  | create id =>
    simp only [TieredReader.step] at h
    split_ifs at h
    cases h
    exact hget
  | register id byteLen =>
    simp only [TieredReader.step] at h
    split_ifs at h
    cases h
    exact hget
  | writeBatch id rs => exact hsame (happend h)
  | writeFails id left => exact hsame (happend h)
  | cas id op =>
    simp only [TieredReader.step] at h
    split_ifs at h
    cases h
    exact hget
  | removeFile id =>
    cases h
    exact hget
  | index entryIndex walIndex =>
    cases h
    exact hget
  | writeWal path data =>
    simp only [TieredReader.step] at h
    split at h
    · cases h
    · cases h
      exact hget
  | walRegistry rows =>
    cases h
    exact hget
  | object objects =>
    cases h
    exact hget
  | restart files rows =>
    simp only [TieredReader.step] at h
    split_ifs at h
    cases h
    cases hget

theorem Between.beside {a : Move δ OtherAct} (hs : Between s3 out w₀ s)
    (h : beside crc32 s3 out s a = some t) : Beside w₀ s t ∧ Between s3 out w₀ t := by
  obtain ⟨hright, hpasses⟩ := hs
  unfold OffloadedReads.beside at h
  split_ifs at h with hread
  cases a with
  | request d =>
    obtain ⟨w, p⟩ := s
    cases p with
    | done r => cases h
    | call o k =>
      cases h
      obtain ⟨hkept, hrest⟩ := hpasses w (.refl w) d
      have hlast := hkept.lasting hright.inv
      have ht : Right w₀ (answers s3 out d w o).1 := by
        refine ⟨hkept.inv hright.inv, hright.lasting.trans hlast, ?_⟩
        intro id start block data hget
        rw [hkept.cache] at hget
        exact hright.shown id start block data hget
      exact ⟨⟨hlast, fun _ => ht⟩, ht, hrest⟩
  | others a =>
    obtain ⟨w, hw, rfl⟩ := Option.map_eq_some_iff.mp h
    obtain ⟨hap, hinv⟩ := other_apart hright.inv hw
    have hlast := lasting_of_apart hap
    have ht : Right w₀ w := by
      refine ⟨hinv, hright.lasting.trans hlast, fun id start block data hget => ?_⟩
      refine hright.shown id start block data ?_
      cases a with
      | clock modified now =>
        cases hw
        exact hget
      | node a =>
        simp only [other] at hw
        split_ifs at hw
        obtain ⟨node, hnode, rfl⟩ := Option.map_eq_some_iff.mp hw
        exact step_cache (fun k heq => hread (by rw [heq]; rfl)) hnode hget
    exact ⟨⟨hlast, fun _ => ht⟩, ht, Secures.interfere Apart.trans safe_apart hpasses hap⟩

end Others

section Reads
variable {υ : Type} {w₀ : World υ} {s : Shared υ} {cacheable : Bool} {start : Nat} {iv : IndexValue}
  {m : SegmentMeta}

abbrev Spec {α : Type} (w₀ : World υ) (post : Except FolioError α → Shared υ → Prop)
    (p : Reader α) (s : Shared υ) : Prop :=
  Secures (I := Reads) answerRead (Beside w₀) (Reading w₀) post p s

theorem ask_spec {o : ReadOp} {post : Except FolioError o.Reply → Shared υ → Prop}
    (pre : Shared υ → Prop) (hstable : ∀ s t, Beside w₀ s t → pre s → pre t) (hs : pre s)
    (h : ∀ t, pre t → Reading w₀ t (answerRead () t o).1 ∧
      post (answerRead () t o).2 (answerRead () t o).1) : Spec w₀ post (ask o) s :=
  secures_request hstable hs fun t _ => h t

theorem query_spec {o : ReadOp} {post : Except FolioError o.Reply → Shared υ → Prop}
    (pre : Shared υ → Prop) (hquery : ∀ n, (perform n o).1 = n)
    (hstable : ∀ s t, Beside w₀ s t → pre s → pre t) (hs : pre s)
    (hpost : ∀ t, pre t → post (perform t.1.node o).2 t) : Spec w₀ post (ask o) s := by
  refine ask_spec pre hstable hs fun t ht => ?_
  have hsame : (answerRead () t o).1 = t := by simp [answerRead, hquery]
  rw [hsame]
  exact ⟨.refl t, hpost t ht⟩

/-- `open` fails when the file has been removed. -/
def openError (id : SegmentId) : FolioError :=
  .storage ("open " ++ TieredReader.display (.entrySeg id) ++ ": No such file or directory")

def Allowed (w₀ : World υ) (id : SegmentId) (cacheable : Bool) (s : Shared υ) : Prop :=
  Right w₀ s.1 ∧ if cacheable then SealedRow id s.1 else ∀ data, ¬Source w₀ id data

theorem Allowed.beside (s t : Shared υ) (h : Beside w₀ s t) (hs : Allowed w₀ id cacheable s) :
    Allowed w₀ id cacheable t := by
  refine ⟨h.right hs.1, ?_⟩
  cases cacheable with
  | false => exact hs.2
  | true => exact SealedRow.lasting hs.2 h.lasting

theorem Right.found {w : World υ} (h : Right w₀ w)
    (hread : readLocalBlock w.files (.entrySeg id) start = .ok block) :
    Fresh w₀ id start block w := by
  obtain ⟨found, hfound, rfl⟩ := TieredReader.readLocalBlock_eq_ok (s := w.node) hread
  refine ⟨fun data hdata => ?_, fun data hsrc => ?_⟩
  · cases hdata.symm.trans hfound
    rfl
  · rcases h.file hsrc with hsame | ⟨hnone, -⟩
    · cases hsame.symm.trans hfound
      rfl
    · cases hnone.symm.trans hfound

theorem Right.lost {w : World υ} {e : FolioError} (h : Right w₀ w)
    (hread : readLocalBlock w.files (.entrySeg id) start = .error e) (hsrc : Source w₀ id data) :
    e = openError id ∧ Gone id w := by
  rcases h.file hsrc with hsame | hgone
  · cases (TieredReader.readLocalBlock_ok (s := w.node) hsame start).symm.trans hread
  · refine ⟨?_, hgone⟩
    simp only [readLocalBlock, TieredReader.openFile, hgone.1] at hread
    cases hread
    rfl

def Blocks (w₀ : World υ) (id : SegmentId) (cacheable : Bool) (start : Nat) :
    Except FolioError Bytes → Shared υ → Prop
  | .ok block, s => Allowed w₀ id cacheable s ∧
      ∀ data, Source w₀ id data → block = window data start blockSize
  | .error e, s => ∀ data, Source w₀ id data → e = openError id ∧ Gone id s.1

def Found (w₀ : World υ) (id : SegmentId) (cacheable : Bool) (start : Nat) :
    Except FolioError Bytes → Shared υ → Prop
  | .ok block, s => Allowed w₀ id cacheable s ∧ Fresh w₀ id start block s.1
  | .error e, s => ∀ data, Source w₀ id data → e = openError id ∧ Gone id s.1

theorem readBlock_spec (hs : Allowed w₀ id cacheable s) :
    Spec w₀ (Found w₀ id cacheable start) (ask (.readBlock (.entrySeg id) start)) s := by
  refine query_spec (Allowed w₀ id cacheable) (fun _ => rfl) Allowed.beside hs fun t ht => ?_
  change Found w₀ id cacheable start (readLocalBlock t.1.files (.entrySeg id) start) t
  cases hread : readLocalBlock t.1.files (.entrySeg id) start with
  | ok block => exact ⟨ht, ht.1.found hread⟩
  | error e => exact fun data => ht.1.lost hread

theorem insert_spec (hs : Allowed w₀ id true s) (hfresh : Fresh w₀ id start block s.1) :
    Spec w₀ (Ends (fun _ => Allowed w₀ id true) fun _ => False)
      (ask (.insert id start block)) s := by
  refine ask_spec (fun t => Allowed w₀ id true t ∧ Fresh w₀ id start block t.1) ?_
    ⟨hs, hfresh⟩ ?_
  · rintro s t hst ⟨hs, hfresh⟩
    exact ⟨Allowed.beside s t hst hs, hfresh.lasting hs.2 hst.lasting⟩
  · rintro t ⟨⟨ht, hrow⟩, hfresh⟩
    have hright := ht.insert hrow hfresh
    exact ⟨⟨rfl, ⟨_, rfl⟩, fun _ => hright⟩, hright, hrow⟩

theorem cached_spec (hs : Allowed w₀ id cacheable s) :
    Spec w₀ (Ends (fun (block : Option Bytes) t => Allowed w₀ id cacheable t ∧
        ∀ b ∈ block, ∀ data, Source w₀ id data → b = window data start blockSize) fun _ => False)
      (ask (.cached id start)) s := by
  refine query_spec (Allowed w₀ id cacheable) (fun _ => rfl) Allowed.beside hs fun t ht => ?_
  exact ⟨ht, fun b hb data => ht.1.shown id start b data hb⟩

theorem getEntryBlock_spec (hs : Allowed w₀ id cacheable s) (start : Nat) :
    Spec w₀ (Blocks w₀ id cacheable start) (getEntryBlock id (.entrySeg id) cacheable start) s := by
  unfold getEntryBlock
  cases cacheable with
  | false =>
    refine (readBlock_spec hs).mono ?_
    rintro (e | block) t h
    · exact h
    · exact ⟨h.1, h.2.source⟩
  | true =>
    refine (cached_spec hs).bind ?_ fun e t h => h.elim
    rintro (_ | block) t ⟨ht, hcached⟩
    · refine (readBlock_spec ht).bind ?_ fun e t h => h
      rintro block t ⟨ht, hfresh⟩
      refine (insert_spec ht hfresh).bind ?_ fun e t h => h.elim
      exact fun _ t ht => ⟨ht, hfresh.source⟩
    · exact ⟨ht, hcached block rfl⟩

/-- What a read of `iv` returns when the record lies in the file of the beginning. -/
def Served (crc32 : Bytes → UInt32) (w₀ : World υ) (iv : IndexValue) (r : Except FolioError Bytes)
    (s : Shared υ) : Prop :=
  ∀ data, Source w₀ iv.segmentId data →
    r = payloadAt crc32 (window data (blockStart iv.offset) (TieredReader.reachOf iv))
        (iv.offset - blockStart iv.offset) ∨
      r = .error (openError iv.segmentId) ∧ Gone iv.segmentId s.1

theorem readBlocks_spec (hs : Allowed w₀ iv.segmentId cacheable s) :
    Spec w₀ (Served crc32 w₀ iv)
      (readBlocks crc32 (getEntryBlock iv.segmentId (.entrySeg iv.segmentId) cacheable) iv) s := by
  have hlost {start : Nat} (e : FolioError) (t : Shared υ)
      (h : Blocks w₀ iv.segmentId cacheable start (.error e) t) :
      Served crc32 w₀ iv (.error e) t := by
    intro data hsrc
    obtain ⟨rfl, hgone⟩ := h data hsrc
    exact .inr ⟨rfl, hgone⟩
  refine (getEntryBlock_spec hs _).bind ?_ hlost
  rintro block t ⟨ht, hblock⟩
  split_ifs with hin
  · intro data hsrc
    rw [hblock data hsrc, TieredReader.reachOf, if_pos hin]
    exact .inl rfl
  · refine (getEntryBlock_spec ht _).bind ?_ hlost
    rintro block2 u ⟨hu, hblock2⟩ data hsrc
    rw [hblock data hsrc, hblock2 data hsrc, TieredReader.reachOf, if_neg hin]
    exact .inl (by rw [window_split])

def Answered (crc32 : Bytes → UInt32) (w₀ : World υ) (iv : IndexValue)
    (res : Except FolioError Bytes) (s : Shared υ) : Prop :=
  ∀ data (r : Rec), Stored w₀ iv.segmentId data → iv.length = r.len →
    window data iv.offset r.len = r.encode crc32 → FitsTwoBlocks iv.offset r →
      res = .ok r.payload ∨ res = .error (openError iv.segmentId) ∧ Gone iv.segmentId s.1

theorem Answered.beside (iv : IndexValue) (res : Except FolioError Bytes) (s t : Shared υ)
    (h : Beside w₀ s t) (hs : Answered crc32 w₀ iv res s) : Answered crc32 w₀ iv res t := by
  intro data r hstored hlen hwin hfits
  rcases hs data r hstored hlen hwin hfits with hok | ⟨herr, hgone⟩
  · exact .inl hok
  · exact .inr ⟨herr, hgone.lasting h.lasting⟩

theorem Right.answered {res : Except FolioError Bytes}
    {t : Shared υ} (h : Right w₀ s.1) (hm : s.1.rows.get iv.segmentId = some m)
    (hst : m.status ≠ .S3) (hres : Served crc32 w₀ iv res t) : Answered crc32 w₀ iv res t := by
  obtain ⟨id, offset, length⟩ := iv
  rintro data r hstored rfl hwin hfits
  rw [← (TieredReader.payloadAt_blocks_iff hwin id).mpr hfits]
  exact hres data (h.source hstored hm hst)

theorem Right.allowed (h : Right w₀ s.1) (hm : s.1.rows.get id = some m) :
    Allowed w₀ id (decide (m.status ≠ .Active)) s := by
  refine ⟨h, ?_⟩
  split_ifs with hst
  · exact ⟨m, hm, of_decide_eq_true hst⟩
  · intro data hsrc
    obtain ⟨m₀, hm₀, hst₀⟩ := hsrc.row
    obtain ⟨m', hm', hst', -⟩ := h.lasting.row id m₀ hm₀ hst₀
    cases hm.symm.trans hm'
    exact hst (decide_eq_true hst')

theorem readLocalSegment_spec (hs : Right w₀ s.1) (hm : s.1.rows.get iv.segmentId = some m)
    (hst : m.status ≠ .S3) : Spec w₀ (Answered crc32 w₀ iv) (readLocalSegment crc32 m iv) s := by
  unfold readLocalSegment
  cases hpath : m.localPath with
  | none =>
    intro data r hstored
    obtain ⟨m', hm', hrow⟩ := (hs.lasting.stored _ _ hstored).row
    cases hm.symm.trans hm'
    simp [hpath, hst] at hrow
  | some path =>
    cases (hs.inv.own iv.segmentId m hm).2 path hpath
    exact (readBlocks_spec (hs.allowed hm)).mono fun res t => hs.answered hm hst

theorem readS3Record_spec {key : String} (hconf : w₀.node.s3 = true) (hs : Right w₀ s.1)
    (hm : s.1.rows.get iv.segmentId = some m) (hst : m.status = .S3) (hkey : m.s3Key = some key) :
    Spec w₀ (Answered crc32 w₀ iv) (readS3Record crc32 key iv.offset iv.length) s := by
  have hget : Spec w₀ (fun (found : Except FolioError Bytes) t =>
      Answered crc32 w₀ iv (found.bind fun data => payloadAt crc32 data 0) t)
      (ask (.getObject key iv.offset iv.length)) s := by
    refine query_spec (fun t => Right w₀ t.1 ∧ t.1.rows.get iv.segmentId = some m) (fun _ => rfl)
      ?_ ⟨hs, hm⟩ ?_
    · rintro s t hstep ⟨hs, hm⟩
      obtain ⟨m', hm', -, hsame⟩ := hstep.lasting.row _ m hm (by rw [hst]; exact nofun)
      exact ⟨hstep.right hs, by rw [hm', hsame hst]⟩
    · rintro t ⟨ht, hm⟩ data r hstored hlen hwin -
      change (getObject t.1.node key iv.offset iv.length).bind _ = _ ∨ _
      rw [← readS3Record_eq, hlen]
      cases ht.lasting.stored _ _ hstored with
      | onDisk row status path file =>
        cases hm.symm.trans row
        rw [hst] at status
        simp at status
      | inBucket row status key' object =>
        cases hm.symm.trans row
        cases hkey.symm.trans key'
        exact .inl (TieredReader.readS3Record_eq (ht.lasting.s3.trans hconf) object hwin)
  exact hget.bind (fun data t h => h) fun e t h => h

theorem readEntrySegment_spec (iv : IndexValue) (hconf : w₀.node.s3 = true)
    (hs : Right w₀ s.1) : Spec w₀ (Answered crc32 w₀ iv) (readEntrySegment crc32 iv) s := by
  have hrow : Spec w₀ (Ends (fun (row : Option SegmentMeta) t => Right w₀ t.1 ∧
      t.1.rows.get iv.segmentId = row) fun _ => False) (ask (.row iv.segmentId)) s :=
    query_spec (fun t => Right w₀ t.1) (fun _ => rfl) (fun s t hst hs => hst.right hs) hs
      fun t ht => ⟨ht, rfl⟩
  refine hrow.bind ?_ fun e t h => h.elim
  rintro row t ⟨ht, hget⟩
  -- a record that is stored has a row that leads to it
  cases row with
  | none =>
    intro data r hstored
    obtain ⟨m, hm, -⟩ := (ht.lasting.stored _ _ hstored).row
    cases hget.symm.trans hm
  | some m =>
    dsimp only
    cases hst : m.status with
    | Active => exact readLocalSegment_spec ht hget (by rw [hst]; exact nofun)
    | Local => exact readLocalSegment_spec ht hget (by rw [hst]; exact nofun)
    | Offloading => exact readLocalSegment_spec ht hget (by rw [hst]; exact nofun)
    | S3 =>
      dsimp only
      cases hkey : m.s3Key with
      | some key => exact readS3Record_spec hconf ht hget hst hkey
      | none =>
        intro data r hstored
        obtain ⟨m', hm', hrow⟩ := (ht.lasting.stored _ _ hstored).row
        cases hget.symm.trans hm'
        simp [hst, hkey] at hrow
    | Deleted =>
      intro data r hstored
      obtain ⟨m', hm', hrow⟩ := (ht.lasting.stored _ _ hstored).row
      cases hget.symm.trans hm'
      simp [hst] at hrow

end Reads

section Runs
variable {w w₀ : World υ} {r : Rec}

theorem read_stored {iv : IndexValue} (h : Stored w iv.segmentId data)
    (hinv : TieredReader.Inv w.node) (hconf : w.node.s3 = true) (hlen : iv.length = r.len)
    (hwin : window data iv.offset r.len = r.encode crc32) (hfits : FitsTwoBlocks iv.offset r)
    {k : Key} (hloc : w.node.entryIndex.getLocation k = some iv) :
    (TieredReader.readEntry crc32 w.node k).2 = .ok r.payload := by
  obtain ⟨id, offset, length⟩ := iv
  dsimp only at h hlen hwin hfits
  subst hlen
  cases h with
  | onDisk row status path file =>
    rw [TieredReader.readEntry_located hinv (.entry hloc row (.inr status) path) file]
    exact (TieredReader.payloadAt_blocks_iff hwin id).mpr hfits
  | inBucket row status key object =>
    have hread := TieredReader.readS3Record_eq hconf object hwin
    change w.node.entryRegistry.get id = _ at row
    simp [TieredReader.readEntry, hloc, TieredReader.readEntrySegment, row, status, key, hread]

/-- However many rounds the offloader makes, whatever fails of them and wherever they are cut
off: a record of a sealed segment is read at every moment as it was read before, and a read with
the offloader at work between its requests fails only when its file is removed after it has
looked its row up. -/
theorem reads_during_offload (s3 : S3 υ) {out : δ → Outcome} (hfull : FullReads out)
    {policy : OffloadPolicy} {n : Nat} {s : Pool Reads FolioError Bytes (Shared υ) IndexValue}
    (hinv : TieredReader.Inv w₀.node) (hconf : w₀.node.s3 = true)
    (h : Reach (step crc32 s3 out) (· = ⟨(w₀, offloadLoop policy n), .empty⟩) s)
    (iv : IndexValue) (hstored : Stored w₀ iv.segmentId data) (hlen : iv.length = r.len)
    (hwin : window data iv.offset r.len = r.encode crc32) (hfits : FitsTwoBlocks iv.offset r) :
    (∀ k, s.shared.1.node.entryIndex.getLocation k = some iv →
      (TieredReader.readEntry crc32 s.shared.1.node k).2 = .ok r.payload) ∧
    ∀ c res, s.result c = some (iv, res) →
      res = .ok r.payload ∨
        res = .error (openError iv.segmentId) ∧ Gone iv.segmentId s.shared.1 := by
  obtain ⟨⟨hright, -⟩, hall⟩ := Secures.pool (J := Between s3 out w₀)
    Beside.refl Beside.trans Answered.beside (fun s a t hs hst => hs.beside hst)
    (fun s t hs hst => hs.reading hst)
    (fun iv s hs => readEntrySegment_spec iv hconf hs.1)
    ⟨right_self hinv, offloadLoop_passes hfull policy n hinv⟩ rfl h
  refine ⟨fun k hloc => ?_, fun c res hres => ?_⟩
  · exact read_stored (hright.lasting.stored _ _ hstored) hright.inv (hright.lasting.s3.trans hconf)
      hlen hwin hfits hloc
  · exact hall c iv _ (Pool.result_eq_some hres) data r hstored hlen hwin hfits

def oneRecord (r : Rec) : World Uploads :=
  { oneFile (r.encode Crc32.crc32) with
    node := { (oneFile (r.encode Crc32.crc32)).node with
      entryIndex := FjallIndex.empty.insertLocation r.key 0 0 r.len } }

theorem oneRecord_stored (r : Rec) : Stored (oneRecord r) 0 (r.encode Crc32.crc32) :=
  .onDisk (m := EntrySegment.entryMeta 0 .Local (r.encode Crc32.crc32).length) rfl (.inl rfl) rfl
    (Table.get_put_self _ _ _)

theorem oneRecord_window (r : Rec) :
    window (r.encode Crc32.crc32) 0 r.len = r.encode Crc32.crc32 := by
  have h := window_prefix (r.encode Crc32.crc32) []
  rwa [List.append_nil, r.encode_length] at h

/-- A read that has looked its row up before the round finds no file after it; one that begins
after it is served from the bucket. -/
theorem overtaken_read_fails : ∃ s,
    Reach (step Crc32.crc32 (plainS3 fun _ => "") timely)
      (· = ⟨(oneRecord firstRec, offloadLoop ⟨0, none⟩ 1), .empty⟩) s ∧
    s.result 0 = some (⟨0, 0, 25⟩, .error (openError 0)) ∧
    s.result 1 = some (⟨0, 0, 25⟩, .ok firstRec.payload) ∧
    (TieredReader.readEntry Crc32.crc32 s.shared.1.node firstRec.key).2 = .ok firstRec.payload := by
  obtain ⟨s, hrun, hend⟩ := run_check (step Crc32.crc32 (plainS3 fun _ => "") timely)
    ⟨(oneRecord firstRec, offloadLoop ⟨0, none⟩ 1), .empty⟩
    (fun s => decide (s.result 0 = some (⟨0, 0, 25⟩, .error (openError 0)) ∧
      s.result 1 = some (⟨0, 0, 25⟩, .ok firstRec.payload) ∧
      s.shared.1.node.entryIndex.getLocation firstRec.key = some ⟨0, 0, 25⟩))
    ([.start 0 ⟨0, 0, 25⟩, .request 0 ()] ++ List.replicate 11 (.others (.request true)) ++
      [.request 0 (), .request 0 (), .start 1 ⟨0, 0, 25⟩, .request 1 (), .request 1 ()])
    (by decide +kernel)
  obtain ⟨hfailed, hserved, hloc⟩ := of_decide_eq_true hend
  have hreach : Reach (step Crc32.crc32 (plainS3 fun _ => "") timely)
      (· = ⟨(oneRecord firstRec, offloadLoop ⟨0, none⟩ 1), .empty⟩) s :=
    reach_of_run _ (.start rfl) hrun
  obtain ⟨hread, -⟩ := reads_during_offload _ timely_full (TieredReader.inv_init ⟨rfl, rfl⟩) rfl
    hreach ⟨0, 0, 25⟩ (oneRecord_stored firstRec) rfl (oneRecord_window firstRec) (by decide)
  exact ⟨s, hreach, hfailed, hserved, hread _ hloc⟩

end Runs
end Folio.OffloadedReads
