import Folio.Crc32
import Folio.Offloader

/-! Reads below the entry cache: blocks of a local segment file, some of them cached, or a range
of an S3 object; against the direct read of a record. -/
namespace Folio.TieredReader
open KeyedTable ByteCodec Protocol Fjall Segment RecoveryScan EntrySegment TransitionSystem
open Offloader (hex16)
variable {path : SegPath} {crc32 : Bytes → UInt32}

def blockSize : Nat := 256 * 1024

def blockStart (offset : Nat) : Nat := offset / blockSize * blockSize

theorem blockStart_add (offset : Nat) : blockStart offset + offset % blockSize = offset :=
  Nat.div_add_mod' offset blockSize

/-- `s3` says whether S3 is configured; `objects` are the contents of the bucket. -/
structure State where
  cache : Table (SegmentId × Nat) Bytes
  entryIndex : FjallIndex
  entryRegistry : SegmentRegistry
  walIndex : FjallIndex
  walRegistry : SegmentRegistry
  files : Table SegPath Bytes
  s3 : Bool
  objects : Table String Bytes

section Reads
variable (crc32 : Bytes → UInt32)

def payloadAt (data : Bytes) (pos : Nat) : Except FolioError Bytes :=
  (decodeRecord crc32 data pos).map fun r => r.1.payload

def display : SegPath → String
  | .activeSeg => "wal/active.seg"
  | .sealedSeg id => "wal/seg-" ++ hex16 id ++ ".seg"
  | .entrySeg id => "entries/entry-" ++ hex16 id ++ ".ent"

def openFile (files : Table SegPath Bytes) (path : SegPath) : Except FolioError Bytes :=
  match files.get path with
  | some data => .ok data
  | none => .error (.storage ("open " ++ display path ++ ": No such file or directory"))

def readRecordAt (files : Table SegPath Bytes) (path : SegPath) (offset length : Nat) :
    Except FolioError Bytes :=
  (openFile files path).bind fun data =>
    let got := (window data offset length).length
    if got < length then
      .error (.storage
        s!"entry segment short read at {offset}: expected {length} got {got}")
    else payloadAt crc32 (window data offset length) 0

def readLocalBlock (files : Table SegPath Bytes) (path : SegPath) (start : Nat) :
    Except FolioError Bytes :=
  (openFile files path).map fun data => window data start blockSize

def getEntryBlock (s : State) (segId : SegmentId) (path : SegPath) (cacheable : Bool)
    (start : Nat) : State × Except FolioError Bytes :=
  match (if cacheable then s.cache.get (segId, start) else none) with
  | some cached => (s, .ok cached)
  | none =>
    match readLocalBlock s.files path start with
    | .error e => (s, .error e)
    | .ok block =>
      (if cacheable then { s with cache := s.cache.put (segId, start) block } else s, .ok block)

def getWalBlock (s : State) (segId : SegmentId) (start : Nat) : State × Except FolioError Bytes :=
  match s.walRegistry.get segId with
  | none => (s, .error (.storage s!"WAL segment {segId} not in registry"))
  | some m =>
    match m.status with
    | .Active | .Local | .Offloading =>
      match m.localPath with
      | none => (s, .error (.storage s!"WAL segment {segId} has no local_path"))
      | some path => (s, readLocalBlock s.files path start)
    | .S3 => (s, .error (.storage s!"WAL segment {segId} is on S3 (unexpected)"))
    | .Deleted => (s, .error (.storage s!"WAL segment {segId} is deleted"))

def readBlocks (getBlock : State → Nat → State × Except FolioError Bytes) (s : State)
    (iv : IndexValue) : State × Except FolioError Bytes :=
  let start := blockStart iv.offset
  match getBlock s start with
  | (s, .error e) => (s, .error e)
  | (s, .ok block) =>
    if iv.offset + iv.length ≤ start + blockSize then
      (s, payloadAt crc32 block (iv.offset - start))
    else
      match getBlock s (start + blockSize) with
      | (s, .error e) => (s, .error e)
      | (s, .ok block2) => (s, payloadAt crc32 (block ++ block2) (iv.offset - start))

def readS3Record (s : State) (s3Key : String) (offset length : Nat) : Except FolioError Bytes :=
  if s.s3 then
    match s.objects.get s3Key with
    | none => .error (.storage "S3 get_object: NoSuchKey")
    | some data =>
      if data.length ≤ offset then .error (.storage "S3 get_object: InvalidRange")
      else payloadAt crc32 (window data offset length) 0
  else .error (.storage "S3 read required but no S3 configured")

/-- Blocks of an `Active` segment are not cached: its file still grows. -/
def readLocalSegment (s : State) (m : SegmentMeta) (iv : IndexValue) :
    State × Except FolioError Bytes :=
  let segId := iv.segmentId
  match m.localPath with
  | none => (s, .error (.storage s!"entry segment {segId} has no local_path"))
  | some path => readBlocks crc32 (getEntryBlock · segId path (decide (m.status ≠ .Active))) s iv

def readEntrySegment (s : State) (iv : IndexValue) : State × Except FolioError Bytes :=
  let segId := iv.segmentId
  match s.entryRegistry.get segId with
  | none => (s, .error (.storage s!"entry segment {segId} not in registry"))
  | some m =>
    match m.status with
    | .Active | .Local | .Offloading => readLocalSegment crc32 s m iv
    | .S3 =>
      match m.s3Key with
      | none => (s, .error (.storage s!"entry segment {segId} has no s3_key"))
      | some s3Key => (s, readS3Record crc32 s s3Key iv.offset iv.length)
    | .Deleted => (s, .error (.storage s!"entry segment {segId} is deleted"))

def readEntry (s : State) (k : Key) : State × Except FolioError Bytes :=
  match s.entryIndex.getLocation k with
  | some iv => readEntrySegment crc32 s iv
  | none =>
    match s.walIndex.getLocation k with
    | some iv => readBlocks crc32 (getWalBlock · iv.segmentId) s iv
    | none => (s, .error (.entryNotFound k.1 k.2))

end Reads

/-- What goes on around the reader. The writers of the WAL, of the indices and of the bucket may
do anything; an entry segment is written only while its row says `Active`, and no row becomes
`Active` again. A restart empties the cache and may change everything else. -/
inductive Act where
  | read (k : Key)
  | evict (block : SegmentId × Nat)
  | invalidateSegment (segId : SegmentId)
  | create (segId : SegmentId)
  | register (segId byteLen : Nat)
  | writeBatch (segId : SegmentId) (rs : List Rec)
  | writeFails (segId : SegmentId) (left : Bytes)
  | cas (segId : SegmentId) (op : SegmentRegistry.CasOp)
  | removeFile (segId : SegmentId)
  | index (entryIndex walIndex : FjallIndex)
  | writeWal (path : SegPath) (data : Option Bytes)
  | walRegistry (rows : SegmentRegistry)
  | object (objects : Table String Bytes)
  | restart (files : Table SegPath Bytes) (entryRegistry : SegmentRegistry)

def ownFiles (rows : SegmentRegistry) : Bool :=
  rows.entries.all fun e => decide (e.2.id = e.1 ∧ ∀ path ∈ e.2.localPath, path = .entrySeg e.1)

def isActive (s : State) (segId : SegmentId) : Bool :=
  (s.entryRegistry.get segId).any fun m => decide (m.status = .Active)

def appendFile (s : State) (segId : SegmentId) (more : Bytes) : Option State :=
  if isActive s segId then
    (s.files.get (.entrySeg segId)).map fun data =>
      { s with files := s.files.put (.entrySeg segId) (data ++ more) }
  else none

def step (crc32 : Bytes → UInt32) (s : State) : Act → Option State
  | .read k => some (readEntry crc32 s k).1
  | .evict block => some { s with cache := s.cache.del block }
  | .invalidateSegment segId =>
    some { s with cache := s.cache.filter fun e => decide (e.1.1 ≠ segId) }
  | .create segId =>
    if (s.entryRegistry.get segId).isNone then
      some { s with files := s.files.put (.entrySeg segId) [] }
    else none
  | .register segId byteLen =>
    if (s.entryRegistry.get segId).isNone ∨ isActive s segId then
      some { s with entryRegistry := s.entryRegistry.upsert (entryMeta segId .Active byteLen) }
    else none
  | .writeBatch segId rs => appendFile s segId (batchBytes crc32 rs)
  | .writeFails segId left => appendFile s segId left
  | .cas segId op =>
    if op.next = .Active then none
    else some { s with entryRegistry := (s.entryRegistry.cas segId op).1 }
  | .removeFile segId => some { s with files := s.files.del (.entrySeg segId) }
  | .index entryIndex walIndex => some { s with entryIndex, walIndex }
  | .writeWal path data =>
    match path with
    | .entrySeg _ => none
    | _ => some { s with
        files := match data with
          | some data => s.files.put path data
          | none => s.files.del path }
  | .walRegistry rows => some { s with walRegistry := rows }
  | .object objects => some { s with objects }
  | .restart files entryRegistry =>
    if ownFiles entryRegistry then some { s with cache := .empty, files, entryRegistry } else none

def Init (s : State) : Prop := s.cache = .empty ∧ ownFiles s.entryRegistry = true

section Coherence

/-- Cached blocks are of segments that are not written any more, and show their files. -/
structure Inv (s : State) : Prop where
  own : ∀ segId m, s.entryRegistry.get segId = some m →
    m.id = segId ∧ ∀ path ∈ m.localPath, path = .entrySeg segId
  coherent : ∀ segId start block, s.cache.get (segId, start) = some block →
    ∃ m, s.entryRegistry.get segId = some m ∧ m.status ≠ .Active ∧
      ∀ data, s.files.get (.entrySeg segId) = some data → block = window data start blockSize

variable {s t : State} {segId start : Nat} {m : SegmentMeta} {data : Bytes}

theorem ownFiles_get {rows : SegmentRegistry} (h : ownFiles rows = true)
    (hm : rows.get segId = some m) : m.id = segId ∧ ∀ path ∈ m.localPath, path = .entrySeg segId :=
  of_decide_eq_true (List.all_eq_true.mp h (segId, m) ((rows.mem_entries_iff _ _).mpr hm))

theorem inv_init (h : Init s) : Inv s where
  own _ _ := ownFiles_get h.2
  coherent segId start block hget := by
    rw [h.1] at hget
    cases hget

def Cached (s t : State) : Prop := ∃ cache, t = { s with cache }

theorem readLocalBlock_ok (hfile : s.files.get path = some data) (start : Nat) :
    readLocalBlock s.files path start = .ok (window data start blockSize) := by
  simp [readLocalBlock, openFile, hfile, Except.map]

theorem readLocalBlock_eq_ok {block : Bytes} (h : readLocalBlock s.files path start = .ok block) :
    ∃ data, s.files.get path = some data ∧ block = window data start blockSize := by
  unfold readLocalBlock openFile at h
  split at h
  · rename_i data hdata
    cases h
    exact ⟨data, hdata, rfl⟩
  · cases h

theorem Inv.insert (h : Inv s) (hrow : s.entryRegistry.get segId = some m)
    (hpath : m.localPath = some path) (hsealed : m.status ≠ .Active)
    (hfile : s.files.get path = some data) (start : Nat) :
    Inv { s with cache := s.cache.put (segId, start) (window data start blockSize) } where
  own := h.own
  coherent segId' start' block hget := by
    dsimp only at hget
    rw [Table.get_put] at hget
    split_ifs at hget with heq
    · cases heq
      cases hget
      refine ⟨m, hrow, hsealed, fun data' hdata' => ?_⟩
      cases (h.own segId m hrow).2 path hpath
      dsimp only at hdata'
      rw [hfile] at hdata'
      cases hdata'
      rfl
    · exact h.coherent segId' start' block hget

theorem getEntryBlock_spec (h : Inv s) (hrow : s.entryRegistry.get segId = some m)
    (hpath : m.localPath = some path) (start : Nat) :
    let r := getEntryBlock s segId path (decide (m.status ≠ .Active)) start
    Inv r.1 ∧ Cached s r.1 ∧
      ∀ data, s.files.get path = some data → r.2 = .ok (window data start blockSize) := by
  by_cases hact : m.status = .Active
  · have hread : getEntryBlock s segId path (decide (m.status ≠ .Active)) start =
        (s, readLocalBlock s.files path start) := by
      cases hblock : readLocalBlock s.files path start <;> simp [getEntryBlock, hact, hblock]
    rw [hread]
    exact ⟨h, ⟨s.cache, rfl⟩, fun data hdata => readLocalBlock_ok hdata start⟩
  · cases hcache : s.cache.get (segId, start) with
    | some cached =>
      have hread : getEntryBlock s segId path (decide (m.status ≠ .Active)) start =
          (s, .ok cached) := by
        simp [getEntryBlock, hact, hcache]
      rw [hread]
      refine ⟨h, ⟨s.cache, rfl⟩, fun data hdata => ?_⟩
      obtain ⟨-, -, -, hshows⟩ := h.coherent segId start cached hcache
      rw [(h.own segId m hrow).2 path hpath] at hdata
      rw [hshows data hdata]
    | none =>
      cases hblock : readLocalBlock s.files path start with
      | error e =>
        have hread : getEntryBlock s segId path (decide (m.status ≠ .Active)) start =
            (s, .error e) := by
          simp [getEntryBlock, hact, hcache, hblock]
        rw [hread]
        refine ⟨h, ⟨s.cache, rfl⟩, fun data hdata => ?_⟩
        rw [readLocalBlock_ok hdata start] at hblock
        cases hblock
      | ok block =>
        have hread : getEntryBlock s segId path (decide (m.status ≠ .Active)) start =
            ({ s with cache := s.cache.put (segId, start) block }, .ok block) := by
          simp [getEntryBlock, hact, hcache, hblock]
        obtain ⟨data, hdata, rfl⟩ := readLocalBlock_eq_ok hblock
        rw [hread]
        refine ⟨h.insert hrow hpath hact hdata start, ⟨_, rfl⟩, fun data' hdata' => ?_⟩
        rw [hdata] at hdata'
        cases hdata'
        rfl

section Blocks
variable {getBlock : State → Nat → State × Except FolioError Bytes} {P : State → Prop}

theorem readBlocks_keeps (hget : ∀ t start, P t → P (getBlock t start).1) (iv : IndexValue)
    (hs : P s) : P (readBlocks crc32 getBlock s iv).1 := by
  have h₁ := hget s (blockStart iv.offset) hs
  simp only [readBlocks]
  split
  · rename_i e hblock
    rwa [hblock] at h₁
  · rename_i t block hblock
    rw [hblock] at h₁
    split_ifs
    · exact h₁
    · have h₂ := hget t (blockStart iv.offset + blockSize) h₁
      split
      · rename_i e hblock2
        rwa [hblock2] at h₂
      · rename_i u block2 hblock2
        rwa [hblock2] at h₂

def reachOf (iv : IndexValue) : Nat :=
  if iv.offset + iv.length ≤ blockStart iv.offset + blockSize then blockSize
  else blockSize + blockSize

theorem readBlocks_eq (hget : ∀ t start, P t →
      P (getBlock t start).1 ∧ (getBlock t start).2 = .ok (window data start blockSize))
    (iv : IndexValue) (hs : P s) :
    (readBlocks crc32 getBlock s iv).2 =
      payloadAt crc32 (window data (blockStart iv.offset) (reachOf iv))
        (iv.offset - blockStart iv.offset) := by
  obtain ⟨h₁, hblock⟩ := hget s (blockStart iv.offset) hs
  simp only [readBlocks]
  split
  · rename_i e he
    rw [he] at hblock
    cases hblock
  · rename_i t block he
    rw [he] at hblock h₁
    cases hblock
    unfold reachOf
    split_ifs
    · rfl
    · obtain ⟨-, hblock2⟩ := hget t (blockStart iv.offset + blockSize) h₁
      rw [window_split]
      split
      · rename_i e he2
        rw [he2] at hblock2
        cases hblock2
      · rename_i u block2 he2
        rw [he2] at hblock2
        cases hblock2
        rfl

end Blocks

theorem getWalBlock_fst (s : State) (segId start : Nat) : (getWalBlock s segId start).1 = s := by
  unfold getWalBlock
  split
  · rfl
  · split
    all_goals try rfl
    all_goals split <;> rfl

theorem Inv.readLocalSegment (crc32 : Bytes → UInt32) (h : Inv s) {iv : IndexValue}
    (hrow : s.entryRegistry.get iv.segmentId = some m) :
    Inv (readLocalSegment crc32 s m iv).1 := by
  unfold TieredReader.readLocalSegment
  split
  · exact h
  · rename_i path hpath
    refine (readBlocks_keeps (P := fun t => Inv t ∧ Cached s t) ?_ iv ⟨h, s.cache, rfl⟩).1
    rintro t start ⟨ht, cache, rfl⟩
    obtain ⟨hinv, ⟨cache', hcached⟩, -⟩ := getEntryBlock_spec ht hrow hpath start
    exact ⟨hinv, cache', hcached⟩

theorem Inv.read (crc32 : Bytes → UInt32) (h : Inv s) (k : Key) : Inv (readEntry crc32 s k).1 := by
  unfold readEntry
  split
  · rename_i iv _
    unfold readEntrySegment
    dsimp only
    split
    · exact h
    · rename_i m hrow
      have hlocal := h.readLocalSegment crc32 hrow
      split
      · exact hlocal
      · exact hlocal
      · exact hlocal
      · split
        · exact h
        · exact h
      · exact h
  · split
    · refine readBlocks_keeps (fun t start ht => ?_) _ h
      rwa [getWalBlock_fst]
    · exact h

theorem Inv.setFile (h : Inv s) {files : Table SegPath Bytes}
    (hother : ∀ segId start block, s.cache.get (segId, start) = some block →
      ∀ data, files.get (.entrySeg segId) = some data →
        s.files.get (.entrySeg segId) = some data) : Inv { s with files } where
  own := h.own
  coherent segId start block hget := by
    obtain ⟨m, hrow, hsealed, hshows⟩ := h.coherent segId start block hget
    exact ⟨m, hrow, hsealed, fun data hdata =>
      hshows data (hother segId start block hget data hdata)⟩

theorem Inv.writeWal (h : Inv s) (hpath : ∀ segId, path ≠ .entrySeg segId) (data : Option Bytes) :
    Inv { s with
      files := match data with
        | some data => s.files.put path data
        | none => s.files.del path } := by
  refine h.setFile fun segId _ _ _ data' hdata => ?_
  cases data with
  | some data => rwa [Table.get_put_ne _ _ (hpath segId).symm] at hdata
  | none => rwa [Table.get_del_ne _ (hpath segId).symm] at hdata

theorem Inv.setCache (h : Inv s) {cache : Table (SegmentId × Nat) Bytes}
    (hsub : ∀ k block, cache.get k = some block → s.cache.get k = some block) :
    Inv { s with cache } where
  own := h.own
  coherent segId start block hget := h.coherent segId start block (hsub _ _ hget)

/-- The writer's segment is `Active`, so none of its blocks is cached. -/
theorem Inv.appendFile (h : Inv s) {more : Bytes} (hst : appendFile s segId more = some t) :
    Inv t := by
  unfold TieredReader.appendFile at hst
  split_ifs at hst with hact
  obtain ⟨data, hdata, rfl⟩ := Option.map_eq_some_iff.mp hst
  refine h.setFile fun segId' start block hget data' hdata' => ?_
  obtain ⟨m, hrow, hsealed, -⟩ := h.coherent segId' start block hget
  have hne : segId' ≠ segId := by
    rintro rfl
    simp [isActive, hrow, hsealed] at hact
  rwa [Table.get_put_ne _ _ (by simpa using hne)] at hdata'

theorem Inv.upsert (h : Inv s) (hown : ∀ path ∈ m.localPath, path = .entrySeg m.id)
    (hkept : ∀ start block, s.cache.get (m.id, start) = some block → m.status ≠ .Active) :
    Inv { s with entryRegistry := s.entryRegistry.upsert m } where
  own segId m' hm' := by
    dsimp only [SegmentRegistry.upsert] at hm'
    rw [Table.get_put] at hm'
    split_ifs at hm' with heq
    · cases hm'
      exact ⟨heq.symm, heq ▸ hown⟩
    · exact h.own segId m' hm'
  coherent segId start block hget := by
    obtain ⟨m', hrow, hsealed, hshows⟩ := h.coherent segId start block hget
    dsimp only [SegmentRegistry.upsert]
    rw [Table.get_put]
    split_ifs with heq
    · subst heq
      exact ⟨m, rfl, hkept start block hget, hshows⟩
    · exact ⟨m', hrow, hsealed, hshows⟩

/-- The offloader changes the row of a segment, which was not `Active` or is so no more. -/
theorem Inv.cas (h : Inv s) {op : SegmentRegistry.CasOp} (hnext : op.next ≠ .Active) :
    Inv { s with entryRegistry := (s.entryRegistry.cas segId op).1 } := by
  unfold SegmentRegistry.cas
  split
  · exact h
  · rename_i m hrow
    split_ifs
    · exact h
    · obtain ⟨hid, hown⟩ := h.own segId m hrow
      refine h.upsert ?_ fun _ _ _ => by rwa [op.write_status]
      rw [op.write_id, hid]
      cases op with
      | status expected new => exact hown
      | toS3 expected s3Key => simp [SegmentRegistry.CasOp.write]

theorem inv_step (crc32 : Bytes → UInt32) (a : Act) (h : Inv s) (hst : step crc32 s a = some t) :
    Inv t := by
  cases a with
  | read k =>
    cases hst
    exact h.read crc32 k
  | evict block =>
    cases hst
    refine h.setCache fun k block' hget => ?_
    rw [Table.get_del] at hget
    split_ifs at hget
    exact hget
  | invalidateSegment segId =>
    cases hst
    refine h.setCache fun k block' hget => ?_
    rw [Table.get_filter] at hget
    exact (Option.filter_eq_some_iff.mp hget).1
  | create segId =>
    simp only [step] at hst
    split_ifs at hst with hnone
    cases hst
    refine h.setFile fun segId' start block hget data hdata => ?_
    obtain ⟨m, hrow, -⟩ := h.coherent segId' start block hget
    have hne : segId' ≠ segId := by
      rintro rfl
      simp [hrow] at hnone
    rwa [Table.get_put_ne _ _ (by simpa using hne)] at hdata
  | register segId byteLen =>
    simp only [step] at hst
    split_ifs at hst with hrow
    cases hst
    refine h.upsert (by simp [entryMeta]) fun start block hget => ?_
    obtain ⟨m, hm, hsealed, -⟩ := h.coherent segId start block hget
    simp [isActive, hm, hsealed] at hrow
  | writeBatch segId rs => exact h.appendFile hst
  | writeFails segId left => exact h.appendFile hst
  | cas segId op =>
    simp only [step] at hst
    split_ifs at hst with hnext
    cases hst
    exact h.cas hnext
  | removeFile segId =>
    cases hst
    refine h.setFile fun segId' start block hget data hdata => ?_
    rw [Table.get_del] at hdata
    split_ifs at hdata
    exact hdata
  | index entryIndex walIndex =>
    cases hst
    exact ⟨h.own, h.coherent⟩
  | writeWal path data =>
    cases path with
    | entrySeg id => cases hst
    | activeSeg =>
      cases hst
      exact h.writeWal (by simp) data
    | sealedSeg id =>
      cases hst
      exact h.writeWal (by simp) data
  | walRegistry rows =>
    cases hst
    exact ⟨h.own, h.coherent⟩
  | object objects =>
    cases hst
    exact ⟨h.own, h.coherent⟩
  | restart files entryRegistry =>
    simp only [step] at hst
    split_ifs at hst with hown
    cases hst
    exact inv_init ⟨rfl, hown⟩

theorem inv_reach (h : Reach (step crc32) Init s) : Inv s :=
  h.invariant (fun _ => inv_init) fun _ a _ => inv_step crc32 a

end Coherence

section Agreement
variable {data : Bytes} {r : Rec} {offset : Nat} {segId : SegmentId}

def FitsTwoBlocks (offset : Nat) (r : Rec) : Prop := offset % blockSize + r.len ≤ 2 * blockSize

instance (offset : Nat) (r : Rec) : Decidable (FitsTwoBlocks offset r) :=
  inferInstanceAs (Decidable (_ ≤ _))

theorem payloadAt_of_window {pos : Nat} (h : window data pos r.len = r.encode crc32) :
    payloadAt crc32 data pos = .ok r.payload := by
  rw [payloadAt, decodeRecord_of_encode crc32 r data pos h]
  rfl

theorem payloadAt_blocks_iff (h : window data offset r.len = r.encode crc32) (segId : SegmentId) :
    payloadAt crc32 (window data (blockStart offset) (reachOf ⟨segId, offset, r.len⟩))
      (offset - blockStart offset) = .ok r.payload ↔ FitsTwoBlocks offset r := by
  have hmod : offset - blockStart offset = offset % blockSize := by
    have := blockStart_add offset
    omega
  have hreach : reachOf ⟨segId, offset, r.len⟩ ≤ 2 * blockSize := by
    unfold reachOf
    split_ifs <;> omega
  rw [hmod]
  constructor
  · intro hok
    unfold payloadAt at hok
    cases hdec : decodeRecord crc32 (window data (blockStart offset)
        (reachOf ⟨segId, offset, r.len⟩)) (offset % blockSize) with
    | error e =>
      rw [hdec] at hok
      cases hok
    | ok p =>
      -- the decoder has found a record of the same length inside the blocks
      obtain ⟨r', n⟩ := p
      rw [hdec] at hok
      have hpayload : r'.payload = r.payload := Except.ok.inj hok
      have hn : n = r'.len := ((decodeRecord_ok_iff crc32 _ _ r' n).mp hdec).1
      have hend := (decode_len crc32 hdec).2
      rw [window_length, hn, Rec.len, hpayload] at hend
      have hle := hend.trans ((min_le_left _ _).trans hreach)
      exact hle
  · intro hfits
    have hin : offset % blockSize + r.len ≤ reachOf ⟨segId, offset, r.len⟩ := by
      have hstart := blockStart_add offset
      unfold reachOf
      dsimp only
      split_ifs
      · omega
      · exact hfits.trans (by omega)
    refine payloadAt_of_window ?_
    rw [window_window _ _ _ _ _ hin, blockStart_add, h]

theorem batch_window {front : Bytes} (rest : Bytes) {rs : List Rec} {length : Nat}
    (hr : (r, offset, length) ∈ rs.zip (perEntry crc32 front.length rs)) :
    window (front ++ batchBytes crc32 rs ++ rest) offset r.len = r.encode crc32 ∧
      length = r.len % 256 ^ 4 := by
  have hdec := batch_decodes crc32 front rs _ hr
  obtain ⟨-, hwin⟩ := (decodeRecord_ok_iff crc32 _ _ _ _).mp hdec
  refine ⟨?_, ?_⟩
  · rw [window_append_left _ _ _ _ (decode_len crc32 hdec).2]
    exact hwin
  · rw [zip_perEntry] at hr
    obtain ⟨v, hv, heq⟩ := List.mem_map.mp hr
    cases heq
    rw [layout_len _ _ v hv]

/-- The index leads to a local file: an entry segment, or a segment of the WAL when the entry
is in none. -/
inductive Located (s : State) (k : Key) (path : SegPath) (iv : IndexValue) : Prop
  | entry {m : SegmentMeta} (hindex : s.entryIndex.getLocation k = some iv)
      (hrow : s.entryRegistry.get iv.segmentId = some m)
      (hstatus : m.status = .Active ∨ m.status = .Local ∨ m.status = .Offloading)
      (hpath : m.localPath = some path)
  | wal {m : SegmentMeta} (hmiss : s.entryIndex.getLocation k = none)
      (hindex : s.walIndex.getLocation k = some iv)
      (hrow : s.walRegistry.get iv.segmentId = some m)
      (hstatus : m.status = .Active ∨ m.status = .Local ∨ m.status = .Offloading)
      (hpath : m.localPath = some path)

variable {s : State} {k : Key}

theorem getWalBlock_eq {m : SegmentMeta} (hrow : s.walRegistry.get segId = some m)
    (hstatus : m.status = .Active ∨ m.status = .Local ∨ m.status = .Offloading)
    (hpath : m.localPath = some path) (start : Nat) :
    getWalBlock s segId start = (s, readLocalBlock s.files path start) := by
  obtain hst | hst | hst := hstatus <;> simp [getWalBlock, hrow, hst, hpath]

theorem readEntry_located {iv : IndexValue} (h : Inv s) (hloc : Located s k path iv)
    (hfile : s.files.get path = some data) :
    (readEntry crc32 s k).2 =
      payloadAt crc32 (window data (blockStart iv.offset) (reachOf iv))
        (iv.offset - blockStart iv.offset) := by
  cases hloc with
  | entry hindex hrow hstatus hpath =>
    rename_i m
    have hread : readEntry crc32 s k =
        readBlocks crc32 (getEntryBlock · iv.segmentId path (decide (m.status ≠ .Active))) s
          iv := by
      obtain hst | hst | hst := hstatus <;>
        simp [readEntry, hindex, readEntrySegment, hrow, hst, readLocalSegment, hpath]
    rw [hread]
    refine readBlocks_eq (P := fun t => Inv t ∧ Cached s t) ?_ iv ⟨h, s.cache, rfl⟩
    rintro t start ⟨ht, cache, rfl⟩
    obtain ⟨hinv, ⟨cache', hcached⟩, hblock⟩ := getEntryBlock_spec ht hrow hpath start
    exact ⟨⟨hinv, cache', hcached⟩, hblock data hfile⟩
  | wal hmiss hindex hrow hstatus hpath =>
    have hread : readEntry crc32 s k = readBlocks crc32 (getWalBlock · iv.segmentId) s iv := by
      simp [readEntry, hmiss, hindex]
    rw [hread]
    refine readBlocks_eq (P := fun t => t = s) ?_ iv rfl
    rintro t start rfl
    rw [getWalBlock_eq hrow hstatus hpath]
    exact ⟨rfl, readLocalBlock_ok hfile start⟩

theorem readRecordAt_eq (hfile : s.files.get path = some data)
    (hwin : window data offset r.len = r.encode crc32) :
    readRecordAt crc32 s.files path offset r.len = .ok r.payload := by
  have hlen : (window data offset r.len).length = r.len := by rw [hwin, r.encode_length]
  have hpayload : payloadAt crc32 (window data offset r.len) 0 = .ok r.payload := by
    refine payloadAt_of_window ?_
    rw [window_window _ _ _ _ _ (by omega), Nat.add_zero, hwin]
  simp [readRecordAt, openFile, hfile, Except.bind, hlen, hpayload]

theorem readS3Record_eq {s3Key : String} (hs3 : s.s3 = true)
    (hobj : s.objects.get s3Key = some data)
    (hwin : window data offset r.len = r.encode crc32) :
    readS3Record crc32 s s3Key offset r.len = .ok r.payload := by
  have hlen : (window data offset r.len).length = r.len := by rw [hwin, r.encode_length]
  have hpos : 0 < r.len := by simp [Rec.len, recordOverhead, recordHeader]
  have hin : ¬data.length ≤ offset := by
    rw [window_length] at hlen
    omega
  have hpayload : payloadAt crc32 (window data offset r.len) 0 = .ok r.payload := by
    refine payloadAt_of_window ?_
    rw [window_window _ _ _ _ _ (by omega), Nat.add_zero, hwin]
  simp [readS3Record, hs3, hobj, hin, hpayload]

theorem Inv.reads (h : Inv s) {front rest : Bytes} {rs : List Rec}
    {length : Nat} (hfile : s.files.get path = some (front ++ batchBytes crc32 rs ++ rest))
    (hr : (r, offset, length) ∈ rs.zip (perEntry crc32 front.length rs))
    (hlen : r.payload.length < 2 ^ 32 - 24) (hloc : Located s k path ⟨segId, offset, length⟩) :
    readRecordAt crc32 s.files path offset length = .ok r.payload ∧
    (∀ s3Key, s.s3 = true →
      s.objects.get s3Key = some (front ++ batchBytes crc32 rs ++ rest) →
      readS3Record crc32 s s3Key offset length = .ok r.payload) ∧
    ((readEntry crc32 s k).2 = .ok r.payload ↔ FitsTwoBlocks offset r) := by
  obtain ⟨hwin, hl⟩ := batch_window rest hr
  have hexact : length = r.len := by
    have hover : r.len = 24 + r.payload.length := rfl
    rw [hl, Nat.mod_eq_of_lt (by omega)]
  subst hexact
  refine ⟨readRecordAt_eq hfile hwin, fun s3Key hs3 hobj => readS3Record_eq hs3 hobj hwin, ?_⟩
  rw [readEntry_located h hloc hfile]
  exact payloadAt_blocks_iff hwin segId

theorem tiered_read_agrees_iff (h : Reach (step crc32) Init s) {front rest : Bytes}
    {rs : List Rec} {segId : SegmentId} {length : Nat}
    (hfile : s.files.get path = some (front ++ batchBytes crc32 rs ++ rest))
    (hr : (r, offset, length) ∈ rs.zip (perEntry crc32 front.length rs))
    (hlen : r.payload.length < 2 ^ 32 - 24) (hloc : Located s k path ⟨segId, offset, length⟩) :
    readRecordAt crc32 s.files path offset length = .ok r.payload ∧
    (∀ s3Key, s.s3 = true →
      s.objects.get s3Key = some (front ++ batchBytes crc32 rs ++ rest) →
      readS3Record crc32 s s3Key offset length = .ok r.payload) ∧
    ((readEntry crc32 s k).2 = .ok r.payload ↔ FitsTwoBlocks offset r) :=
  (inv_reach h).reads hfile hr hlen hloc

end Agreement

section OneRecord

def oneRecord (r : Rec) : State where
  cache := .empty
  entryIndex := FjallIndex.empty.insertLocation r.key 0 0 (r.len % 256 ^ 4)
  entryRegistry := Table.empty.put 0 (entryMeta 0 .Local 0)
  walIndex := .empty
  walRegistry := .empty
  files := Table.empty.put (.entrySeg 0) (batchBytes Crc32.crc32 [r])
  s3 := false
  objects := .empty

theorem oneRecord_init (r : Rec) : Init (oneRecord r) := ⟨rfl, rfl⟩

theorem oneRecord_file (r : Rec) : (oneRecord r).files.get (.entrySeg 0) =
    some ([] ++ batchBytes Crc32.crc32 [r] ++ []) := by
  rw [List.nil_append, List.append_nil]
  exact Table.get_put_self _ _ _

theorem oneRecord_mem (r : Rec) :
    (r, 0, r.len % 256 ^ 4) ∈ [r].zip (perEntry Crc32.crc32 ([] : Bytes).length [r]) := by
  rw [zip_perEntry]
  exact List.mem_singleton_self _

theorem oneRecord_located (r : Rec) :
    Located (oneRecord r) r.key (.entrySeg 0) ⟨0, 0, r.len % 256 ^ 4⟩ :=
  .entry (m := entryMeta 0 .Local 0) (Table.get_put_self _ _ _) rfl (.inr (.inl rfl)) rfl

theorem short_record_read : ∃ r : Rec, r.payload = [1, 2, 3] ∧
    (readEntry Crc32.crc32 (oneRecord r) r.key).2 = .ok r.payload := by
  refine ⟨⟨1, 0, [1, 2, 3], by decide, by decide, by decide⟩, rfl, ?_⟩
  exact (tiered_read_agrees_iff (.start (oneRecord_init _)) (oneRecord_file _) (oneRecord_mem _)
    (by decide) (oneRecord_located _)).2.2.mpr (by decide)

theorem oneRecord_unreadable {r : Rec} (h : r.payload.length = 2 * blockSize) :
    readRecordAt Crc32.crc32 (oneRecord r).files (.entrySeg 0) 0 (r.len % 256 ^ 4) =
      .ok r.payload ∧
    (readEntry Crc32.crc32 (oneRecord r) r.key).2 ≠ .ok r.payload := by
  have hreads := (inv_init (oneRecord_init r)).reads (oneRecord_file r) (oneRecord_mem r)
    (by rw [h]; decide) (oneRecord_located r)
  refine ⟨hreads.1, fun hok => ?_⟩
  have hfits : 0 % blockSize + (24 + r.payload.length) ≤ 2 * blockSize := hreads.2.2.mp hok
  omega

theorem long_record_unreadable : ∃ r : Rec, r.payload = List.replicate (2 * blockSize) 0 ∧
    readRecordAt Crc32.crc32 (oneRecord r).files (.entrySeg 0) 0 (r.len % 256 ^ 4) =
      .ok r.payload ∧
    (readEntry Crc32.crc32 (oneRecord r) r.key).2 ≠ .ok r.payload := by
  have hlt : (List.replicate (2 * blockSize) (0 : UInt8)).length < 256 ^ 4 := by
    rw [List.length_replicate]
    decide
  exact ⟨⟨1, 0, _, by decide, by decide, hlt⟩, rfl, oneRecord_unreadable List.length_replicate⟩

end OneRecord
end Folio.TieredReader
