import Folio.S3Upload

/-! The passes of the offloader over the sealed segments, and the reads that go on meanwhile. -/
namespace Folio.OffloadPass
open KeyedTable Protocol Fjall Fjall.SegmentRegistry RemoteProgram RelyGuarantee OffloadRequests
open S3Upload
open Offloader (mark rollBack record s3Key)
variable {id : SegmentId} {m : SegmentMeta} {file : Option Bytes} {diskPressure : Bool}

section Programs

structure OffloadPolicy where
  minAge : Nat
  maxLocalBytes : Option Nat

/-- `cas_status` and `cas_to_s3`: a `get` and then an `upsert`. -/
def cas (id : SegmentId) (op : CasOp) : Client Bool := do
  let row : Option SegmentMeta ← ask (.get id)
  match row with
  | none => pure false
  | some m =>
    if m.status ≠ op.expected then pure false
    else do
      ask (.upsert (op.write m))
      pure true

def isOldEnough (path : SegPath) (minAge : Nat) : Client Bool :=
  if minAge = 0 then pure true
  else tryCatch (do
    let age : Nat ← ask (.elapsed path)
    pure (decide (minAge ≤ age))) fun _ => pure true

def computeDiskPressure (maxLocalBytes : Option Nat) : Client Bool :=
  tryCatch (do
    let pending : List SegmentMeta ← ask (.listByStatus .Local)
    let total := pending.foldl (fun n m => n + m.byteLen) 0
    pure (maxLocalBytes.any fun budget => decide (budget < total))) fun _ => pure false

def goBack (id : SegmentId) : Client Unit :=
  tryCatch (do
    let _ ← cas id rollBack
    pure ()) fun _ => pure ()

/-- `Ok(false)` of `cas_to_s3` is not told from `Ok(true)`. -/
def recordAndRemove (id : SegmentId) (path : SegPath) : Client Unit := do
  let recorded ← tryCatch (do
    let _ ← cas id (record id)
    pure true) fun _ => pure false
  if recorded then tryCatch (ask (.removeFile path)) fun _ => pure () else goBack id

def verifyAndRecord (id : SegmentId) (path : SegPath) : Client Unit := do
  let verified ← tryCatch (do
    ask (.headObject (s3Key id))
    pure true) fun _ => pure false
  if verified then recordAndRemove id path else goBack id

def offloadSegment (id : SegmentId) (path : SegPath) : Client Unit := do
  let marked ← tryCatch (cas id mark) fun _ => pure false
  if marked then
    let uploaded ← uploadWithRetry (s3Key id) path
    match uploaded with
    | .ok _ => verifyAndRecord id path
    | .error _ => goBack id
  else pure ()

/-- The age of the file only counts without disk pressure. -/
def isEligible (policy : OffloadPolicy) (diskPressure : Bool) (path : SegPath) : Client Bool :=
  if diskPressure then pure true else isOldEnough path policy.minAge

def processSegment (policy : OffloadPolicy) (diskPressure : Bool) (m : SegmentMeta) :
    Client Unit :=
  match m.localPath with
  | none => pure ()
  | some path => do
    let eligible ← isEligible policy diskPressure path
    if eligible then offloadSegment m.id path else pure ()

def processPending (policy : OffloadPolicy) (diskPressure : Bool) : Client Unit := do
  let pending : List SegmentMeta ← tryCatch (ask (.listByStatus .Local)) fun _ => pure []
  pending.forM (processSegment policy diskPressure)

/-- So many rounds of the offload loop. The garbage collection of the WAL at the end of each is
left to the others. -/
def offloadLoop (policy : OffloadPolicy) : Nat → Client Unit
  | 0 => pure ()
  | n + 1 => do
    let diskPressure ← computeDiskPressure policy.maxLocalBytes
    processPending policy diskPressure
    offloadLoop policy n

end Programs

variable {policy : OffloadPolicy}

section Storage
variable {υ : Type}

inductive Stored (w : World υ) (id : SegmentId) (data : Bytes) : Prop
  | onDisk {m : SegmentMeta} (row : w.rows.get id = some m)
      (status : m.status = .Local ∨ m.status = .Offloading)
      (path : m.localPath = some (.entrySeg id))
      (file : w.files.get (.entrySeg id) = some data)
  | inBucket {m : SegmentMeta} (row : w.rows.get id = some m) (status : m.status = .S3)
      (key : m.s3Key = some (s3Key id)) (object : w.objects.get (s3Key id) = some data)

/-- What a reader of sealed segments can rely on: what is stored stays so, and a file is taken away
only when its row says that the segment is in the bucket. -/
structure Lasting (w w' : World υ) : Prop where
  s3 : w'.node.s3 = w.node.s3
  stored : ∀ id data, Stored w id data → Stored w' id data
  row : ∀ id m, w.rows.get id = some m → m.status ≠ .Active →
    ∃ m', w'.rows.get id = some m' ∧ m'.status ≠ .Active ∧ (m.status = .S3 → m' = m)
  file : ∀ id m, w.rows.get id = some m → m.status ≠ .Active →
    w'.files.get (.entrySeg id) = w.files.get (.entrySeg id) ∨
      (w'.files.get (.entrySeg id) = none ∧ ∃ m', w'.rows.get id = some m' ∧ m'.status = .S3)

structure Kept (w w' : World υ) : Prop where
  cache : w'.node.cache = w.node.cache
  inv : TieredReader.Inv w.node → TieredReader.Inv w'.node
  lasting : TieredReader.Inv w.node → Lasting w w'

variable {w w' : World υ} {data : Bytes}

theorem Lasting.refl (w : World υ) : Lasting w w :=
  ⟨rfl, fun _ _ h => h, fun _ m hm hst => ⟨m, hm, hst, fun _ => rfl⟩, fun _ _ _ _ => .inl rfl⟩

theorem Lasting.trans {w'' : World υ} (h : Lasting w w') (h' : Lasting w' w'') :
    Lasting w w'' where
  s3 := h'.s3.trans h.s3
  stored id data hst := h'.stored id data (h.stored id data hst)
  row id m hm hst := by
    obtain ⟨m', hm', hst', hsame⟩ := h.row id m hm hst
    obtain ⟨m'', hm'', hst'', hsame'⟩ := h'.row id m' hm' hst'
    refine ⟨m'', hm'', hst'', fun heq => ?_⟩
    cases hsame heq
    exact hsame' heq
  file id m hm hst := by
    obtain ⟨m', hm', hst', -⟩ := h.row id m hm hst
    rcases h'.file id m' hm' hst' with heq | hgone
    · rcases h.file id m hm hst with heq' | ⟨hnone, m₁, hm₁, hs3⟩
      · exact .inl (heq.trans heq')
      · obtain ⟨m'', hm'', -, hsame⟩ := h'.row id m₁ hm₁ (by rw [hs3]; exact nofun)
        exact .inr ⟨heq.trans hnone, m'', hm'', by rw [hsame hs3]; exact hs3⟩
    · exact .inr hgone

theorem Kept.refl (w : World υ) : Kept w w := ⟨rfl, fun h => h, fun _ => .refl w⟩

theorem Stored.row (h : Stored w id data) : ∃ m, w.rows.get id = some m ∧
    ((m.status = .Local ∨ m.status = .Offloading) ∧ m.localPath.isSome ∨
      m.status = .S3 ∧ m.s3Key.isSome) := by
  cases h with
  | onDisk row status path _ => exact ⟨_, row, .inl ⟨status, by rw [path]; rfl⟩⟩
  | inBucket row status key _ => exact ⟨_, row, .inr ⟨status, by rw [key]; rfl⟩⟩

theorem Stored.apart (h : Stored w id data) (hw : Apart w w') : Stored w' id data := by
  cases h with
  | onDisk row status path file =>
    rename_i m
    have hst : m.status ≠ .Active := by
      rintro heq
      rw [heq] at status
      simp at status
    exact .onDisk (hw.row id m row hst) status path ((hw.file id m row hst).trans file)
  | inBucket row status key object =>
    rename_i m
    have hst : m.status ≠ .Active := by
      rw [status]
      exact SegmentStatus.noConfusion
    refine .inBucket (hw.row id m row hst) status key ?_
    rw [World.objects, hw.objects]
    exact object

theorem lasting_of_apart (h : Apart w w') : Lasting w w' where
  s3 := h.s3
  stored _ _ hst := hst.apart h
  row id m hm hst := ⟨m, h.row id m hm hst, hst, fun _ => rfl⟩
  file id m hm hst := .inl (h.file id m hm hst)

theorem rows_upsert_ne (h : id ≠ m.id) : (w.upsert m).rows.get id = w.rows.get id :=
  Table.get_put_ne _ _ h

theorem rows_upsert_self : (w.upsert m).rows.get m.id = some m := Table.get_put_self _ _ _

theorem Stored.upsert_ne (h : Stored w id data) (hne : id ≠ m.id) :
    Stored (w.upsert m) id data := by
  cases h with
  | onDisk row status path file =>
    exact .onDisk ((rows_upsert_ne hne).trans row) status path file
  | inBucket row status key object =>
    exact .inBucket ((rows_upsert_ne hne).trans row) status key object

theorem inv_casWrite {op : CasOp} (h : TieredReader.Inv w.node) (hm : w.rows.get id = some m)
    (hnext : op.next ≠ .Active) : TieredReader.Inv (w.upsert (op.write m)).node := by
  obtain ⟨hid, hown⟩ := h.own id m hm
  refine h.upsert ?_ fun _ _ _ => by rwa [op.write_status]
  rw [op.write_id, hid]
  cases op with
  | status expected new => exact hown
  | toS3 expected s3Key => simp [CasOp.write]

theorem rows_casWrite (op : CasOp) (h : TieredReader.Inv w.node) (hm : w.rows.get id = some m) :
    (w.upsert (op.write m)).rows.get id = some (op.write m) := by
  have hid := (h.own id m hm).1
  rw [← hid, ← op.write_id]
  exact rows_upsert_self

theorem kept_casWrite {op : CasOp} (hm : w.rows.get id = some m) (hnext : op.next ≠ .Active)
    (hlocal : m.status ≠ .S3) (hown : TieredReader.Inv w.node → ∀ data, Stored w id data →
      Stored (w.upsert (op.write m)) id data) : Kept w (w.upsert (op.write m)) where
  cache := rfl
  inv h := inv_casWrite h hm hnext
  lasting h := by
    have hid : (op.write m).id = id := by rw [op.write_id, (h.own id m hm).1]
    refine ⟨rfl, fun id' data hst => ?_, fun id' m' hm' hst => ?_, fun _ _ _ _ => .inl rfl⟩
    · by_cases heq : id' = id
      · subst heq
        exact hown h data hst
      · exact hst.upsert_ne (hid ▸ heq)
    · by_cases heq : id' = id
      · subst heq
        cases hm.symm.trans hm'
        exact ⟨_, rows_casWrite op h hm, by rwa [op.write_status], fun hs3 => absurd hs3 hlocal⟩
      · exact ⟨m', (rows_upsert_ne (hid ▸ heq)).trans hm', hst, fun _ => rfl⟩

theorem kept_status {expected : SegmentStatus} (new : SegmentStatus) (hm : w.rows.get id = some m)
    (hst : m.status = expected) (hexpected : expected = .Local ∨ expected = .Offloading)
    (hnew : new = .Local ∨ new = .Offloading) :
    Kept w (w.upsert ((CasOp.status expected new).write m)) := by
  refine kept_casWrite hm ?_ ?_ fun h data hstored => ?_
  · rintro rfl
    simp at hnew
  · rintro hs3
    rw [← hst, hs3] at hexpected
    simp at hexpected
  · cases hstored with
    | onDisk row status path file =>
      cases hm.symm.trans row
      exact .onDisk (rows_casWrite _ h hm) hnew path file
    | inBucket row status key object =>
      cases hm.symm.trans row
      rw [← hst, status] at hexpected
      simp at hexpected

theorem kept_record (hm : w.rows.get id = some m)
    (hobj : w.objects.get (s3Key id) = w.files.get (.entrySeg id))
    (hst : m.status = .Offloading) : Kept w (w.upsert ((record id).write m)) := by
  refine kept_casWrite hm (by simp [record, CasOp.next]) (by rw [hst]; exact nofun)
    fun h data hstored => ?_
  cases hstored with
  | onDisk row status path file =>
    exact .inBucket (rows_casWrite _ h hm) rfl rfl (hobj.trans file)
  | inBucket row status key object =>
    cases hm.symm.trans row
    rw [hst] at status
    cases status

theorem kept_removeFile (hm : w.rows.get id = some m) (hst : m.status = .S3) :
    Kept w (w.removeFile (.entrySeg id)) where
  cache := rfl
  inv h := by
    refine h.setFile fun segId start block _ data hdata => ?_
    rw [Table.get_del] at hdata
    split_ifs at hdata
    exact hdata
  lasting h := by
    refine ⟨rfl, fun id' data hstored => ?_, fun _ m' hm' hst' => ⟨m', hm', hst', fun _ => rfl⟩,
      fun id' m' hm' _ => ?_⟩
    · cases hstored with
      | onDisk row status path file =>
        refine .onDisk row status path ((Table.get_del_ne _ ?_).trans file)
        rintro heq
        cases heq
        cases hm.symm.trans row
        rw [hst] at status
        simp at status
      | inBucket row status key object => exact .inBucket row status key object
    · by_cases heq : id' = id
      · subst heq
        exact .inr ⟨Table.get_del_self _ _, m, hm, hst⟩
      · exact .inl (Table.get_del_ne _ fun hpath => heq (SegPath.entrySeg.inj hpath))

theorem kept_stores (hm : w.rows.get id = some m)
    (hst : m.status = .Offloading) (hw : Stores (s3Key id) file w w') : Kept w w' where
  cache := by rw [hw.node]
  inv h := by
    rw [hw.node]
    exact ⟨h.own, h.coherent⟩
  lasting h := by
    have hrows : w'.rows = w.rows := by rw [World.rows, hw.node]; rfl
    have hfiles : w'.files = w.files := by rw [World.files, hw.node]; rfl
    refine ⟨by rw [hw.node], fun id' data hstored => ?_,
      fun id' m' hm' hst' => ⟨m', hrows ▸ hm', hst', fun _ => rfl⟩,
      fun _ _ _ _ => .inl (by rw [hfiles])⟩
    cases hstored with
    | onDisk row status path file =>
      exact .onDisk (hrows ▸ row) status path (hfiles ▸ file)
    | inBucket row status key object =>
      refine .inBucket (hrows ▸ row) status key ((hw.others _ ?_).trans object)
      intro heq
      cases Offloader.s3Key_inj heq
      cases hm.symm.trans row
      rw [hst] at status
      cases status

end Storage

section Specs
variable {δ υ : Type} {s3 : S3 υ} {out : δ → Outcome} {w : World υ}

abbrev Passes {α : Type} (s3 : S3 υ) (out : δ → Outcome)
    (post : Except String α → World υ → Prop) (p : Client α) (w : World υ) : Prop :=
  Secures (I := Requests) (answers s3 out) Apart Kept post p w

abbrev Safe {α : Type} : Except String α → World υ → Prop :=
  Ends (fun _ w => TieredReader.Inv w.node) fun _ => False

theorem inv_apart (s t : World υ) (hst : Apart s t) (hs : TieredReader.Inv s.node) :
    TieredReader.Inv t.node := hst.inv hs

structure Marked (id : SegmentId) (m : SegmentMeta) (file : Option Bytes) (w : World υ) : Prop where
  inv : TieredReader.Inv w.node
  source : Sealed id m file w
  offloading : m.status = .Offloading

theorem Marked.apart (s t : World υ) (hst : Apart s t)
    (hs : Marked id m file s) : Marked id m file t :=
  ⟨hst.inv hs.inv, hs.source.apart hst, hs.offloading⟩

structure Copied (id : SegmentId) (m : SegmentMeta) (file : Option Bytes) (w : World υ) : Prop
    extends Marked id m file w where
  object : w.objects.get (s3Key id) = file

theorem Copied.apart (s t : World υ) (hst : Apart s t)
    (hs : Copied id m file s) : Copied id m file t := by
  refine ⟨hs.toMarked.apart s t hst, ?_⟩
  rw [World.objects, hst.objects]
  exact hs.object

section Full
variable (hfull : FullReads out)
include hfull

theorem cas_passes {op : CasOp} (hop : op.expected ≠ .Active) {Q : World υ → Prop}
    {post : Except String Bool → World υ → Prop} (hstable : ∀ s t, Apart s t → Q s → Q t)
    (hw : Q w)
    (hwrite : ∀ t m, Q t → t.rows.get id = some m → m.status = op.expected →
      Kept t (t.upsert (op.write m)) ∧ post (.ok true) (t.upsert (op.write m)) ∧
        ∀ e, post (.error e) (t.upsert (op.write m)))
    (hkeep : ∀ t, Q t → (∀ m, t.rows.get id = some m → m.status ≠ op.expected) →
      post (.ok false) t)
    (hfail : ∀ t e, Q t → post (.error e) t) : Passes s3 out post (cas id op) w := by
  have hget : Passes s3 out (Ends (fun row t => Q t ∧ t.rows.get id = row) Q) (ask (.get id)) w :=
    secures_ask Q hfull (fun _ => Op.noConfusion) hstable .refl hw (fun t ht => ⟨.refl t, ht, rfl⟩)
      fun _ t e ht => ⟨ht, ht⟩
  refine hget.bind ?_ fun e t ht => hfail t e ht
  rintro row t ⟨ht, hrow⟩
  cases row with
  | none =>
    refine hkeep t ht fun m hm => ?_
    rw [hrow] at hm
    cases hm
  | some m =>
    dsimp only
    split_ifs with hst
    · refine hkeep t ht fun m' hm' => ?_
      cases hrow.symm.trans hm'
      exact hst
    · have hexp : m.status = op.expected := not_not.mp hst
      have hupsert : Passes s3 out (Ends (fun _ => post (.ok true)) fun t => ∀ e, post (.error e) t)
          (ask (.upsert (op.write m))) t := by
        refine secures_ask (fun t => Q t ∧ t.rows.get id = some m) hfull (fun _ => Op.noConfusion)
          ?_ .refl ⟨ht, hrow⟩ ?_ ?_
        · rintro s t hst ⟨hs, hm⟩
          exact ⟨hstable s t hst hs, hst.row id m hm (hexp ▸ hop)⟩
        · rintro t ⟨ht, hm⟩
          obtain ⟨hkept, hok, -⟩ := hwrite t m ht hm hexp
          exact ⟨hkept, hok⟩
        · rintro - t e ⟨ht, hm⟩
          exact ⟨fun e => hfail t e ht, (hwrite t m ht hm hexp).2.2⟩
      exact hupsert.bind (fun _ t h => h) fun e t h => h e

theorem goBack_passes (hw : TieredReader.Inv w.node) : Passes s3 out Safe (goBack id) w := by
  have hcas : Passes s3 out (Ends (fun _ t => TieredReader.Inv t.node)
      fun t => TieredReader.Inv t.node) (cas id rollBack) w := by
    refine cas_passes hfull (Q := fun t => TieredReader.Inv t.node) SegmentStatus.noConfusion
      inv_apart hw ?_ (fun t ht _ => ht) fun t e ht => ht
    intro t m ht hm hst
    have hkept := kept_status .Local hm hst (.inr rfl) (.inl rfl)
    exact ⟨hkept, hkept.inv ht, fun _ => hkept.inv ht⟩
  exact hcas.settle (fun _ t h => h) fun t h => h

theorem mark_passes (hw : TieredReader.Inv w.node) :
    Passes s3 out (Ends (fun marked t => TieredReader.Inv t.node ∧
      (marked = true → ∃ m file, Marked id m file t)) fun _ => False)
      (tryCatch (cas id mark) fun _ => pure false) w := by
  have hcas : Passes s3 out (Ends (fun marked t => TieredReader.Inv t.node ∧
      (marked = true → ∃ m file, Marked id m file t)) fun t => TieredReader.Inv t.node)
      (cas id mark) w := by
    refine cas_passes hfull (Q := fun t => TieredReader.Inv t.node) SegmentStatus.noConfusion
      inv_apart hw ?_ (fun t ht _ => ⟨ht, Bool.noConfusion⟩) fun t e ht => ht
    intro t m ht hm hst
    have hkept := kept_status .Offloading hm hst (.inl rfl) (.inr rfl)
    refine ⟨hkept, ⟨hkept.inv ht, fun _ => ?_⟩, fun _ => hkept.inv ht⟩
    refine ⟨mark.write m, t.files.get (.entrySeg id), hkept.inv ht, ?_, rfl⟩
    exact ⟨rows_casWrite _ ht hm, SegmentStatus.noConfusion, rfl⟩
  exact hcas.handle (fun _ t h => h) fun e t h => ⟨h, Bool.noConfusion⟩

theorem upload_passes (hw : Marked id m file w) :
    Passes s3 out (Ends (Ends (fun _ => Copied id m file) fun t => TieredReader.Inv t.node)
      fun _ => False) (uploadWithRetry (s3Key id) (.entrySeg id)) w := by
  refine (Secures.weaken (P := Marked id m file) Marked.apart (fun s t hs hst => ?_)
    (uploadWithRetry_secures hfull s3 _ hw.source) hw).mono ?_
  · have hkept := kept_stores hs.source.row hs.offloading hst
    exact ⟨hkept, hkept.inv hs.inv, hs.source.of_node hst, hs.offloading⟩
  · rintro (e | e | a) t ⟨hend, ht⟩
    · exact hend
    · exact ht.inv
    · exact ⟨ht, hend.object⟩

theorem recordAndRemove_passes (hw : Copied id m file w) :
    Passes s3 out Safe (recordAndRemove id (.entrySeg id)) w := by
  have hcas : Passes s3 out (Ends (fun _ t => TieredReader.Inv t.node ∧
      ∃ m, t.rows.get id = some m ∧ m.status = .S3) fun t => TieredReader.Inv t.node)
      (cas id (record id)) w := by
    refine cas_passes hfull (Q := Copied id m file) SegmentStatus.noConfusion Copied.apart hw ?_ ?_
      fun t e ht => ht.inv
    · intro t m' ht hm' hst
      have hkept := kept_record hm' (ht.object.trans ht.source.file.symm) hst
      exact ⟨hkept, ⟨hkept.inv ht.inv, _, rows_casWrite _ ht.inv hm', rfl⟩,
        fun _ => hkept.inv ht.inv⟩
    · -- nobody else has touched the row since it was marked
      intro t ht hne
      exact absurd ht.offloading (hne m ht.source.row)
  have hrecorded : Passes s3 out (Ends (fun recorded t => TieredReader.Inv t.node ∧
      (recorded = true → ∃ m, t.rows.get id = some m ∧ m.status = .S3)) fun _ => False)
      (tryCatch (do
        let _ ← cas id (record id)
        pure true) fun _ => pure false) w :=
    hcas.settle (fun _ t h => ⟨h.1, fun _ => h.2⟩) fun t h => ⟨h, Bool.noConfusion⟩
  refine hrecorded.bind ?_ fun e t h => h
  rintro (_ | _) t ⟨ht, hs3⟩
  · exact goBack_passes hfull ht
  · have hremove : Passes s3 out (Ends (fun _ t => TieredReader.Inv t.node)
        fun t => TieredReader.Inv t.node) (ask (.removeFile (.entrySeg id))) t := by
      obtain ⟨m', hm', hst⟩ := hs3 rfl
      have hperform (u : World υ) (hu : u.rows.get id = some m') (hinv : TieredReader.Inv u.node) :
          Kept u (perform s3 u (.removeFile (.entrySeg id))).1 ∧
            TieredReader.Inv (perform s3 u (.removeFile (.entrySeg id))).1.node := by
        have hkept := kept_removeFile hu hst
        simp only [perform]
        split
        · exact ⟨hkept, hkept.inv hinv⟩
        · exact ⟨.refl u, hinv⟩
      refine secures_ask (fun u => TieredReader.Inv u.node ∧ u.rows.get id = some m')
        hfull (fun _ => Op.noConfusion) ?_ .refl ⟨ht, hm'⟩ ?_ ?_
      · rintro u v huv ⟨hu, hrow⟩
        exact ⟨huv.inv hu, huv.row id m' hrow (by rw [hst]; exact SegmentStatus.noConfusion)⟩
      · rintro u ⟨hu, hrow⟩
        obtain ⟨hkept, hinv⟩ := hperform u hrow hu
        refine ⟨hkept, ?_⟩
        cases (perform s3 u (.removeFile (.entrySeg id))).2 <;> exact hinv
      · rintro - u e ⟨hu, hrow⟩
        exact ⟨hu, (hperform u hrow hu).2⟩
    exact hremove.handle (fun _ t h => h) fun e t h => h

theorem verifyAndRecord_passes (hw : Copied id m file w) :
    Passes s3 out Safe (verifyAndRecord id (.entrySeg id)) w := by
  have hhead : Passes s3 out (Ends (fun _ => Copied id m file) (Copied id m file))
      (ask (.headObject (s3Key id))) w := by
    refine secures_ask _ hfull (fun _ => Op.noConfusion) Copied.apart .refl hw (fun t ht => ?_)
      fun _ t e ht => ⟨ht, ht⟩
    refine ⟨.refl t, ?_⟩
    simp only [perform]
    cases s3.headObject t.bucket (s3Key id) (t.objects.get (s3Key id)) <;> exact ht
  have hverified : Passes s3 out (Ends (fun _ => Copied id m file) fun _ => False)
      (tryCatch (do
        ask (.headObject (s3Key id))
        pure true) fun _ => pure false) w :=
    hhead.settle (fun _ t h => h) fun t h => h
  refine hverified.bind ?_ fun e t h => h
  rintro (_ | _) t ht
  · exact goBack_passes hfull ht.inv
  · exact recordAndRemove_passes hfull ht

theorem offloadSegment_passes (hw : TieredReader.Inv w.node) :
    Passes s3 out Safe (offloadSegment id (.entrySeg id)) w := by
  refine (mark_passes hfull hw).bind ?_ fun e t h => h
  rintro (_ | _) t ⟨ht, hmarked⟩
  · exact ht
  · obtain ⟨m, file, hm⟩ := hmarked rfl
    refine (upload_passes hfull hm).bind ?_ fun e t h => h
    rintro (e | a) t ht
    · exact goBack_passes hfull ht
    · exact verifyAndRecord_passes hfull ht

theorem isOldEnough_passes {path : SegPath} {minAge : Nat} (hw : TieredReader.Inv w.node) :
    Passes s3 out Safe (isOldEnough path minAge) w := by
  unfold isOldEnough
  split_ifs
  · exact hw
  · have hage : Passes s3 out (Ends (fun _ t => TieredReader.Inv t.node)
        fun t => TieredReader.Inv t.node) (ask (.elapsed path)) w := by
      have hfst (t : World υ) : (perform s3 t (.elapsed path)).1 = t := by
        simp only [perform]
        split <;> rfl
      refine secures_ask _ hfull (fun _ => Op.noConfusion) inv_apart .refl hw (fun t ht => ?_)
        fun _ t e ht => ?_
      · rw [hfst]
        refine ⟨.refl t, ?_⟩
        cases (perform s3 t (.elapsed path)).2 <;> exact ht
      · rw [hfst]
        exact ⟨ht, ht⟩
    exact hage.settle (fun _ t h => h) fun t h => h

theorem list_passes {status : SegmentStatus} (hw : TieredReader.Inv w.node) :
    Passes s3 out (Ends (fun (pending : List SegmentMeta) t => TieredReader.Inv t.node ∧
      ∀ m ∈ pending, ∀ path ∈ m.localPath, path = .entrySeg m.id)
      fun t => TieredReader.Inv t.node) (ask (.listByStatus status)) w := by
  refine secures_ask _ hfull (fun _ => Op.noConfusion) inv_apart .refl hw (fun t ht => ?_)
    fun _ t e ht => ⟨ht, ht⟩
  refine ⟨.refl t, ht, fun m hm path hpath => ?_⟩
  obtain ⟨hval, -⟩ := List.mem_filter.mp ((List.perm_insertionSort _ _).mem_iff.mp hm)
  obtain ⟨id, hid⟩ := (Table.mem_values_iff _ m).mp hval
  obtain ⟨heq, hown⟩ := ht.own id m hid
  rw [heq]
  exact hown path hpath

theorem processSegment_passes
    (hw : TieredReader.Inv w.node) (hown : ∀ path ∈ m.localPath, path = .entrySeg m.id) :
    Passes s3 out Safe (processSegment policy diskPressure m) w := by
  unfold processSegment
  split
  · exact hw
  · rename_i path hpath
    cases hown path hpath
    have heligible : Passes s3 out Safe (isEligible policy diskPressure (.entrySeg m.id)) w := by
      unfold isEligible
      split_ifs
      · exact hw
      · exact isOldEnough_passes hfull hw
    refine heligible.bind ?_ fun e t h => h
    rintro (_ | _) t ht
    · exact ht
    · exact offloadSegment_passes hfull ht

theorem processPending_passes
    (hw : TieredReader.Inv w.node) : Passes s3 out Safe (processPending policy diskPressure) w := by
  have hlist : Passes s3 out (Ends (fun (pending : List SegmentMeta) t => TieredReader.Inv t.node ∧
      ∀ m ∈ pending, ∀ path ∈ m.localPath, path = .entrySeg m.id) fun _ => False)
      (tryCatch (ask (.listByStatus .Local)) fun _ => pure []) w :=
    (list_passes hfull hw).handle (fun _ t h => h) fun e t h => ⟨h, by simp⟩
  refine hlist.bind ?_ fun e t h => h
  rintro pending t ⟨ht, hown⟩
  induction pending generalizing t with
  | nil => exact ht
  | cons m pending ih =>
    refine (processSegment_passes hfull ht (hown m List.mem_cons_self)).bind ?_ fun e t h => h
    exact fun _ u hu => ih u hu fun m' hm' => hown m' (List.mem_cons_of_mem m hm')

theorem offloadLoop_passes (policy : OffloadPolicy) (n : Nat) (hw : TieredReader.Inv w.node) :
    Passes s3 out Safe (offloadLoop policy n) w := by
  induction n generalizing w with
  | zero => exact hw
  | succ n ih =>
    have hpressure : Passes s3 out Safe (computeDiskPressure policy.maxLocalBytes) w :=
      (list_passes hfull hw).settle (fun _ t h => h.1) fun t h => h
    refine hpressure.bind ?_ fun e t h => h
    intro diskPressure t ht
    refine (processPending_passes hfull ht).bind ?_ fun e t h => h
    exact fun _ u hu => ih hu

end Full
end Specs

section Deliveries
variable {υ : Type} (s3 : S3 υ) {w w' w'' : World υ} {data : Bytes} {id' : SegmentId}

abbrev deliver {α : Type} (s3 : S3 υ) (p : Client α) (w : World υ) :
    World υ × Except String α :=
  Prog.run (I := Requests) (answer s3 .delivered) p w

theorem deliver_ask {o : Op} (hsleep : ∀ n, o ≠ .sleep n) (w : World υ) :
    deliver s3 (ask o) w = perform s3 w o := by
  have hfull : FullReads fun _ : Unit => Outcome.delivered := fun _ _ => Outcome.noConfusion
  exact (answers_eq hfull hsleep () w : answers s3 (fun _ : Unit => .delivered) () w o = _)

theorem deliver_cas (op : CasOp) (hm : w.rows.get id = some m) (hst : m.status = op.expected) :
    deliver s3 (cas id op) w = (w.upsert (op.write m), .ok true) := by
  have hget : deliver s3 (ask (.get id)) w = (w, .ok (some m)) := by
    rw [← hm]
    rfl
  refine (Prog.run_bind_of_ok _ hget).trans ?_
  dsimp only
  rw [if_neg (not_not.mpr hst)]
  rfl

structure Only (id : SegmentId) (w w' : World υ) : Prop where
  row : ∀ id', id' ≠ id → w'.rows.get id' = w.rows.get id'
  file : ∀ id', id' ≠ id → w'.files.get (.entrySeg id') = w.files.get (.entrySeg id')
  object : ∀ id', id' ≠ id → w'.objects.get (s3Key id') = w.objects.get (s3Key id')

theorem Only.trans (h : Only id w w') (h' : Only id w' w'') : Only id w w'' where
  row id' hne := (h'.row id' hne).trans (h.row id' hne)
  file id' hne := (h'.file id' hne).trans (h.file id' hne)
  object id' hne := (h'.object id' hne).trans (h.object id' hne)

theorem only_upsert (hid : m.id = id) : Only id w (w.upsert m) :=
  ⟨fun _ hne => rows_upsert_ne (hid ▸ hne), fun _ _ => rfl, fun _ _ => rfl⟩

theorem only_removeFile : Only id w (w.removeFile (.entrySeg id)) where
  row _ _ := rfl
  file _ hne := Table.get_del_ne _ fun heq => hne (SegPath.entrySeg.inj heq)
  object _ _ := rfl

theorem only_stores (h : Stores (s3Key id) file w w') : Only id w w' where
  row id' _ := by rw [World.rows, h.node]; rfl
  file id' _ := by rw [World.files, h.node]; rfl
  object id' hne := h.others _ fun heq => hne (Offloader.s3Key_inj heq)

structure Due (id : SegmentId) (data : Bytes) (w : World υ) : Prop where
  row : ∃ m, w.rows.get id = some m ∧ m.status = .Local ∧ m.localPath = some (.entrySeg id)
  file : w.files.get (.entrySeg id) = some data
  size : data.length ≤ maxUploadBytes

structure Moved (id : SegmentId) (data : Bytes) (w : World υ) : Prop where
  row : ∃ m, w.rows.get id = some m ∧ m.status = .S3 ∧ m.s3Key = some (s3Key id)
  object : w.objects.get (s3Key id) = some data
  file : w.files.get (.entrySeg id) = none

theorem Due.only (h : Due id' data w) (hw : Only id w w') (hne : id' ≠ id) : Due id' data w' where
  row := by
    rw [hw.row id' hne]
    exact h.row
  file := (hw.file id' hne).trans h.file
  size := h.size

theorem Moved.only (h : Moved id' data w) (hw : Only id w w') (hne : id' ≠ id) :
    Moved id' data w' where
  row := by
    rw [hw.row id' hne]
    exact h.row
  object := (hw.object id' hne).trans h.object
  file := (hw.file id' hne).trans h.file

theorem deliver_recordAndRemove (hw : Copied id m (some data) w) :
    ∃ w', deliver s3 (recordAndRemove id (.entrySeg id)) w = (w', .ok ()) ∧
      TieredReader.Inv w'.node ∧ Moved id data w' ∧ Only id w w' := by
  have hid := (hw.inv.own id m hw.source.row).1
  have hcas := deliver_cas s3 (record id) hw.source.row hw.offloading
  have hkept := kept_record hw.source.row (hw.object.trans hw.source.file.symm) hw.offloading
  have hrow := rows_casWrite (record id) hw.inv hw.source.row
  have hrecorded : deliver s3 (tryCatch (do
      let _ ← cas id (record id)
      pure true) fun _ => pure false) w = (w.upsert ((record id).write m), .ok true) :=
    Prog.run_handle_of_ok _ (Prog.run_bind_of_ok _ hcas)
  have hremove : deliver s3 (tryCatch (ask (.removeFile (.entrySeg id))) fun _ => pure ())
      (w.upsert ((record id).write m)) =
      ((w.upsert ((record id).write m)).removeFile (.entrySeg id), .ok ()) := by
    have hask : deliver s3 (ask (.removeFile (.entrySeg id))) (w.upsert ((record id).write m)) =
        ((w.upsert ((record id).write m)).removeFile (.entrySeg id), .ok ()) := by
      have hfile : (w.upsert ((record id).write m)).files.get (.entrySeg id) = some data :=
        hw.source.file
      rw [deliver_ask s3 fun _ => Op.noConfusion]
      simp only [perform, hfile]
    exact Prog.run_handle_of_ok _ hask
  refine ⟨(w.upsert ((record id).write m)).removeFile (.entrySeg id), ?_,
    (kept_removeFile hrow rfl).inv (hkept.inv hw.inv), ⟨⟨_, hrow, rfl, rfl⟩, hw.object,
      Table.get_del_self _ _⟩, (only_upsert ?_).trans only_removeFile⟩
  · exact (Prog.run_bind_of_ok _ hrecorded).trans hremove
  · rw [CasOp.write_id, hid]

theorem deliver_offloadSegment (hinv : TieredReader.Inv w.node) (hw : Due id data w) :
    ∃ w', deliver s3 (offloadSegment id (.entrySeg id)) w = (w', .ok ()) ∧
      TieredReader.Inv w'.node ∧ Moved id data w' ∧ Only id w w' := by
  obtain ⟨m, hm, hlocal, -⟩ := hw.row
  have hid := (hinv.own id m hm).1
  have hkept := kept_status .Offloading hm hlocal (.inl rfl) (.inr rfl)
  have hmark := deliver_cas s3 mark hm hlocal
  have hmarked : deliver s3 (tryCatch (cas id mark) fun _ => pure false) w =
      (w.upsert (mark.write m), .ok true) :=
    Prog.run_handle_of_ok _ hmark
  have hsealed : Sealed id (mark.write m) (some data) (w.upsert (mark.write m)) :=
    ⟨rows_casWrite _ hinv hm, SegmentStatus.noConfusion, hw.file⟩
  obtain ⟨w₂, hupload, huploaded, hstores⟩ :=
    uploadWithRetry_delivered s3 (s3Key id) hsealed hw.size
  have hcopied : Copied id (mark.write m) (some data) w₂ :=
    ⟨⟨(kept_stores hsealed.row rfl hstores).inv (hkept.inv hinv), huploaded.source, rfl⟩,
      huploaded.object⟩
  have hverified : deliver s3 (tryCatch (do
      ask (.headObject (s3Key id))
      pure true) fun _ => pure false) w₂ = (w₂, .ok true) := by
    have hhead : deliver s3 (ask (.headObject (s3Key id))) w₂ = (w₂, .ok ()) := by
      rw [deliver_ask s3 fun _ => Op.noConfusion]
      rw [perform, huploaded.object, s3.head_ok]
      rfl
    exact Prog.run_handle_of_ok _ (Prog.run_bind_of_ok _ hhead)
  obtain ⟨w₃, hrecord, hinv₃, hmoved, honly⟩ := deliver_recordAndRemove s3 hcopied
  refine ⟨w₃, ?_, hinv₃, hmoved, ((only_upsert ?_).trans (only_stores hstores)).trans honly⟩
  · refine (Prog.run_bind_of_ok _ hmarked).trans ?_
    rw [if_pos rfl]
    refine (Prog.run_bind_of_ok _ hupload).trans ?_
    exact (Prog.run_bind_of_ok _ hverified).trans hrecord
  · rw [CasOp.write_id, hid]

theorem deliver_processSegment
    (hall : diskPressure = true ∨ policy.minAge = 0) (hinv : TieredReader.Inv w.node)
    (hpath : m.localPath = some (.entrySeg m.id)) (hw : Due m.id data w) :
    ∃ w', deliver s3 (processSegment policy diskPressure m) w = (w', .ok ()) ∧
      TieredReader.Inv w'.node ∧ Moved m.id data w' ∧ Only m.id w w' := by
  have heligible : deliver s3 (isEligible policy diskPressure (.entrySeg m.id)) w =
      (w, .ok true) := by
    unfold isEligible isOldEnough
    rcases hall with hpressure | hage
    · rw [if_pos hpressure]
      rfl
    · rw [if_pos hage]
      split_ifs <;> rfl
  obtain ⟨w', hrun, hrest⟩ := deliver_offloadSegment s3 hinv hw
  refine ⟨w', ?_, hrest⟩
  rw [processSegment, hpath]
  refine (Prog.run_bind_of_ok _ heligible).trans ?_
  rw [if_pos rfl]
  exact hrun

theorem deliver_pending
    (hall : diskPressure = true ∨ policy.minAge = 0) {pending : List SegmentMeta}
    (hnodup : (pending.map SegmentMeta.id).Nodup) (hinv : TieredReader.Inv w.node)
    (hdue : ∀ m ∈ pending, m.localPath = some (.entrySeg m.id) ∧ ∃ data, Due m.id data w) :
    ∃ w', deliver s3 (pending.forM (processSegment policy diskPressure)) w = (w', .ok ()) ∧
      (∀ m ∈ pending, ∀ data, Due m.id data w → Moved m.id data w') ∧
      ∀ id data, id ∉ pending.map SegmentMeta.id → Moved id data w → Moved id data w' := by
  induction pending generalizing w with
  | nil => exact ⟨w, rfl, by simp, fun _ _ _ h => h⟩
  | cons m pending ih =>
    rw [List.map_cons, List.nodup_cons] at hnodup
    obtain ⟨hpath, data, hm⟩ := hdue m List.mem_cons_self
    obtain ⟨w₁, hrun, hinv₁, hmoved, honly⟩ :=
      deliver_processSegment s3 hall hinv hpath hm
    have hne : ∀ m' ∈ pending, m'.id ≠ m.id := fun m' hm' heq =>
      hnodup.1 (heq ▸ List.mem_map_of_mem hm')
    obtain ⟨w', hrest, hdone, hkeep⟩ := ih hnodup.2 hinv₁ fun m' hm' => by
      obtain ⟨hpath', data', hdue'⟩ := hdue m' (List.mem_cons_of_mem m hm')
      exact ⟨hpath', data', hdue'.only honly (hne m' hm')⟩
    refine ⟨w', (Prog.run_bind_of_ok _ hrun).trans hrest, ?_, ?_⟩
    · rintro m' hm' data' hdue'
      rcases List.mem_cons.mp hm' with rfl | hin
      · cases hm.file.symm.trans hdue'.file
        exact hkeep _ _ hnodup.1 hmoved
      · exact hdone m' hin data' (hdue'.only honly (hne m' hin))
    · intro id data' hnot hid
      rw [List.map_cons, List.mem_cons, not_or] at hnot
      exact hkeep id data' hnot.2 (hid.only honly hnot.1)

theorem ids_nodup {rows : SegmentRegistry} (h : rows.WellKeyed) (status : SegmentStatus) :
    ((listByStatus rows status).map SegmentMeta.id).Nodup := by
  have hids : rows.values.map SegmentMeta.id = rows.keys := by
    unfold Table.values Table.keys
    rw [List.map_map]
    exact List.map_congr_left fun e he => h e.1 e.2 ((rows.mem_entries_iff e.1 e.2).mp he)
  refine List.Nodup.sublist (List.filter_sublist.map _) ?_
  rw [hids]
  exact rows.nodup

/-- A round in which no request fails and no read is short, with nobody else at work, under disk
pressure or with no minimum age, moves every sealed segment whole to the bucket and frees its
file. -/
theorem pass_moves_segments (policy : OffloadPolicy) {diskPressure : Bool}
    (hall : diskPressure = true ∨ policy.minAge = 0) (hinv : TieredReader.Inv w.node)
    (hlocal : ∀ id m, w.rows.get id = some m → m.status = .Local → ∃ data, Due id data w) :
    ∃ w', deliver s3 (processPending policy diskPressure) w = (w', .ok ()) ∧
      ∀ id m, w.rows.get id = some m → m.status = .Local →
        ∃ data, w.files.get (.entrySeg id) = some data ∧ Moved id data w' := by
  have hmem (m : SegmentMeta) : m ∈ (listByStatus w.rows .Local).insertionSort
      (fun m m' => m.id ≤ m'.id) ↔ ∃ id, w.rows.get id = some m ∧ m.status = .Local := by
    rw [(List.perm_insertionSort _ _).mem_iff, listByStatus, List.mem_filter,
      Table.mem_values_iff, decide_eq_true_iff]
    exact exists_and_right.symm
  have hlist : deliver s3 (tryCatch (ask (.listByStatus .Local)) fun _ => pure []) w =
      (w, .ok ((listByStatus w.rows .Local).insertionSort fun m m' => m.id ≤ m'.id)) :=
    Prog.run_handle_of_ok _ rfl
  have hnodup : (((listByStatus w.rows .Local).insertionSort fun m m' => m.id ≤ m'.id).map
      SegmentMeta.id).Nodup := by
    refine ((List.perm_insertionSort _ _).map _).nodup_iff.mpr (ids_nodup ?_ _)
    exact fun id m hm => (hinv.own id m hm).1
  have hdue : ∀ m ∈ (listByStatus w.rows .Local).insertionSort (fun m m' => m.id ≤ m'.id),
      m.localPath = some (.entrySeg m.id) ∧ ∃ data, Due m.id data w := by
    intro m hm
    obtain ⟨id, hrow, hst⟩ := (hmem m).mp hm
    obtain ⟨data, hdue⟩ := hlocal id m hrow hst
    have hid := (hinv.own id m hrow).1
    subst hid
    obtain ⟨m', hrow', -, hpath⟩ := hdue.row
    cases hrow.symm.trans hrow'
    exact ⟨hpath, data, hdue⟩
  obtain ⟨w', hrun, hdone, -⟩ := deliver_pending s3 hall hnodup hinv hdue
  refine ⟨w', (Prog.run_bind_of_ok _ hlist).trans hrun, fun id m hm hst => ?_⟩
  obtain ⟨data, hwaiting⟩ := hlocal id m hm hst
  have hid := (hinv.own id m hm).1
  subst hid
  exact ⟨data, hwaiting.file, hdone m ((hmem m).mpr ⟨_, hm, hst⟩) data hwaiting⟩

theorem one_segment_moved : ∃ w', deliver (plainS3 fun _ => "") (processPending ⟨0, none⟩ false)
    (oneFile [1, 2, 3]) = (w', .ok ()) ∧ Moved 0 [1, 2, 3] w' := by
  have hrows : (oneFile [1, 2, 3]).rows =
      Table.empty.put 0 (EntrySegment.entryMeta 0 .Local 3) := rfl
  obtain ⟨w', hrun, hmoved⟩ := pass_moves_segments (plainS3 fun _ => "") ⟨0, none⟩
    (.inr rfl) (oneFile_inv [1, 2, 3]) fun id m hm _ => by
      rw [hrows, Table.get_put] at hm
      split_ifs at hm with heq
      · subst heq
        exact ⟨[1, 2, 3], ⟨m, by rw [hrows, Table.get_put_self, hm], by cases hm; rfl,
          by cases hm; rfl⟩, rfl, by decide⟩
      · cases hm
  obtain ⟨data, hdata, h0⟩ := hmoved 0 _ rfl rfl
  cases hdata
  exact ⟨w', hrun, h0⟩

end Deliveries
end Folio.OffloadPass
