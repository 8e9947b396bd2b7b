import Folio.OffloadRequests

/-! The upload of one segment file: in one piece or in parts, and again when it fails. -/
namespace Folio.S3Upload
open KeyedTable ByteCodec Protocol Fjall RemoteProgram RelyGuarantee OffloadRequests
open TransitionSystem
variable {key : String} {file : Option Bytes} {id : SegmentId} {m : SegmentMeta}
  {eTag : Nat → String} {uploadId n : Nat}

section Upload

def multipartPartBytes : Nat := 10 * 1024 * 1024

def maxRetries : Nat := 5

def uploadParts (key : String) (path : SegPath) (uploadId fileSize : Nat)
    (completedParts : List (Nat × String)) (offset partNum : Nat) :
    Client (List (Nat × String)) :=
  if offset < fileSize then do
    let readLen := min (fileSize - offset) multipartPartBytes
    let chunk : Bytes ← ask (.readAt path offset readLen)
    let eTag : Option String ← ask (.uploadPart key uploadId partNum chunk)
    uploadParts key path uploadId fileSize (completedParts ++ [(partNum, eTag.getD "")])
      (offset + readLen) (partNum + 1)
  else pure completedParts
termination_by fileSize - offset
decreasing_by
  have : 0 < multipartPartBytes := by decide
  omega

def doUpload (key : String) (path : SegPath) : Client Unit := do
  let fileSize : Nat ← ask (.metadata path)
  if fileSize ≤ multipartPartBytes then
    let body : Bytes ← ask (.fromPath path)
    ask (.putObject key fileSize body)
  else
    let mpu : Option Nat ← ask (.createMultipartUpload key)
    let uploadId ← Prog.okOr "no upload_id" mpu
    let completedParts ← uploadParts key path uploadId fileSize [] 0 1
    ask (.completeMultipartUpload key uploadId completedParts)

def uploadAttempts (key : String) (path : SegPath) : Nat → Nat → Client (Except FolioError Unit)
  | 0, _ => tryCatch (Except.ok <$> doUpload key path) fun e =>
      pure (.error (.storage s!"S3 upload failed after {maxRetries} retries: {e}"))
  | left + 1, delay => tryCatch (Except.ok <$> doUpload key path) fun _ => do
      ask (.sleep delay)
      uploadAttempts key path left (min (delay * 2) 60)

def uploadWithRetry (key : String) (path : SegPath) : Client (Except FolioError Unit) :=
  uploadAttempts key path maxRetries 1

end Upload
section Parts

def part (data : Bytes) (i : Nat) : Bytes := window data (i * multipartPartBytes) multipartPartBytes

def bodies (data : Bytes) (n : Nat) : List Bytes := (List.range n).map (part data)

def listing (eTag : Nat → String) (n : Nat) : List (Nat × String) :=
  (List.range n).map fun i => (i + 1, eTag i)

theorem listing_succ (eTag : Nat → String) (n : Nat) (t : String) :
    listing (Function.update eTag n t) (n + 1) = listing eTag n ++ [(n + 1, t)] := by
  rw [listing, List.range_succ, List.map_append, List.map_singleton, Function.update_self]
  congr 1
  refine List.map_congr_left fun i hi => ?_
  rw [Function.update_of_ne (Nat.ne_of_lt (List.mem_range.mp hi))]

theorem listing_ascending (eTag : Nat → String) (n : Nat) :
    (listing eTag n).Pairwise fun p q => p.1 < q.1 :=
  List.pairwise_map.mpr (List.pairwise_lt_range.imp Nat.succ_lt_succ)

theorem bodies_flatten (data : Bytes) (n : Nat) :
    (bodies data n).flatten = data.take (n * multipartPartBytes) := by
  induction n with
  | zero => simp [bodies]
  | succ n ih =>
    rw [bodies, List.range_succ, List.map_append, List.flatten_append, ← bodies, ih,
      Nat.succ_mul, List.take_add]
    simp [part, window]

theorem part_length_le (data : Bytes) (i : Nat) : (part data i).length ≤ maxPutBytes := by
  have hmax : multipartPartBytes ≤ maxPutBytes := by decide
  rw [part, window_length]
  exact (Nat.min_le_left _ _).trans hmax

/-- Every part but the last is full, so the bucket takes the list. -/
theorem bodies_full {data : Bytes} {n : Nat} (hfull : (n - 1) * multipartPartBytes ≤ data.length) :
    ∀ body ∈ (bodies data n).dropLast, minPartBytes ≤ body.length := by
  intro body hbody
  rw [bodies, ← List.map_dropLast] at hbody
  obtain ⟨i, hi, rfl⟩ := List.mem_map.mp hbody
  have hlt : i < n - 1 := by
    cases n with
    | zero => simp at hi
    | succ n => simpa [List.range_succ] using hi
  have hmul : (i + 1) * multipartPartBytes ≤ (n - 1) * multipartPartBytes :=
    Nat.mul_le_mul_right _ hlt
  have hmin : minPartBytes ≤ multipartPartBytes := by decide
  rw [Nat.succ_mul] at hmul
  rw [part, window_length_of_le _ _ _ (hmul.trans hfull)]
  exact hmin

end Parts

section Storing
variable {υ : Type}

structure Stores (key : String) (file : Option Bytes) (w w' : World υ) : Prop where
  node : w'.node = { w.node with objects := w'.node.objects }
  others : ∀ k, k ≠ key → w'.objects.get k = w.objects.get k
  own : w'.objects.get key = w.objects.get key ∨ (w'.objects.get key = file ∧ file.isSome)

theorem Stores.of_node {w w' : World υ} (h : w'.node = w.node) : Stores key file w w' := by
  refine ⟨by rw [h], fun k _ => ?_, .inl ?_⟩
  all_goals rw [World.objects, h, World.objects]

theorem Stores.refl (w : World υ) : Stores key file w w :=
  .of_node rfl

theorem Stores.trans {w w' w'' : World υ}
    (h : Stores key file w w') (h' : Stores key file w' w'') : Stores key file w w'' where
  node := by
    rw [h'.node, h.node]
  others k hk := (h'.others k hk).trans (h.others k hk)
  own := by
    rcases h'.own with hsame | hfile
    · rw [hsame]
      exact h.own
    · exact .inr hfile

theorem Stores.put {data : Bytes} {w w' : World υ}
    (h : w'.node = (w.putObject key data).node) : Stores key (some data) w w' := by
  have hobj : w'.objects = w.objects.put key data := by rw [World.objects, h]; rfl
  refine ⟨by rw [h]; rfl, fun k hk => ?_, .inr ⟨?_, rfl⟩⟩
  · rw [hobj, Table.get_put_ne _ _ hk]
  · rw [hobj, Table.get_put_self]

/-- The segment that is uploaded: its row, and its file if there is one. -/
structure Sealed (id : SegmentId) (m : SegmentMeta) (file : Option Bytes) (w : World υ) : Prop where
  row : w.rows.get id = some m
  status : m.status ≠ .Active
  file : w.files.get (.entrySeg id) = file

variable {w w' : World υ}

theorem Sealed.apart (h : Sealed id m file w) (hw : Apart w w') : Sealed id m file w' where
  row := hw.row id m h.row h.status
  status := h.status
  file := (hw.file id m h.row h.status).trans h.file

theorem Sealed.of_node (h : Sealed id m file w) {o : Option Bytes}
    (hw : Stores key o w w') : Sealed id m file w' where
  row := by
    rw [World.rows, hw.node]
    exact h.row
  status := h.status
  file := by
    rw [World.files, hw.node]
    exact h.file

theorem Sealed.same_node (h : Sealed id m file w) (hw : w'.node = w.node) : Sealed id m file w' :=
  h.of_node (.of_node hw : Stores "" none w w')

end Storing

section Spec
variable {δ υ : Type} {s3 : S3 υ} {out : δ → Outcome} {w : World υ} {w' : World υ}
variable {data : Bytes}

structure Uploading (s3 : S3 υ) (id : SegmentId) (m : SegmentMeta) (data : Bytes) (key : String)
    (uploadId : Nat) (eTag : Nat → String) (n : Nat) (w : World υ) : Prop where
  source : Sealed id m (some data) w
  opened : s3.Opened w.bucket key uploadId
  held : ∀ i < n, s3.part w.bucket key uploadId (i + 1) = some (eTag i, part data i)
  full : (n - 1) * multipartPartBytes ≤ data.length

theorem Uploading.apart (h : Uploading s3 id m data key uploadId eTag n w) (hw : Apart w w') :
    Uploading s3 id m data key uploadId eTag n w' where
  source := h.source.apart hw
  opened := by
    rw [hw.bucket]
    exact h.opened
  held := by
    rw [hw.bucket]
    exact h.held
  full := h.full

theorem Uploading.part (h : Uploading s3 id m data key uploadId eTag n w) (hn : n < maxPartNumber)
    (hmore : n * multipartPartBytes ≤ data.length) :
    ∃ w' t, perform s3 w (.uploadPart key uploadId (n + 1) (part data n)) =
        (w', .ok (some t)) ∧
      Uploading s3 id m data key uploadId (Function.update eTag n t) (n + 1) w' := by
  obtain ⟨u, t, hpart, hopened, hself, hothers⟩ := s3.part_ok w.bucket key uploadId (n + 1)
    (S3Upload.part data n) h.opened (Nat.succ_pos n) hn (part_length_le data n)
  refine ⟨{ w with bucket := u }, t, ?_, h.source.same_node rfl, hopened, fun i hi => ?_, hmore⟩
  · rw [perform, hpart]
    rfl
  · by_cases heq : i = n
    · subst heq
      rw [Function.update_self]
      exact hself
    · rw [Function.update_of_ne heq]
      dsimp only
      rw [hothers (i + 1) (by omega)]
      exact h.held i (by omega)

/-- The parts of a file that is not too long for them. -/
def maxUploadBytes : Nat := maxPartNumber * multipartPartBytes

def Hindered (out : δ → Outcome) (file : Option Bytes) : Prop :=
  Faulty out ∨ ∀ data, file = some data → maxUploadBytes < data.length

def Failed (out : δ → Outcome) (id : SegmentId) (m : SegmentMeta) (file : Option Bytes)
    (w : World υ) : Prop :=
  Sealed id m file w ∧ Hindered out file

abbrev Delivers {α : Type} (s3 : S3 υ) (out : δ → Outcome) (key : String) (id : SegmentId)
    (m : SegmentMeta) (file : Option Bytes) (post : α → World υ → Prop) (p : Client α)
    (w : World υ) : Prop :=
  Secures (I := Requests) (answers s3 out) Apart (Stores key file)
    (Ends post (Failed out id m file)) p w

section Full
variable (hfull : FullReads out)
include hfull

theorem uploadPart_secures (hw : Uploading s3 id m data key uploadId eTag n w)
    (hmore : n * multipartPartBytes < data.length) :
    Delivers s3 out key id m (some data) (fun reply u => ∃ t, reply = some t ∧
        Uploading s3 id m data key uploadId (Function.update eTag n t) (n + 1) u)
      (ask (.uploadPart key uploadId (n + 1) (part data n))) w := by
  refine secures_ask (Uploading s3 id m data key uploadId eTag n) hfull (fun _ => Op.noConfusion)
    (fun s t hst hs => hs.apart hst) .refl hw (fun t ht => ⟨.of_node rfl, ?_⟩)
    fun hfaulty t e ht => ?_
  · by_cases hn : n < maxPartNumber
    · obtain ⟨w', tag, hperform, hw'⟩ := ht.part hn hmore.le
      rw [hperform]
      exact ⟨tag, rfl, hw'⟩
    · obtain ⟨u, e, hrefused⟩ := s3.part_refused t.bucket key uploadId (n + 1) (part data n)
        (Nat.lt_succ_of_le (Nat.le_of_not_lt hn))
      have hmul : maxUploadBytes ≤ n * multipartPartBytes :=
        Nat.mul_le_mul_right _ (Nat.le_of_not_lt hn)
      rw [perform, hrefused]
      refine ⟨ht.source.same_node rfl, .inr fun data' hdata => ?_⟩
      cases hdata
      omega
  · exact ⟨⟨ht.source, .inl hfaulty⟩, ht.source.same_node rfl, .inl hfaulty⟩

theorem uploadParts_secures (hw : Uploading s3 id m data key uploadId eTag n w) :
    Delivers s3 out key id m (some data) (fun parts t => ∃ eTag n, parts = listing eTag n ∧
        Uploading s3 id m data key uploadId eTag n t ∧ data.length ≤ n * multipartPartBytes)
      (uploadParts key (.entrySeg id) uploadId data.length (listing eTag n)
        (min (n * multipartPartBytes) data.length) (n + 1)) w := by
  have hpos : 0 < multipartPartBytes := by decide
  induction hk : data.length - n * multipartPartBytes using Nat.strongRecOn
    generalizing n w eTag with
  | ind k ih =>
    rw [uploadParts]
    by_cases hmore : n * multipartPartBytes < data.length
    · have hmin : min (n * multipartPartBytes) data.length = n * multipartPartBytes :=
        min_eq_left hmore.le
      -- the last part ends with the file
      have hchunk : window data (n * multipartPartBytes)
          (min (data.length - n * multipartPartBytes) multipartPartBytes) = part data n := by
        unfold part window
        rw [← List.length_drop, min_comm, ← List.take_eq_take_min]
      rw [hmin, if_pos hmore]
      have hread : Delivers s3 out key id m (some data) (fun chunk t => chunk = part data n ∧
            Uploading s3 id m data key uploadId eTag n t)
          (ask (.readAt (.entrySeg id) (n * multipartPartBytes)
            (min (data.length - n * multipartPartBytes) multipartPartBytes))) w := by
        refine secures_onFile (Uploading s3 id m data key uploadId eTag n) hfull
          (fun _ => Op.noConfusion) (fun t => rfl) (fun s t hst hs => hs.apart hst) .refl
          (fun t ht => ht.source.file) hw (fun t data' hdata ht => ?_) fun t e hfail ht => ?_
        · cases hdata
          exact ⟨hchunk, ht⟩
        · exact ⟨ht.source, .inl (hfail.resolve_left (Option.some_ne_none _))⟩
      refine hread.bind ?_ fun e t h => h
      rintro chunk t ⟨rfl, ht⟩
      refine (uploadPart_secures hfull ht hmore).bind ?_ fun e t h => h
      rintro reply u ⟨tag, rfl, hu⟩
      have hoffset : n * multipartPartBytes +
          min (data.length - n * multipartPartBytes) multipartPartBytes =
          min ((n + 1) * multipartPartBytes) data.length := by
        rw [Nat.succ_mul]
        omega
      rw [hoffset, Option.getD_some, ← listing_succ]
      exact ih _ (by rw [Nat.succ_mul]; omega) hu rfl
    · rw [if_neg (by omega)]
      exact ⟨eTag, n, rfl, hw, Nat.le_of_not_lt hmore⟩

end Full

structure Uploaded (id : SegmentId) (m : SegmentMeta) (key : String) (file : Option Bytes)
    (w : World υ) : Prop where
  source : Sealed id m file w
  object : w.objects.get key = file
  present : file.isSome

theorem Uploaded.apart (h : Uploaded id m key file w) (hw : Apart w w') :
    Uploaded id m key file w' where
  source := h.source.apart hw
  object := by
    rw [World.objects, hw.objects]
    exact h.object
  present := h.present

theorem Uploaded.of_put (h : Sealed id m (some data) w)
    (hw' : w'.node = (w.putObject key data).node) : Uploaded id m key (some data) w' where
  source := h.of_node (.put hw')
  object := by
    rw [World.objects, hw']
    exact Table.get_put_self _ _ _
  present := rfl

section Full
variable (hfull : FullReads out)
include hfull

theorem complete_secures (hw : Uploading s3 id m data key uploadId eTag n w)
    (hall : data.length ≤ n * multipartPartBytes) (hn : 0 < n) :
    Delivers s3 out key id m (some data) (fun _ => Uploaded id m key (some data))
      (ask (.completeMultipartUpload key uploadId (listing eTag n))) w := by
  have hperform : ∀ t, Uploading s3 id m data key uploadId eTag n t →
      ∃ t', perform s3 t (.completeMultipartUpload key uploadId (listing eTag n)) =
        (t', .ok ()) ∧ t'.node = (t.putObject key data).node := by
    intro t ht
    have hne : listing eTag n ≠ [] := by
      simp [listing, hn.ne']
    have hheld : List.Forall₂ (fun p body => s3.part t.bucket key uploadId p.1 = some (p.2, body))
        (listing eTag n) (bodies data n) := by
      rw [listing, bodies, List.forall₂_map_left_iff, List.forall₂_map_right_iff,
        List.forall₂_same]
      exact fun i hi => ht.held i (List.mem_range.mp hi)
    obtain ⟨u, hok⟩ := s3.complete_ok t.bucket key uploadId _ _ ht.opened hne
      (listing_ascending eTag n) hheld (bodies_full ht.full)
    rw [bodies_flatten, List.take_of_length_le hall] at hok
    refine ⟨{ t.putObject key data with bucket := u }, ?_, rfl⟩
    rw [perform, hok]
    rfl
  refine secures_ask (Uploading s3 id m data key uploadId eTag n) hfull (fun _ => Op.noConfusion)
    (fun s t hst hs => hs.apart hst) .refl hw (fun t ht => ?_) fun hfaulty t e ht => ?_
  · obtain ⟨t', hok, hnode⟩ := hperform t ht
    rw [hok]
    exact ⟨.put hnode, .of_put ht.source hnode⟩
  · obtain ⟨t', hok, hnode⟩ := hperform t ht
    rw [hok]
    exact ⟨⟨ht.source, .inl hfaulty⟩, ht.source.of_node (.put hnode), .inl hfaulty⟩

theorem createMultipart_secures (hw : Sealed id m (some data) w) :
    Delivers s3 out key id m (some data) (fun mpu t => ∃ uploadId, mpu = some uploadId ∧
        Uploading s3 id m data key uploadId (fun _ => "") 0 t)
      (ask (.createMultipartUpload key)) w := by
  refine secures_ask (Sealed id m (some data)) hfull (fun _ => Op.noConfusion)
    (fun s t hst hs => hs.apart hst) .refl hw (fun t ht => ⟨.of_node rfl, ?_⟩)
    fun hfaulty t e ht => ⟨⟨ht, .inl hfaulty⟩, ht.same_node rfl, .inl hfaulty⟩
  obtain ⟨u, uploadId, hcreate, hopened⟩ := s3.create_ok t.bucket key
  rw [perform, hcreate]
  refine ⟨uploadId, rfl, ht.same_node rfl, hopened, ?_, ?_⟩
  · exact fun i hi => absurd hi (Nat.not_lt_zero i)
  · simp

theorem multipart_secures (hw : Sealed id m (some data) w)
    (hlong : ¬data.length ≤ multipartPartBytes) :
    Delivers s3 out key id m (some data) (fun _ => Uploaded id m key (some data))
      (do
        let mpu : Option Nat ← ask (.createMultipartUpload key)
        let uploadId ← Prog.okOr "no upload_id" mpu
        let completedParts ← uploadParts key (.entrySeg id) uploadId data.length [] 0 1
        ask (.completeMultipartUpload key uploadId completedParts)) w := by
  refine (createMultipart_secures hfull hw).bind ?_ fun e t h => h
  rintro _ t ⟨uploadId, rfl, ht⟩
  have hparts := uploadParts_secures hfull ht
  rw [Nat.zero_mul, Nat.zero_min] at hparts
  refine hparts.bind ?_ fun e t h => h
  rintro _ t ⟨eTag, n, rfl, ht, hall⟩
  have hn : 0 < n := by
    by_contra hzero
    rw [Nat.eq_zero_of_not_pos hzero] at hall
    omega
  exact complete_secures hfull ht hall hn

theorem put_secures (hw : Sealed id m (some data) w) (hsize : data.length ≤ multipartPartBytes) :
    Delivers s3 out key id m (some data) (fun _ => Uploaded id m key (some data))
      (ask (.putObject key data.length data)) w := by
  have hmax : multipartPartBytes ≤ maxPutBytes := by decide
  have hperform (t : World υ) : ∃ t', perform s3 t (.putObject key data.length data) =
      (t', .ok ()) ∧ t'.node = (t.putObject key data).node := by
    obtain ⟨u, hput⟩ := s3.put_ok t.bucket key data (hsize.trans hmax)
    refine ⟨{ t.putObject key data with bucket := u }, ?_, rfl⟩
    rw [perform, hput]
    rfl
  refine secures_ask (Sealed id m (some data)) hfull (fun _ => Op.noConfusion)
    (fun s t hst hs => hs.apart hst) .refl hw (fun t ht => ?_) fun hfaulty t e ht => ?_
  · obtain ⟨t', hok, hnode⟩ := hperform t
    rw [hok]
    exact ⟨.put hnode, .of_put ht hnode⟩
  · obtain ⟨t', hok, hnode⟩ := hperform t
    rw [hok]
    exact ⟨⟨ht, .inl hfaulty⟩, ht.of_node (.put hnode), .inl hfaulty⟩

theorem doUpload_secures (hw : Sealed id m file w) :
    Delivers s3 out key id m file (fun _ => Uploaded id m key file)
      (doUpload key (.entrySeg id)) w := by
  have hmeta : Delivers s3 out key id m file
      (fun fileSize t => ∃ data, file = some data ∧ fileSize = data.length ∧ Sealed id m file t)
      (ask (.metadata (.entrySeg id))) w := by
    refine secures_onFile (Sealed id m file) hfull (fun _ => Op.noConfusion) (fun t => rfl)
      (fun s t hst hs => hs.apart hst) .refl (fun t ht => ht.file) hw
      (fun t data hdata ht => ⟨data, hdata, rfl, ht⟩) ?_
    rintro t e (rfl | hfaulty) ht
    · exact ⟨ht, .inr fun data hdata => absurd hdata.symm (Option.some_ne_none data)⟩
    · exact ⟨ht, .inl hfaulty⟩
  refine hmeta.bind ?_ fun e t h => h
  rintro _ t ⟨data, rfl, rfl, ht⟩
  by_cases hsize : data.length ≤ multipartPartBytes
  · rw [if_pos hsize]
    have hbody : Delivers s3 out key id m (some data)
        (fun body t => body = data ∧ Sealed id m (some data) t)
        (ask (.fromPath (.entrySeg id))) t := by
      refine secures_onFile (Sealed id m (some data)) hfull (fun _ => Op.noConfusion)
        (fun t => rfl) (fun s t hst hs => hs.apart hst) .refl (fun t ht => ht.file) ht
        (fun t data' hdata ht => ?_) fun t e hfail ht => ?_
      · cases hdata
        exact ⟨rfl, ht⟩
      · exact ⟨ht, .inl (hfail.resolve_left (Option.some_ne_none _))⟩
    refine hbody.bind ?_ fun e t h => h
    rintro _ t ⟨rfl, ht⟩
    exact put_secures hfull ht hsize
  · rw [if_neg hsize]
    exact multipart_secures hfull ht hsize

theorem uploadAttempts_secures (left delay : Nat) (hw : Sealed id m file w) :
    Secures (I := Requests) (answers s3 out) Apart (Stores key file)
      (Ends (Ends (fun _ => Uploaded id m key file) (Failed out id m file)) fun _ => False)
      (uploadAttempts key (.entrySeg id) left delay) w := by
  have hattempt (w : World υ) (hw : Sealed id m file w) :
      Delivers s3 out key id m file (Ends (fun _ => Uploaded id m key file) (Failed out id m file))
        (Except.ok <$> doUpload key (.entrySeg id) : Client (Except FolioError Unit)) w :=
    (doUpload_secures hfull hw).bind (fun a t h => h) fun e t h => h
  induction left generalizing delay w with
  | zero => exact (hattempt w hw).handle (fun r t h => h) fun e t h => h
  | succ left ih =>
    refine (hattempt w hw).handle (fun r t h => h) fun e t h => ?_
    intro u htu d
    exact ⟨.refl u, ih _ (h.1.apart htu)⟩

theorem uploadWithRetry_secures (s3 : S3 υ) (key : String) (hw : Sealed id m file w) :
    Secures (I := Requests) (answers s3 out) Apart (Stores key file)
      (Ends (Ends (fun _ => Uploaded id m key file) (Failed out id m file)) fun _ => False)
      (uploadWithRetry key (.entrySeg id)) w :=
  uploadAttempts_secures hfull maxRetries 1 hw

end Full
end Spec

section Whole
variable {δ υ : Type} {crc32 : Bytes → UInt32} {s3 : S3 υ} {out : δ → Outcome} {w₀ : World υ}

abbrev stepUpload (crc32 : Bytes → UInt32) (s3 : S3 υ) (out : δ → Outcome) :
    World υ × Client (Except FolioError Unit) → Move δ OtherAct →
      Option (World υ × Client (Except FolioError Unit)) :=
  RelyGuarantee.step (I := Requests) (answers s3 out) (other crc32)

/-- What holds all along: nothing but the file is ever put under the key, and nothing under
another one. -/
structure Untorn (w₀ : World υ) (id : SegmentId) (m : SegmentMeta) (key : String)
    (file : Option Bytes) (w : World υ) : Prop where
  inv : TieredReader.Inv w.node
  source : Sealed id m file w
  others : ∀ k, k ≠ key → w.objects.get k = w₀.objects.get k
  own : w.objects.get key = w₀.objects.get key ∨ (w.objects.get key = file ∧ file.isSome)

theorem Untorn.other {w w' : World υ} {a : OtherAct} (h : Untorn w₀ id m key file w)
    (hw : other crc32 w a = some w') : Apart w w' ∧ Untorn w₀ id m key file w' := by
  obtain ⟨hapart, hinv⟩ := other_apart h.inv hw
  refine ⟨hapart, hinv, h.source.apart hapart, ?_, ?_⟩
  all_goals rw [World.objects, hapart.objects]
  · exact h.others
  · exact h.own

theorem Untorn.stores {w w' : World υ} (h : Untorn w₀ id m key file w)
    (hw : Stores key file w w') : Untorn w₀ id m key file w' where
  inv := by
    rw [hw.node]
    exact ⟨h.inv.own, h.inv.coherent⟩
  source := h.source.of_node hw
  others k hk := (hw.others k hk).trans (h.others k hk)
  own := by
    rcases hw.own with hsame | hfile
    · rw [hsame]
      exact h.own
    · exact .inr hfile

theorem upload_reach {s : World υ × Client (Except FolioError Unit)} (hfull : FullReads out)
    (hinv : TieredReader.Inv w₀.node) (hw : Sealed id m file w₀)
    (h : Reach (stepUpload crc32 s3 out) (· = (w₀, uploadWithRetry key (.entrySeg id))) s) :
    Untorn w₀ id m key file s.1 ∧
      Secures (I := Requests) (answers s3 out) Apart (Stores key file)
        (Ends (Ends (fun _ => Uploaded id m key file) (Failed out id m file))
          fun _ => False) s.2 s.1 := by
  have hprog := uploadWithRetry_secures hfull s3 key hw
  refine Secures.reach (J := Untorn w₀ id m key file) .refl .trans ?_
    (fun _ _ _ => Untorn.other) (fun _ _ => Untorn.stores) hprog
    ⟨hinv, hw, fun _ _ => rfl, .inl rfl⟩ h
  rintro (e | e | a) s t hst hpost
  · exact hpost
  · exact ⟨hpost.1.apart hst, hpost.2⟩
  · exact hpost.apart hst

theorem uploadWithRetry_delivered (s3 : S3 υ) (key : String) {data : Bytes}
    {w : World υ} (hw : Sealed id m (some data) w) (hsize : data.length ≤ maxUploadBytes) :
    ∃ w', Prog.run (I := Requests) (answer s3 .delivered)
        (uploadWithRetry key (.entrySeg id)) w = (w', .ok (.ok ())) ∧
      Uploaded id m key (some data) w' ∧ Stores key (some data) w w' := by
  have hfull : FullReads fun _ : Unit => Outcome.delivered := fun _ _ => Outcome.noConfusion
  have hprog := uploadWithRetry_secures hfull s3 key hw
  have hrun := hprog.run .refl ()
  have hguar := hprog.run_guar .refl .refl .trans ()
  change Ends _ _ (Prog.run (I := Requests) (answer s3 .delivered) _ w).2
    (Prog.run (I := Requests) (answer s3 .delivered) _ w).1 at hrun
  change Stores key (some data) w (Prog.run (I := Requests) (answer s3 .delivered) _ w).1 at hguar
  have hfree : ¬Hindered (fun _ : Unit => Outcome.delivered) (some data) := by
    rintro (⟨d, hne⟩ | hlong)
    · exact hne rfl
    · have := hlong data rfl
      omega
  cases hr : Prog.run (I := Requests) (answer s3 .delivered)
      (uploadWithRetry key (.entrySeg id)) w with
  | mk w' r =>
    rw [hr] at hrun hguar
    rcases r with e | e | a
    · exact hrun.elim
    · exact absurd hrun.2 hfree
    · exact ⟨w', rfl, hrun, hguar⟩

/-- Whatever fails and whoever else is at work, while no read is short: the bucket never shows a
part of the file, an upload that reports success has stored the file, and it succeeds when no
request fails and the file is not too long. -/
theorem upload_whole_or_nothing (s3 : S3 υ) {out : δ → Outcome} (hfull : FullReads out)
    {s : World υ × Client (Except FolioError Unit)} (hinv : TieredReader.Inv w₀.node)
    (hw : Sealed id m file w₀)
    (h : Reach (stepUpload crc32 s3 out) (· = (w₀, uploadWithRetry key (.entrySeg id))) s) :
    (∀ k, k ≠ key → s.1.objects.get k = w₀.objects.get k) ∧
    (s.1.objects.get key = w₀.objects.get key ∨
      ∃ data, file = some data ∧ s.1.objects.get key = some data) ∧
    (s.2 = .done (.ok (.ok ())) → ∃ data, file = some data ∧ s.1.objects.get key = some data) ∧
    ∀ data, file = some data → data.length ≤ maxUploadBytes →
      (Prog.run (I := Requests) (answer s3 .delivered) (uploadWithRetry key (.entrySeg id))
        s.1).2 = .ok (.ok ()) := by
  obtain ⟨hall, hprog⟩ := upload_reach hfull hinv hw h
  have hdata {o : Option Bytes} (hsome : file.isSome) (ho : o = file) :
      ∃ data, file = some data ∧ o = some data := by
    obtain ⟨data, hdata⟩ := Option.isSome_iff_exists.mp hsome
    exact ⟨data, hdata, ho.trans hdata⟩
  refine ⟨hall.others, hall.own.imp_right fun hown => hdata hown.2 hown.1, ?_, ?_⟩
  · intro hdone
    rw [hdone] at hprog
    exact hdata hprog.present hprog.object
  · intro data hfile hsize
    subst hfile
    obtain ⟨w', hrun, -⟩ := uploadWithRetry_delivered s3 key hall.source hsize
    rw [hrun]

end Whole

section OneFile

structure Multipart where
  key : String
  parts : Table Nat Bytes

structure Uploads where
  created : Table Nat Multipart
  next : Nat

variable (eTag : Bytes → String)

def listedPart (m : Multipart) (p : Nat × String) : Option Bytes :=
  (m.parts.get p.1).filter fun body => decide (eTag body = p.2)

def assemble (m : Multipart) : List (Nat × String) → Option Bytes
  | [] => none
  | [p] => listedPart eTag m p
  | p :: q :: rest =>
    if p.1 < q.1 then
      (listedPart eTag m p).bind fun body =>
        if minPartBytes ≤ body.length then (assemble m (q :: rest)).map (body ++ ·) else none
    else none

theorem assemble_eq {m : Multipart} {parts : List (Nat × String)} {bodies : List Bytes}
    (hheld : List.Forall₂ (fun p body => listedPart eTag m p = some body) parts bodies)
    (hne : parts ≠ []) (hasc : parts.Pairwise fun p q => p.1 < q.1)
    (hmin : ∀ body ∈ bodies.dropLast, minPartBytes ≤ body.length) :
    assemble eTag m parts = some bodies.flatten := by
  induction hheld with
  | nil => exact absurd rfl hne
  | cons hp hrest ih =>
    cases hrest with
    | nil => simp [assemble, hp]
    | cons hq hrest =>
      obtain ⟨hlt, hasc⟩ := List.pairwise_cons.mp hasc
      have hlater := ih (List.cons_ne_nil _ _) hasc fun body hbody =>
        hmin body (List.mem_cons_of_mem _ hbody)
      rw [assemble, if_pos (hlt _ List.mem_cons_self), hp, Option.bind_some,
        if_pos (hmin _ List.mem_cons_self), hlater]
      rfl

def Uploads.find (u : Uploads) (key : String) (uploadId : Nat) : Option Multipart :=
  (u.created.get uploadId).filter fun m => decide (m.key = key)

def Uploads.addPart (u : Uploads) (uploadId : Nat) (m : Multipart) (n : Nat) (body : Bytes) :
    Uploads :=
  { u with created := u.created.put uploadId { m with parts := m.parts.put n body } }

theorem Uploads.find_addPart {u : Uploads} {m : Multipart}
    (h : u.find key uploadId = some m) (body : Bytes) :
    (u.addPart uploadId m n body).find key uploadId =
      some { m with parts := m.parts.put n body } := by
  have hkey := of_decide_eq_true (Option.filter_eq_some_iff.mp h).2
  simp [find, addPart, Table.get_put_self, hkey]

def plainS3 : S3 Uploads where
  putObject u _ contentLength body :=
    if body.length = contentLength then (u, .ok body) else (u, .error "IncompleteBody")
  createMultipartUpload u key :=
    ({ created := u.created.put u.next ⟨key, .empty⟩, next := u.next + 1 }, .ok (some u.next))
  uploadPart u key uploadId n body :=
    match u.find key uploadId with
    | none => (u, .error "NoSuchUpload")
    | some m =>
      if 1 ≤ n ∧ n ≤ maxPartNumber then (u.addPart uploadId m n body, .ok (some (eTag body)))
      else (u, .error "InvalidArgument")
  completeMultipartUpload u key uploadId parts :=
    match (u.find key uploadId).bind (assemble eTag · parts) with
    | some body => ({ u with created := u.created.del uploadId }, .ok body)
    | none => (u, .error "InvalidPart")
  headObject _ _ object := if object.isSome then .ok () else .error "NotFound"
  Opened u key uploadId := (u.find key uploadId).isSome
  part u key uploadId n :=
    (u.find key uploadId).bind fun m => (m.parts.get n).map fun body => (eTag body, body)
  put_ok u key body _ := ⟨u, if_pos rfl⟩
  create_ok u key := by
    refine ⟨_, _, rfl, ?_⟩
    simp [Uploads.find, Table.get_put_self]
  part_ok u key uploadId n body hopen hpos hmax _ := by
    obtain ⟨m, hm⟩ := Option.isSome_iff_exists.mp hopen
    have hfind := Uploads.find_addPart hm body (n := n)
    refine ⟨u.addPart uploadId m n body, eTag body, ?_, ?_, ?_, fun k hk => ?_⟩
    · simp [hm, hmax, Nat.one_le_iff_ne_zero.mp hpos]
    · rw [hfind]
      rfl
    · simp [hfind, Table.get_put_self]
    · simp [hfind, hm, Table.get_put_ne _ _ hk]
  part_refused u key uploadId n body hn := by
    cases u.find key uploadId with
    | none => exact ⟨u, _, rfl⟩
    | some m => exact ⟨u, _, if_neg fun h => Nat.not_lt.mpr h.2 hn⟩
  complete_ok u key uploadId parts bodies hopen hne hasc hheld hmin := by
    obtain ⟨m, hm⟩ := Option.isSome_iff_exists.mp hopen
    have hlisted : List.Forall₂ (fun p body => listedPart eTag m p = some body) parts bodies := by
      refine hheld.imp fun p body hp => ?_
      simp only [hm, Option.bind_some, Option.map_eq_some_iff, Prod.mk.injEq] at hp
      obtain ⟨body', hget, htag, rfl⟩ := hp
      simp [listedPart, hget, htag]
    refine ⟨{ u with created := u.created.del uploadId }, ?_⟩
    rw [hm, Option.bind_some, assemble_eq eTag hlisted hne hasc hmin]
  head_ok _ _ _ := rfl

def oneFile (data : Bytes) : World Uploads where
  node := {
    cache := .empty
    entryIndex := .empty
    entryRegistry := Table.empty.put 0 (EntrySegment.entryMeta 0 .Local data.length)
    walIndex := .empty
    walRegistry := .empty
    files := Table.empty.put (.entrySeg 0) data
    s3 := true
    objects := .empty }
  bucket := ⟨.empty, 0⟩
  modified := .empty
  now := 0

theorem oneFile_inv (data : Bytes) : TieredReader.Inv (oneFile data).node :=
  TieredReader.inv_init ⟨rfl, rfl⟩

theorem oneFile_sealed (data : Bytes) :
    Sealed 0 (EntrySegment.entryMeta 0 .Local data.length) (some data) (oneFile data) :=
  ⟨rfl, SegmentStatus.noConfusion, Table.get_put_self _ _ _⟩

def timely (b : Bool) : Outcome := if b then .delivered else .lostReply "timeout"

theorem timely_full : FullReads timely := by
  intro b n
  cases b <;> exact Outcome.noConfusion

/-- The reply to the first PUT is lost, and the second attempt stores the file again. -/
theorem retried_upload_stored :
    ∃ s, Reach (stepUpload Crc32.crc32 (plainS3 fun _ => "") timely) (· = (oneFile [1, 2, 3],
        uploadWithRetry (Offloader.s3Key 0) (.entrySeg 0))) s ∧
      s.2 = .done (.ok (.ok ())) ∧
      s.1.objects.get (Offloader.s3Key 0) = some [1, 2, 3] := by
  have hrun : TransitionSystem.run (stepUpload Crc32.crc32 (plainS3 fun _ => "") timely)
      (oneFile [1, 2, 3], uploadWithRetry (Offloader.s3Key 0) (.entrySeg 0))
      [.request true, .request true, .request false, .request true, .request true,
        .request true, .request true] =
      some (((oneFile [1, 2, 3]).putObject (Offloader.s3Key 0) [1, 2, 3]).putObject
        (Offloader.s3Key 0) [1, 2, 3], .done (.ok (.ok ()))) := rfl
  refine ⟨_, reach_of_run _ (.start rfl) hrun, rfl, ?_⟩
  obtain ⟨-, -, hstored, -⟩ := upload_whole_or_nothing _ timely_full (oneFile_inv _)
    (oneFile_sealed _) (reach_of_run _ (.start rfl) hrun)
  obtain ⟨data, hdata, hobj⟩ := hstored rfl
  cases hdata
  exact hobj

end OneFile
end Folio.S3Upload
