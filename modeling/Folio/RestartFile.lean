import Folio.Journal
import Folio.ReplayEffect
import Folio.ScanCompleteness
import Folio.TornTails

/-! `active.seg` across one restart: recovery cuts it at the end of a record, the journal
resumes at a block boundary, and the two happen in either order. -/
namespace Folio.RestartFile
open ByteCodec KeyedTable Protocol Fjall Segment RecoveryScan BatchSeams CrashRecovery Journal
open ScanLocality ReplayEffect ScanCompleteness TornTails
variable (crc32 : Bytes → UInt32) {segId : SegmentId} {data : Bytes}

/-- Whether the journal thread reads the file length before or after recovery cuts it. -/
inductive BootOrder where
  | resumeFirst | truncateFirst
  deriving DecidableEq

variable {order : BootOrder}

/-- One boot on `active.seg`: the replay, and the offset the journal resumes at. -/
def bootActive (order : BootOrder) (fuel : Nat) (segId : SegmentId) (st : Store) :
    Option (Store × Nat) :=
  (replayWalSegment crc32 fuel segId .activeSeg st).map fun st' =>
    (st', match order with
      | .resumeFirst => resumeOffset st.files
      | .truncateFirst => resumeOffset st'.files)

/-- After a boot and the batches `ns`, the records of `bs` are where they were, and a scan
of the whole file ends and visits them and those of `ns`. -/
def SurvivesRestart (st : Store) (segId : SegmentId) (order : BootOrder) (bs ns : List Batch) :
    Prop :=
  ∃ fuel st' off, bootActive crc32 order fuel segId st = some (st', off) ∧
    ∃ data, (ns.foldl (appendBatch crc32) (st'.files, off)).1.get .activeSeg = some data ∧
      (∀ v ∈ ackedAll crc32 0 bs, window data v.pos v.len = v.record.encode crc32) ∧
      ∃ fuel' e, scan crc32 data fuel' 0 0 = some e ∧
        ∀ v ∈ ackedAll crc32 0 bs ++ ackedAll crc32 off ns, v ∈ e.state

section OneBoot

def leftFile (data : Bytes) (e : ScanEnd (List Visit)) : Bytes :=
  if e.torn then setLen data e.lastValid else data

def resumeAt (order : BootOrder) (data : Bytes) (e : ScanEnd (List Visit)) : Nat :=
  match order with
  | .resumeFirst => data.length / align * align
  | .truncateFirst => (leftFile data e).length / align * align

theorem replayWalSegment_file {st : Store} {path : SegPath} (hfile : st.files.get path = some data)
    (hcp : st.walIndex.getCheckpoint segId = 0) (fuel : Nat) :
    (replayWalSegment crc32 fuel segId path st).map (fun st' => st'.files.get path) =
      (scan crc32 data fuel 0 0).map fun e => some (leftFile data e) := by
  simp only [replayWalSegment, hfile, hcp, replayWalLoop, scanLoop_eq_foldl, Option.map_map]
  congr 1
  funext e
  have hget := hfile
  rw [← (foldl_replayVisit_frame segId e.state st).files] at hget
  simp only [Function.comp_apply, leftFile]
  split_ifs with htorn
  · simp [purgeWalLocationsAfterTornSegment, truncateFile, hget, Table.get_put_self]
  · exact hget

variable {st : Store} {fuel : Nat}

theorem bootActive_ends (order : BootOrder) {e : ScanEnd (List Visit)}
    (hfile : st.files.get .activeSeg = some data)
    (hcp : st.walIndex.getCheckpoint segId = 0) (he : scan crc32 data fuel 0 0 = some e) :
    ∃ st', bootActive crc32 order fuel segId st = some (st', resumeAt order data e) ∧
      st'.files.get .activeSeg = some (leftFile data e) := by
  have hmap := replayWalSegment_file crc32 hfile hcp fuel
  rw [he, Option.map_some, Option.map_eq_some_iff] at hmap
  obtain ⟨st', hst', hleft⟩ := hmap
  refine ⟨st', ?_, hleft⟩
  rw [bootActive, hst', Option.map_some]
  cases order <;> simp [resumeAt, resumeOffset, hfile, hleft]

theorem bootActive_spec {st' : Store} {off : Nat} (hfile : st.files.get .activeSeg = some data)
    (hcp : st.walIndex.getCheckpoint segId = 0)
    (h : bootActive crc32 order fuel segId st = some (st', off)) :
    ∃ e, scan crc32 data fuel 0 0 = some e ∧ off = resumeAt order data e ∧
      st'.files.get .activeSeg = some (leftFile data e) := by
  have hmap := replayWalSegment_file crc32 hfile hcp fuel
  cases hs : scan crc32 data fuel 0 0 with
  | none =>
    rw [hs, Option.map_none, Option.map_eq_none_iff] at hmap
    simp [bootActive, hmap] at h
  | some e =>
    obtain ⟨st'', hboot, hleft⟩ := bootActive_ends crc32 order hfile hcp hs
    rw [hboot, Option.some.injEq, Prod.mk.injEq] at h
    obtain ⟨rfl, rfl⟩ := h
    exact ⟨e, rfl, rfl, hleft⟩

theorem resumeAt_mod (order : BootOrder) (data : Bytes) (e : ScanEnd (List Visit)) :
    resumeAt order data e % align = 0 := by
  cases order <;> simp [resumeAt]

variable {e : ScanEnd (List Visit)}

theorem leftFile_eq_take (he : scan crc32 data fuel 0 0 = some e) :
    leftFile data e = data.take (if e.torn then e.lastValid else data.length) := by
  unfold leftFile
  split_ifs with htorn
  · have hle : e.lastValid ≤ data.length := by
      rcases scan_lastValid_cases crc32 he with h | h <;> omega
    exact setLen_of_le hle
  · simp

theorem scan_leftFile (he : scan crc32 data fuel 0 0 = some e) :
    scan crc32 (leftFile data e) fuel 0 0 = some ⟨e.state, e.lastValid, false⟩ := by
  rw [leftFile_eq_take crc32 he]
  obtain ⟨visits, valid, torn⟩ := e
  cases torn with
  | true => simpa using scan_take crc32 (Nat.le_refl 0) he
  | false => simpa using he

theorem leftFile_short (order : BootOrder) (he : scan crc32 data fuel 0 0 = some e) :
    (leftFile data e).length ≤ resumeAt order data e + align := by
  have hle : (leftFile data e).length ≤ data.length := by
    rw [leftFile_eq_take crc32 he, List.length_take]
    omega
  cases order <;> simp only [resumeAt] <;> unfold align <;> omega

end OneBoot

section Condition

/-- The first `off` bytes, zero-filled if the file is shorter, are records and padding
that lead to `off`, and no padding is short enough to be read together with what follows. -/
def CleanUpTo (data : Bytes) (off : Nat) : Prop :=
  ∃ fuel e, scan crc32 (setLen data off) fuel 0 0 = some e ∧ e.torn = false ∧
    (off ≤ e.lastValid ∨ e.lastValid + 4 ≤ off)

/-- The file left by the crash can be recovered, the journal resumes past the records of
`bs`, and what is in front of the resume offset is clean. -/
def RestartSafe (order : BootOrder) (bs : List Batch) (data : Bytes) : Prop :=
  ∃ fuel e, scan crc32 data fuel 0 0 = some e ∧ endOf 0 bs ≤ resumeAt order data e ∧
    CleanUpTo crc32 (leftFile data e) (resumeAt order data e)

end Condition

section Sufficient
variable {fuel : Nat} {e : ScanEnd (List Visit)} {bs ns : List Batch}

theorem front_agrees {off : Nat} (hl : Laid crc32 data 0 bs) (hc : bs.IsChain Seamless)
    (hlen : endOf 0 bs ≤ data.length) (he : scan crc32 data fuel 0 0 = some e)
    (hoff : endOf 0 bs ≤ off) :
    data.take (endOf 0 bs) = (setLen (leftFile data e) off).take (endOf 0 bs) := by
  have hkeep : endOf 0 bs ≤ (if e.torn then e.lastValid else data.length) := by
    split_ifs
    · cases bs with
      | nil => exact Nat.zero_le _
      | cons b bs =>
        exact scan_lastValid_of_chain crc32 data _ 0 fuel 0 e (by simp) (by decide) hl hc he
    · exact hlen
  rw [leftFile_eq_take crc32 he, setLen, List.take_append_of_le_length (by
    simp only [List.length_take]; omega), List.take_take, List.take_take]
  congr 1
  omega

theorem survives_of_safe {st : Store} (hfile : st.files.get .activeSeg = some data)
    (hcp : st.walIndex.getCheckpoint segId = 0) (hl : Laid crc32 data 0 bs)
    (hlen : endOf 0 bs ≤ data.length) (hc : bs.IsChain Seamless) (hn : ns.IsChain Seamless)
    (hsafe : RestartSafe crc32 order bs data) : SurvivesRestart crc32 st segId order bs ns := by
  obtain ⟨fuel, e, he, hoff, fuel0, e0, he0, htorn, hrest⟩ := hsafe
  obtain ⟨st', hboot, hleft⟩ := bootActive_ends crc32 order hfile hcp he
  refine ⟨fuel, st', _, hboot, ?_⟩
  -- one scan of the final file yields both halves of the conclusion
  suffices hscan : ∃ final, (ns.foldl (appendBatch crc32)
      (st'.files, resumeAt order data e)).1.get .activeSeg = some final ∧
      ∃ fuel' e', scan crc32 final fuel' 0 0 = some e' ∧
        ∀ v ∈ ackedAll crc32 0 bs ++ ackedAll crc32 (resumeAt order data e) ns, v ∈ e'.state by
    obtain ⟨final, hfinal, fuel', e', he', hall⟩ := hscan
    exact ⟨final, hfinal,
      fun v hv => intact_of_visit crc32 he' (hall v (List.mem_append_left _ hv)),
      fuel', e', he', hall⟩
  by_cases hnil : ns = []
  · subst hnil
    have hscan := scan_leftFile crc32 he
    refine ⟨leftFile data e, hleft, fuel, _, hscan, fun v hv => ?_⟩
    have hpre := (scan_visits_iff crc32 data bs 0 fuel 0 e (by decide) hl he).mpr hc
    exact hpre.subset (by simpa [ackedAll] using hv)
  · have hfinal := foldl_appendBatch crc32 st'.files _ _ ns hleft
      (leftFile_short crc32 order he) hnil
    have hmod := resumeAt_mod order data e
    have hagree := front_agrees crc32 hl hc hlen he hoff
    have hpre := (scan_visits_iff crc32 _ bs 0 fuel0 0 e0 (by decide)
      (laid_congr crc32 hagree bs 0 (Nat.le_refl _) hl) he0).mpr hc
    generalize resumeAt order data e = off at *
    have hlen0 := setLen_length (leftFile data e) off
    have hfront : (setLen (leftFile data e) off ++ fileBytes crc32 ns).take off =
        setLen (leftFile data e) off := List.take_left' hlen0
    obtain ⟨k, hk⟩ := scan_extend crc32 hmod hlen0 hfront (Nat.zero_le _) (.inl rfl) he0 htorn
      hrest
    obtain ⟨fuel', htail⟩ := scan_clean_tail crc32 (setLen (leftFile data e) off)
      (by rw [hlen0]; exact hmod) ns hnil hn e0.lastValid
    rw [hlen0] at htail
    refine ⟨_, hfinal, fuel' + k, _, by rw [hk, htail, Option.map_some], fun v hv => ?_⟩
    rcases List.mem_append.mp hv with hv | hv
    · exact List.mem_append_left _ (hpre.subset hv)
    · exact List.mem_append_right _ hv

end Sufficient

section Necessary

theorem one_lt_payload : 1 < 256 ^ 4 - recordOverhead := by decide

def probe (entryId : Nat) (he : entryId < 256 ^ 8) : Batch :=
  zeroBatch entryId 1 he Nat.one_pos one_lt_payload

variable {st : Store} {bs : List Batch}

theorem survives_scan {ns : List Batch} {fuel : Nat} {e : ScanEnd (List Visit)}
    (hfile : st.files.get .activeSeg = some data) (hcp : st.walIndex.getCheckpoint segId = 0)
    (he : scan crc32 data fuel 0 0 = some e) (hne : ns ≠ [])
    (h : SurvivesRestart crc32 st segId order bs ns) :
    ∃ fuel' e', scan crc32 (setLen (leftFile data e) (resumeAt order data e) ++
        fileBytes crc32 ns) fuel' 0 0 = some e' ∧
      ∀ v ∈ ackedAll crc32 0 bs ++ ackedAll crc32 (resumeAt order data e) ns, v ∈ e'.state := by
  obtain ⟨fuel1, st', off, hboot, final, hfinal, -, fuel', e', he', hall⟩ := h
  obtain ⟨e1, he1, rfl, hleft⟩ := bootActive_spec crc32 hfile hcp hboot
  obtain rfl := scan_deterministic crc32 he1 he
  rw [foldl_appendBatch crc32 st'.files _ _ ns hleft (leftFile_short crc32 order he) hne] at hfinal
  obtain rfl := Option.some.inj hfinal
  exact ⟨fuel', e', he', hall⟩

theorem chain_of_survives (hfile : st.files.get .activeSeg = some data)
    (hcp : st.walIndex.getCheckpoint segId = 0) (hl : Laid crc32 data 0 bs)
    (h : SurvivesRestart crc32 st segId order bs []) :
    bs.IsChain Seamless ∧ ∃ fuel e, scan crc32 data fuel 0 0 = some e := by
  obtain ⟨fuel, st', off, hboot, final, hfinal, -, fuel', e', he', hall⟩ := h
  obtain ⟨e, he, -, hleft⟩ := bootActive_spec crc32 hfile hcp hboot
  have hscan := scan_leftFile crc32 he
  obtain rfl : leftFile data e = final := Option.some.inj (hleft.symm.trans hfinal)
  obtain rfl := scan_deterministic crc32 hscan he'
  refine ⟨chain_of_visits crc32 data bs 0 fuel 0 e (by decide) hl he fun v hv => ?_, fuel, e, he⟩
  exact hall v (List.mem_append_left _ hv)

theorem probe_visit (entryId : Nat) (hid : entryId < 256 ^ 8) (off : Nat) :
    ackedAll crc32 off [probe entryId hid] =
      [⟨off, (probe entryId hid).first, 25⟩] := by
  simp [ackedAll, Batch.acked_eq, probe, zeroBatch, layout, Batch.first, Rec.len, recordOverhead,
    recordHeader, recordFooter]

theorem probe_word (entryId : Nat) (hid : entryId < 256 ^ 8) (pre : Bytes) (p : Nat)
    (hp : p < pre.length) (hp4 : pre.length < p + 4) :
    leNat (window (pre ++ fileBytes crc32 [probe entryId hid]) p 4) ≠ 0 := by
  have hl := laid_fileBytes crc32 pre [] [probe entryId hid]
  rw [List.append_nil] at hl
  have hhead := head_word crc32 _ _ _ hl.1
  generalize pre ++ fileBytes crc32 [probe entryId hid] = data at *
  have hone : leNat (window data pre.length (p + 4 - pre.length)) = 1 := by
    have hsub := window_window data pre.length 4 0 (p + 4 - pre.length) (by omega)
    have htake := leBytes_take 4 (p + 4 - pre.length) 1 (by omega)
    have hlen : (probe entryId hid).first.payload.length = 1 := by
      simp [probe, zeroBatch, Batch.first]
    rw [hhead, hlen, Nat.add_zero pre.length] at hsub
    rw [← hsub, show window (leBytes 4 1) 0 (p + 4 - pre.length) =
      (leBytes 4 1).take (p + 4 - pre.length) from rfl, htake, leNat_leBytes]
    exact Nat.mod_eq_of_lt (Nat.one_lt_pow (by omega) (by decide))
  have hsplit := window_split data p (pre.length - p) (p + 4 - pre.length)
  rw [show pre.length - p + (p + 4 - pre.length) = 4 by omega,
    show p + (pre.length - p) = pre.length by omega] at hsplit
  rw [hsplit, leNat_append, hone]
  have := Nat.pow_pos (n := (window data p (pre.length - p)).length) (show 0 < 256 by decide)
  omega

theorem safe_of_survives (hfile : st.files.get .activeSeg = some data)
    (hcp : st.walIndex.getCheckpoint segId = 0) (hl : Laid crc32 data 0 bs)
    (h : ∀ ns : List Batch, ns.IsChain Seamless → SurvivesRestart crc32 st segId order bs ns) :
    RestartSafe crc32 order bs data := by
  obtain ⟨-, fuel, e, he⟩ := chain_of_survives crc32 hfile hcp hl (h [] List.isChain_nil)
  have hprobe (i : Nat) (hi : i < 256 ^ 8) := survives_scan crc32 hfile hcp he
    (List.cons_ne_nil (probe i hi) []) (h _ (List.isChain_singleton _))
  have hmod := resumeAt_mod order data e
  refine ⟨fuel, e, he, ?_, ?_⟩
  · -- otherwise the probe would be the record of `bs` it overwrites, whatever its entry id
    by_contra hlt
    obtain ⟨u, hu, hcover⟩ := ackedAll_cover crc32 _ hmod bs 0 (by decide) (Nat.zero_le _)
      (Nat.lt_of_not_le hlt)
    have hsame (i : Nat) (hi : i < 256 ^ 8) :
        u = ⟨resumeAt order data e, (probe i hi).first, 25⟩ := by
      obtain ⟨fuel', e', he', hall⟩ := hprobe i hi
      rw [probe_visit] at hall
      exact visit_unique crc32 he' (hall u (List.mem_append_left _ hu))
        (hall _ (List.mem_append_right _ (List.mem_singleton.mpr rfl))) hcover
        ⟨Nat.le_refl _, by dsimp only; omega⟩
    have hne := congrArg (fun v => v.record.entryId)
      ((hsame 0 (by decide)).symm.trans (hsame 1 (by decide)))
    simp [probe, zeroBatch, Batch.first] at hne
  · obtain ⟨fuel', e', he', hall⟩ := hprobe 0 (by decide)
    have hlen0 := setLen_length (leftFile data e) (resumeAt order data e)
    have hword := probe_word crc32 0 (by decide) (setLen (leftFile data e) (resumeAt order data e))
    rw [hlen0] at hword
    rw [probe_visit] at hall
    exact scan_cut crc32 hlen0 (List.take_left' hlen0) hword (Nat.zero_le _)
      (Nat.le_refl _) (fun h => .inl (by omega)) he'
      ⟨_, hall _ (List.mem_append_right _ (List.mem_singleton.mpr rfl)), rfl⟩

end Necessary

/-- A crashed `active.seg` survives a restart, whatever seamless batches follow, exactly
when its own seams are seamless and the restart is safe. -/
theorem restart_keeps_records_iff (st : Store) (segId : SegmentId) (order : BootOrder)
    (bs : List Batch) (t : Bytes)
    (hfile : st.files.get .activeSeg = some (fileBytes crc32 bs ++ t))
    (hcp : st.walIndex.getCheckpoint segId = 0) :
    (∀ ns : List Batch, ns.IsChain Seamless → SurvivesRestart crc32 st segId order bs ns) ↔
      bs.IsChain Seamless ∧ RestartSafe crc32 order bs (fileBytes crc32 bs ++ t) := by
  have hl : Laid crc32 (fileBytes crc32 bs ++ t) 0 bs := by
    simpa using laid_fileBytes crc32 [] t bs
  have hlen : endOf 0 bs ≤ (fileBytes crc32 bs ++ t).length := by
    by_cases hne : bs = []
    · simp [hne, endOf]
    · have hup := alignUp_endOf crc32 0 (by decide) bs hne
      have hle := le_alignUp (endOf 0 bs)
      rw [List.length_append]
      omega
  constructor
  · intro h
    exact ⟨(chain_of_survives crc32 hfile hcp hl (h [] List.isChain_nil)).1,
      safe_of_survives crc32 hfile hcp hl h⟩
  · rintro ⟨hc, hsafe⟩ ns hn
    exact survives_of_safe crc32 hfile hcp hl hlen hc hn hsafe

section Crashes

/-- Behind the cut the resumed journal finds the zeros that padded the last batch. -/
theorem setLen_cut (bs : List Batch) (t : Bytes) (hne : bs ≠ []) :
    setLen ((fileBytes crc32 bs ++ t).take (endOf 0 bs)) (fileBytes crc32 bs).length =
      fileBytes crc32 bs := by
  have hle : endOf 0 bs ≤ (fileBytes crc32 bs).length := by
    have hup := alignUp_endOf crc32 0 (by decide) bs hne
    have hend := le_alignUp (endOf 0 bs)
    omega
  have hzero : (fileBytes crc32 bs).drop (endOf 0 bs) =
      List.replicate ((fileBytes crc32 bs).length - endOf 0 bs) 0 := by
    simpa [window, List.take_of_length_le] using window_padding crc32 [] [] bs hne
  have hcut : (fileBytes crc32 bs ++ t).take (endOf 0 bs) =
      (fileBytes crc32 bs).take (endOf 0 bs) := List.take_append_of_le_length hle
  rw [hcut, setLen, List.take_take, List.length_take, Nat.min_eq_left hle, Nat.min_eq_right hle,
    ← hzero, List.take_append_drop]

theorem torn_file_safe (bs : List Batch) (t : Bytes) (hne : bs ≠ []) (hc : bs.IsChain Seamless)
    (hpad : endOf 0 bs + 4 ≤ (fileBytes crc32 bs).length) (h4 : 4 ≤ t.length)
    (hword : leNat (t.take 4) ≠ 0) (hlong : t.length < leNat (t.take 4) + recordOverhead)
    (hshort : t.length < align) :
    RestartSafe crc32 .resumeFirst bs (fileBytes crc32 bs ++ t) := by
  obtain ⟨fuel, he⟩ := scan_torn_tail crc32 bs t hne hc hpad h4 hword hlong
  obtain ⟨fuel', he'⟩ := scan_clean_file crc32 bs hne hc
  have hmod := fileBytes_aligned crc32 bs
  have hoff : resumeAt .resumeFirst (fileBytes crc32 bs ++ t)
      ⟨ackedAll crc32 0 bs, endOf 0 bs, true⟩ = (fileBytes crc32 bs).length := by
    simp only [resumeAt, List.length_append]
    unfold align at *
    omega
  refine ⟨fuel, _, he, by rw [hoff]; omega, ?_⟩
  rw [hoff]
  refine ⟨fuel', ⟨ackedAll crc32 0 bs, endOf 0 bs, false⟩, ?_, rfl, .inr hpad⟩
  rw [leftFile_eq_take crc32 he]
  simpa [setLen_cut crc32 bs t hne] using he'

def crashedWith (data : Bytes) : Store :=
  { emptyStore with files := emptyStore.files.put .activeSeg data }

theorem crashedWith_file (data : Bytes) : (crashedWith data).files.get .activeSeg = some data :=
  Table.get_put_self _ _ _

theorem plainBatch_size : plainBatch.size = 25 := zeroBatch_size _ _ _ _ _

theorem plainBatch_length : (fileBytes crc32 [plainBatch]).length = 4096 := by
  simp [fileBytes, Batch.bytes_length, plainBatch_size, alignUp, align]

/-- The journal resumes before the replay cuts the torn tail off, so the next batch lands behind
the padding. -/
theorem torn_file_survives_restart :
    SurvivesRestart Crc32.crc32 (crashedWith (fileBytes Crc32.crc32 [plainBatch] ++ [1, 0, 0, 0]))
      0 .resumeFirst [plainBatch] [nextBatch] := by
  have hpad : endOf 0 [plainBatch] + 4 ≤ (fileBytes Crc32.crc32 [plainBatch]).length := by
    rw [plainBatch_length]
    simp [endOf, plainBatch_size]
  have hsafe := torn_file_safe Crc32.crc32 [plainBatch] [1, 0, 0, 0] (by simp)
    (List.isChain_singleton _) hpad (by decide) (by decide) (by decide) (by decide)
  exact (restart_keeps_records_iff Crc32.crc32 _ 0 .resumeFirst [plainBatch] [1, 0, 0, 0]
    (crashedWith_file _) rfl).mpr ⟨List.isChain_singleton _, hsafe⟩ [nextBatch]
    (List.isChain_singleton _)

/- In the first crash the journal resumes at offset 0, over the acknowledged record; in the
second it resumes behind a block of zeros that the next scan never leaves. -/
theorem torn_tail_destroys_acknowledged :
    ¬ SurvivesRestart Crc32.crc32
        (crashedWith (fileBytes Crc32.crc32 [plainBatch] ++ [1, 0, 0, 0])) 0
        .truncateFirst [plainBatch] [nextBatch] ∧
      ¬ SurvivesRestart Crc32.crc32
        (crashedWith (fileBytes Crc32.crc32 [plainBatch] ++ List.replicate align 255)) 0
        .resumeFirst [plainBatch] [nextBatch] := by
  have hend : endOf 0 [plainBatch] = 25 := by simp [endOf, plainBatch_size]
  have hlen := plainBatch_length Crc32.crc32
  have htorn (t : Bytes) := scan_torn_tail Crc32.crc32 [plainBatch] t (by simp)
    (List.isChain_singleton _) (by omega)
  constructor
  · intro h
    obtain ⟨fuel, he⟩ := htorn [1, 0, 0, 0] (by decide) (by decide) (by decide)
    obtain ⟨fuel', e', he', hall⟩ := survives_scan Crc32.crc32 (crashedWith_file _) rfl he
      (by simp) h
    have hoff : resumeAt .truncateFirst (fileBytes Crc32.crc32 [plainBatch] ++ [1, 0, 0, 0])
        ⟨ackedAll Crc32.crc32 0 [plainBatch], endOf 0 [plainBatch], true⟩ = 0 := by
      simp [resumeAt, leftFile, setLen_length, hend, align]
    have hfirst : ackedAll Crc32.crc32 0 [plainBatch] = [⟨0, plainBatch.first, 25⟩] :=
      probe_visit Crc32.crc32 0 (by decide) 0
    have hnext : ackedAll Crc32.crc32 0 [nextBatch] = [⟨0, nextBatch.first, 25⟩] :=
      probe_visit Crc32.crc32 1 (by decide) 0
    rw [hoff, hfirst, hnext] at hall
    have hsame := visit_unique (x := 0) Crc32.crc32 he' (hall ⟨0, plainBatch.first, 25⟩ (by simp))
      (hall ⟨0, nextBatch.first, 25⟩ (by simp)) (by decide) (by decide)
    have hid := congrArg (fun v => v.record.entryId) hsame
    simp [plainBatch, nextBatch, zeroBatch, Batch.first] at hid
  · intro h
    have hword : (List.replicate align (255 : UInt8)).take 4 = List.replicate 4 255 := by
      rw [List.take_replicate]; rfl
    obtain ⟨fuel, he⟩ := htorn (List.replicate align 255)
      (by rw [List.length_replicate]; decide) (by rw [hword]; decide)
      (by rw [List.length_replicate, hword]; decide)
    obtain ⟨fuel', e', he', -⟩ := survives_scan Crc32.crc32 (crashedWith_file _) rfl he
      (by simp) h
    have hl : Laid Crc32.crc32 (fileBytes Crc32.crc32 [plainBatch] ++ List.replicate align 255) 0
        [plainBatch] := by
      simpa using laid_fileBytes Crc32.crc32 [] (List.replicate align 255) [plainBatch]
    have hsize :
        (fileBytes Crc32.crc32 [plainBatch] ++ List.replicate align 255).length = 8192 := by
      rw [List.length_append, List.length_replicate, hlen]; rfl
    rw [leftFile_eq_take Crc32.crc32 he] at he'
    simp only [resumeAt, if_true, hend, hsize] at he'
    generalize fileBytes Crc32.crc32 [plainBatch] ++ List.replicate align 255 = data at *
    have hcut : (data.take 25).length = 25 := by rw [List.length_take, hsize]; rfl
    rw [setLen, hcut, List.take_of_length_le (by rw [hcut]; decide), List.append_assoc,
      scan_hole Crc32.crc32 [plainBatch] (data.take 25) _ _ _ (by simp) (List.isChain_singleton _)
        (laid_congr Crc32.crc32 (k := 25) (by rw [List.take_take, Nat.min_self]) _ 0 (by omega) hl)
        (by omega) (by rw [hend]; decide)] at he'
    simp at he'

end Crashes

end Folio.RestartFile
