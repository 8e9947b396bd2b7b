import Folio.JournalLoop

/-! What the answers of a journal session say: the invariant over files, offsets and answers, one
lemma for each kind of step, and the bound on the work left. -/
namespace Folio.JournalAcks
open ByteCodec KeyedTable Protocol Fjall Segment RecordCodec CrashRecovery Journal JournalLoop
open TransitionSystem
variable {crc32 : Bytes → UInt32} {threshold : Nat} {s t : State} {f : Filling} {data : Bytes}
  {asked : Bool}

section Buffer

variable (crc32) in
def Filled (f : Filling) : Prop :=
  f.buf = (pushAll crc32 (f.batch.map WriteReq.toPush)).1 ∧
    f.offsets = (pushAll crc32 (f.batch.map WriteReq.toPush)).2.map Prod.snd

theorem filled_new : Filled crc32 Filling.new := ⟨rfl, rfl⟩

theorem Filled.push (h : Filled crc32 f) (r : WriteReq) : Filled crc32 (f.push crc32 r) := by
  have hpush : pushAll crc32 ((f.push crc32 r).batch.map WriteReq.toPush) =
      pushOne crc32 (pushAll crc32 (f.batch.map WriteReq.toPush)) r.toPush := by
    simp [Filling.push, pushAll]
  unfold Filled
  rw [hpush]
  simp [pushOne, Filling.push, h.1, h.2]

theorem pushAll_places (pushes : List Push) :
    ((pushAll crc32 pushes).2.Pairwise fun p q => p.2.1 + (24 + p.1.payload.length) ≤ q.2.1) ∧
      ∀ p ∈ (pushAll crc32 pushes).2,
        p.2.1 + (24 + p.1.payload.length) ≤ (pushAll crc32 pushes).1.length := by
  induction pushes using List.reverseRecOn with
  | nil => simp [pushAll]
  | append_singleton pushes a ih =>
    have hstep : pushAll crc32 (pushes ++ [a]) = pushOne crc32 (pushAll crc32 pushes) a := by
      simp [pushAll]
    rw [hstep, pushOne]
    refine ⟨List.pairwise_append.mpr ⟨ih.1, List.pairwise_singleton _ _, ?_⟩, fun p hp => ?_⟩
    · intro p hp q hq
      obtain rfl := List.mem_singleton.mp hq
      exact ih.2 p hp
    · rw [List.length_append, a.encode_length]
      rcases List.mem_append.mp hp with hp | hp
      · exact (ih.2 p hp).trans (Nat.le_add_right _ _)
      · obtain rfl := List.mem_singleton.mp hp
        exact Nat.le_refl _

theorem zip_fst_snd {α β γ : Type} (f : α → β) (as : List α) (ps : List (β × γ))
    (h : ps.map Prod.fst = as.map f) :
    (as.zip (ps.map Prod.snd)).map (fun p => (f p.1, p.2)) = ps := by
  induction as generalizing ps with
  | nil => simpa using h.symm
  | cons a as ih =>
    cases ps with
    | nil => simp at h
    | cons p ps =>
      obtain ⟨hp, hps⟩ := List.cons.inj h
      simp only [List.map_cons, List.zip_cons_cons, ih ps hps]
      rw [← hp]

theorem Filled.zip (h : Filled crc32 f) :
    (f.batch.zip f.offsets).map (fun p => (p.1.toPush, p.2)) =
      (pushAll crc32 (f.batch.map WriteReq.toPush)).2 := by
  rw [h.2]
  exact zip_fst_snd WriteReq.toPush f.batch _ (map_fst_pushAll crc32 _)

theorem Filled.place (h : Filled crc32 f) {p : WriteReq × Nat × Nat}
    (hp : p ∈ f.batch.zip f.offsets) :
    p.2.2 = (24 + p.1.payload.length) % 2 ^ 32 ∧
      p.2.1 + (24 + p.1.payload.length) ≤ f.buf.length ∧
      window f.padded p.2.1 (24 + p.1.payload.length) = p.1.toPush.encode crc32 := by
  have hmem : (p.1.toPush, p.2) ∈ (pushAll crc32 (f.batch.map WriteReq.toPush)).2 := by
    rw [← h.zip]
    exact List.mem_map_of_mem hp
  obtain ⟨hlen, hwin⟩ := pushAll_window crc32 (f.batch.map WriteReq.toPush)
    (List.replicate (alignUp f.buf.length - f.buf.length) 0) _ hmem
  rw [← h.1] at hwin
  refine ⟨hlen, ?_, hwin⟩
  rw [h.1]
  exact (pushAll_places _).2 _ hmem

theorem Filled.apart (h : Filled crc32 f) :
    (f.batch.zip f.offsets).Pairwise fun p q =>
      p.2.1 + (24 + p.1.payload.length) ≤ q.2.1 := by
  have hpairs := (@pushAll_places crc32 (f.batch.map WriteReq.toPush)).1
  rw [← h.zip] at hpairs
  exact List.pairwise_map.mp hpairs

theorem Filled.zip_fst (h : Filled crc32 f) : (f.batch.zip f.offsets).map Prod.fst = f.batch := by
  refine List.map_fst_zip ?_
  rw [h.2, List.length_map, ← List.length_map Prod.fst, map_fst_pushAll, List.length_map]

theorem makeAligned_padded (f : Filling) : makeAligned f.padded = f.padded := by
  have halign : alignUp f.padded.length = f.padded.length := by
    rw [Filling.padded, paddedAligned_length, alignUp_eq_self _ (alignUp_mod _)]
  simp [makeAligned, paddedAligned, halign]

theorem padded_mod (f : Filling) : f.padded.length % align = 0 := by
  rw [Filling.padded, paddedAligned_length]
  exact alignUp_mod _

theorem makeAligned_mod (f : Filling) : (makeAligned f.padded).length % align = 0 := by
  rw [makeAligned_padded]
  exact padded_mod f

end Buffer

section Files

variable (crc32) in
structure Stored (data : Bytes) (off len : Nat) (a : Push) : Prop where
  length : len = 24 + a.payload.length
  fits : len ≤ maxTransfer
  ends : off + len ≤ data.length
  bytes : window data off len = a.encode crc32

def Apart (a b : WriteReq × Except FolioError Ack) : Prop :=
  ∀ seg off len off' len', a.2 = .ok (seg, off, len) → b.2 = .ok (seg, off', len') →
    off + len ≤ off' ∨ off' + len' ≤ off

variable (crc32) in
structure Disk (s : State) : Prop where
  offset : s.fileOffset % align = 0
  writes : ∀ w ∈ s.writes, w.1 % align = 0 ∧ w.2 % align = 0
  stored : ∀ r seg off len, (r, .ok (seg, off, len)) ∈ s.answers →
    seg ≤ s.segId ∧ (seg = s.segId → off + len ≤ s.fileOffset) ∧
      ∃ data, s.files.get (s.path seg) = some data ∧ Stored crc32 data off len r.toPush
  disjoint : s.answers.Pairwise Apart
  noActive : s.renamed = true → s.files.get .activeSeg = none
  seals : (s.seals ++ [s.segId]).IsChain fun a b => b = a + 1

theorem Disk.frame (h : Disk crc32 s) (hfiles : t.files = s.files) (hid : t.segId = s.segId)
    (hoff : t.fileOffset = s.fileOffset) (hren : t.renamed = s.renamed)
    (hwrites : t.writes = s.writes) (hans : t.answers = s.answers) (hseals : t.seals = s.seals) :
    Disk crc32 t := by
  have hpath : t.path = s.path := by
    funext id
    simp [State.path, hid, hren]
  refine ⟨?_, ?_, ?_, ?_, ?_, ?_⟩
  · rw [hoff]
    exact h.offset
  · rw [hwrites]
    exact h.writes
  · rw [hans, hid, hoff, hfiles, hpath]
    exact h.stored
  · rw [hans]
    exact h.disjoint
  · rw [hren, hfiles]
    exact h.noActive
  · rw [hseals, hid]
    exact h.seals

theorem path_ne {id : SegmentId} (h : id ≠ s.segId) : s.path id ≠ s.path s.segId := by
  unfold State.path
  rw [if_neg fun hand => h hand.1]
  split_ifs
  · simp
  · simpa using h

theorem writeAt_take {off k : Nat} (bs : Bytes) (hoff : k ≤ off)
    (hlen : k ≤ data.length) : (writeAt data off bs).take k = data.take k := by
  rw [writeAt, List.append_assoc, List.take_append_of_le_length (by rw [setLen_length]; exact hoff),
    setLen, List.take_append_of_le_length (by rw [List.length_take]; omega), List.take_take]
  congr 1
  omega

theorem writeSome_take {off k : Nat} (bs : Bytes) (hoff : k ≤ off)
    (hlen : k ≤ data.length) : (writeSome data off bs).take k = data.take k := by
  unfold writeSome
  split_ifs
  · rfl
  · exact writeAt_take bs hoff hlen

theorem Stored.congr {data data' : Bytes} {off len : Nat} {a : Push}
    (h : Stored crc32 data off len a)
    (htake : data'.take (off + len) = data.take (off + len)) : Stored crc32 data' off len a := by
  have hl := congrArg List.length htake
  rw [List.length_take, List.length_take] at hl
  have hfit := h.ends
  exact ⟨h.length, h.fits, by omega, by rw [window_congr htake (Nat.le_refl _), h.bytes]⟩

theorem Disk.setFile (h : Disk crc32 s)
    (hkeep : ∀ k ≤ s.fileOffset, k ≤ s.file.length → data.take k = s.file.take k) :
    Disk crc32 (s.setFile data) := by
  refine ⟨h.offset, h.writes, fun r seg off len hr => ?_, h.disjoint, fun hren => ?_, h.seals⟩
  · obtain ⟨hle, hfront, old, hold, hst⟩ := h.stored r seg off len hr
    refine ⟨hle, hfront, ?_⟩
    by_cases hseg : seg = s.segId
    · subst hseg
      have hfile : s.file = old := by rw [State.file, hold, Option.getD_some]
      have hfit := hst.ends
      refine ⟨data, Table.get_put_self _ _ _, hst.congr ?_⟩
      rw [← hfile] at hfit ⊢
      exact hkeep _ (hfront rfl) hfit
    · exact ⟨old, (Table.get_put_ne _ _ (path_ne hseg)).trans hold, hst⟩
  · have hren : s.renamed = true := hren
    have hne : SegPath.activeSeg ≠ s.path s.segId := by simp [State.path, hren]
    exact (Table.get_put_ne _ _ hne).trans (h.noActive hren)

theorem Disk.fail (h : Disk crc32 s) (f : Filling) (msg : String) :
    Disk crc32 (s.fail f msg) := by
  refine ⟨h.offset, h.writes, fun r seg off len hr => ?_, ?_, h.noActive, h.seals⟩
  · rcases List.mem_append.mp hr with hr | hr
    · exact h.stored r seg off len hr
    · simp at hr
  · refine List.pairwise_append.mpr ⟨h.disjoint, ?_, fun a _ b hb => ?_⟩
    · exact List.pairwise_map.mpr (List.pairwise_of_forall fun _ _ => by simp [Apart])
    · obtain ⟨r, -, rfl⟩ := List.mem_map.mp hb
      simp [Apart]

theorem Filled.placed {start : Nat} (hf : Filled crc32 f)
    (htransfer : f.padded.length ≤ maxTransfer)
    (hwin : window data start f.padded.length = f.padded) :
    ∀ p ∈ f.batch.zip f.offsets, p.2.2 = 24 + p.1.payload.length ∧
      p.2.1 + p.2.2 ≤ f.padded.length ∧
      Stored crc32 data (start + p.2.1) p.2.2 p.1.toPush := by
  have hpad : f.buf.length ≤ f.padded.length := by
    rw [Filling.padded, paddedAligned_length]
    exact le_alignUp _
  intro p hp
  obtain ⟨hlen, hend, hrec⟩ := hf.place hp
  -- the whole batch went through one write, so no record length is cut to a `u32`
  have hfits : 24 + p.1.payload.length ≤ maxTransfer := by omega
  rw [Nat.mod_eq_of_lt (hfits.trans_lt (by decide))] at hlen
  have hw := window_window data start f.padded.length p.2.1 (24 + p.1.payload.length) (by omega)
  rw [hwin, hrec] at hw
  have hl := congrArg List.length hw
  rw [Push.encode_length, window_length] at hl
  rw [hlen]
  exact ⟨rfl, by omega, rfl, hfits, by omega, hw.symm⟩

theorem Disk.ackAll (h : Disk crc32 s) (hf : Filled crc32 f)
    (htransfer : f.padded.length ≤ maxTransfer) (hfile : s.files.get (s.path s.segId) = some data)
    (hwin : window data s.fileOffset f.padded.length = f.padded) : Disk crc32 (s.ackAll f) := by
  have hplace := hf.placed htransfer hwin
  refine ⟨?_, h.writes, fun r seg off len hr => ?_, ?_, h.noActive, h.seals⟩
  · have := h.offset
    have := padded_mod f
    dsimp only [State.ackAll]
    unfold align at *
    omega
  · rcases List.mem_append.mp hr with hr | hr
    · obtain ⟨hle, hfront, hst⟩ := h.stored r seg off len hr
      refine ⟨hle, fun heq => ?_, hst⟩
      exact (hfront heq).trans (Nat.le_add_right _ _)
    · obtain ⟨p, hp, heq⟩ := List.mem_map.mp hr
      cases heq
      obtain ⟨-, hend, hst⟩ := hplace p hp
      refine ⟨Nat.le_refl _, fun _ => ?_, data, hfile, hst⟩
      dsimp only [State.ackAll]
      omega
  · refine List.pairwise_append.mpr ⟨h.disjoint, ?_, fun a ha b hb => ?_⟩
    · refine List.pairwise_map.mpr (hf.apart.imp_of_mem fun {p q} hp hq hpq => ?_)
      intro seg off len off' len' ha hb
      cases ha
      cases hb
      have hlen := (hplace p hp).1
      left
      omega
    · obtain ⟨p, -, rfl⟩ := List.mem_map.mp hb
      obtain ⟨r, ans⟩ := a
      intro seg off len off' len' ha' hb'
      cases hb'
      cases ha'
      have hfront := (h.stored r s.segId off len ha).2.1 rfl
      left
      omega

theorem Disk.rename (h : Disk crc32 s) (hfile : s.files.get .activeSeg = some data) :
    Disk crc32 { s with
      files := (s.files.del .activeSeg).put (.sealedSeg s.segId) data, renamed := true
      pc := .sealReopen asked } := by
  have hren : s.renamed = false := by
    cases hr : s.renamed with
    | false => rfl
    | true => simp [h.noActive hr] at hfile
  refine ⟨h.offset, h.writes, fun r seg off len hr => ?_, h.disjoint, fun _ => ?_, h.seals⟩
  · obtain ⟨hle, hfront, old, hold, hst⟩ := h.stored r seg off len hr
    refine ⟨hle, hfront, old, ?_, hst⟩
    simp only [State.path, Bool.true_eq_false, and_false, if_false]
    by_cases hseg : seg = s.segId
    · subst hseg
      rw [Table.get_put_self, ← hold, State.path, if_pos ⟨rfl, hren⟩, hfile]
    · rw [Table.get_put_ne _ _ (by simpa using hseg), Table.get_del_ne _ (by simp), ← hold,
        State.path, if_neg fun hand => hseg hand.1]
  · rw [Table.get_put_ne _ _ (by simp), Table.get_del_self]

theorem Disk.sealDone (h : Disk crc32 s) (hren : s.renamed = true)
    (hid : s.segId + 1 < 2 ^ 64) : Disk crc32 (s.sealDone asked) := by
  have hnext : (s.segId + 1) % 2 ^ 64 = s.segId + 1 := Nat.mod_eq_of_lt hid
  have hopen (id : SegmentId) :
      (openOdirect s.files).get (.sealedSeg id) = s.files.get (.sealedSeg id) := by
    unfold openOdirect
    split
    · exact Table.get_put_ne _ _ (by simp)
    · rfl
  refine ⟨Nat.zero_mod _, h.writes, fun r seg off len hr => ?_, h.disjoint, ?_, ?_⟩
  · obtain ⟨hle, -, old, hold, hst⟩ := h.stored r seg off len hr
    have hne : seg ≠ s.segId + 1 := Nat.ne_of_lt (Nat.lt_succ_of_le hle)
    have hpath : s.path seg = .sealedSeg seg := by simp [State.path, hren]
    refine ⟨?_, fun heq => ?_, old, ?_, hst⟩
    · dsimp only [State.sealDone]
      rw [hnext]
      exact hle.trans (Nat.le_succ _)
    · dsimp only [State.sealDone] at heq
      rw [hnext] at heq
      exact absurd heq hne
    · simp only [State.path, State.sealDone, hnext, hne, false_and, if_false, hopen]
      rw [← hpath, hold]
  · simp [State.sealDone]
  · dsimp only [State.sealDone]
    rw [hnext, List.append_assoc]
    have hsplit := List.isChain_append.mp h.seals
    refine List.isChain_append.mpr ⟨hsplit.1, by simp, fun x hx y hy => ?_⟩
    exact hsplit.2.2 x hx y (by simpa using hy)

theorem Disk.logWrite {n : Nat} (h : Disk crc32 s) (hn : n % align = 0) :
    Disk crc32 { s with writes := s.writes ++ [(s.fileOffset, n)] } := by
  refine ⟨h.offset, fun w hw => ?_, h.stored, h.disjoint, h.noActive, h.seals⟩
  rcases List.mem_append.mp hw with hw | hw
  · exact h.writes w hw
  · obtain rfl := List.mem_singleton.mp hw
    exact ⟨h.offset, hn⟩

end Files

section Requests

def held : Pc → Option Filling
  | .filling f => some f
  | .writing f => some f
  | .syncing f => some f
  | _ => none

def writesOf (rx : List JournalMsg) : List WriteReq :=
  rx.filterMap fun m => match m with | .Write r => some r | .Seal => none

def pending (s : State) : List WriteReq := (held s.pc).elim [] Filling.batch ++ writesOf s.rx

structure Flow (s : State) : Prop where
  fifo : s.answers.map Prod.fst ++ pending s = s.sent
  numbered : s.sent.map WriteReq.ack = List.range s.sent.length

theorem Flow.frame (h : Flow s) (hans : t.answers.map Prod.fst ++ pending t =
    s.answers.map Prod.fst ++ pending s) (hsent : t.sent = s.sent) : Flow t := by
  refine ⟨?_, ?_⟩
  · rw [hans, hsent]
    exact h.fifo
  · rw [hsent]
    exact h.numbered

theorem Flow.send (h : Flow s) (p : Push) :
    Flow { s with
      sent := s.sent ++ [⟨p, s.sent.length⟩]
      rx := s.rx ++ [.Write ⟨p, s.sent.length⟩] } := by
  refine ⟨?_, ?_⟩
  · dsimp only
    rw [← h.fifo]
    simp [pending, writesOf]
  · simp [h.numbered, List.range_succ]

theorem Flow.count {r : WriteReq} (h : Flow s) (hr : r ∈ s.sent) :
    (s.answers.map Prod.fst).count r + (pending s).count r = 1 := by
  have hnd : (s.sent.map WriteReq.ack).Nodup := h.numbered ▸ List.nodup_range
  rw [← List.count_append, h.fifo]
  exact List.count_eq_one_of_mem (List.Nodup.of_map _ hnd) hr

end Requests

section Run

variable (crc32) in
structure Inv (s : State) : Prop where
  disk : Disk crc32 s
  flow : Flow s
  filled : ∀ f, held s.pc = some f → Filled crc32 f
  synced : ∀ f, s.pc = .syncing f → f.padded.length ≤ maxTransfer ∧
    ∃ data, s.files.get (s.path s.segId) = some data ∧
      window data s.fileOffset f.padded.length = f.padded
  reopening : ∀ asked, s.pc = .sealReopen asked → s.renamed = true

theorem Inv.init (h : Init s) : Inv crc32 s where
  disk := ⟨h.offset, by simp [h.writes], by simp [h.answers], by simp [h.answers],
    by simp [h.renamed], by simp [h.seals]⟩
  flow := ⟨by simp [h.answers, pending, held, h.pc, writesOf, h.rx, h.sent], by simp [h.sent]⟩
  filled := by simp [h.pc, held]
  synced := by simp [h.pc]
  reopening := by simp [h.pc]

def idsInRange (s : State) : Act → Prop
  | .reopen none => s.segId + 1 < 2 ^ 64
  | _ => True

instance (s : State) (a : Act) : Decidable (idsInRange s a) := by
  unfold idsInRange
  split <;> infer_instance

theorem writeAt_window (data : Bytes) (off : Nat) (bs : Bytes) :
    window (writeAt data off bs) off bs.length = bs := by
  have h := window_append_right (setLen data off) (bs ++ data.drop (off + bs.length)) 0 bs.length
  rw [setLen_length, Nat.add_zero, window_prefix] at h
  rw [writeAt, List.append_assoc, h]

theorem Inv.writeFailed {msg : String} (h : Inv crc32 s) (hpc : s.pc = .writing f)
    (hkeep : ∀ k ≤ s.fileOffset, k ≤ s.file.length → data.take k = s.file.take k) :
    Inv crc32 (({ s.setFile data with
      writes := s.writes ++ [(s.fileOffset, (makeAligned f.padded).length)] }).fail f msg) where
  disk := ((h.disk.setFile hkeep).logWrite (makeAligned_mod f)).fail f msg
  flow := h.flow.frame
    (by simp [State.fail, pending, State.setFile, held, hpc, Function.comp_def]) rfl
  filled := by simp [State.fail, held]
  synced := by simp [State.fail]
  reopening := by simp [State.fail]

theorem Inv.wrote (h : Inv crc32 s) (hpc : s.pc = .writing f)
    (hlen : f.padded.length ≤ maxTransfer) :
    Inv crc32 { s.setFile (writeAt s.file s.fileOffset (makeAligned f.padded)) with
      writes := s.writes ++ [(s.fileOffset, (makeAligned f.padded).length)]
      pc := .syncing f } := by
  have hdisk := h.disk.setFile fun k hk hlen => writeAt_take (makeAligned f.padded) hk hlen
  have hlog := hdisk.logWrite (makeAligned_mod f)
  refine ⟨hlog.frame rfl rfl rfl rfl rfl rfl rfl, h.flow.frame ?_ rfl, ?_, ?_, by simp⟩
  · simp [pending, held, hpc, State.setFile]
  · intro g hg
    exact h.filled g (by simpa [held, hpc] using hg)
  · intro g hg
    obtain rfl : f = g := by simpa using hg
    refine ⟨hlen, _, Table.get_put_self _ _ _, ?_⟩
    rw [makeAligned_padded]
    exact writeAt_window _ _ _

theorem Inv.moved {rx : List JournalMsg} {pc : Pc} {sa : List (Except FolioError SegmentId)}
    (h : Inv crc32 s) (hpend : (held pc).elim [] Filling.batch ++ writesOf rx = pending s)
    (hfilled : ∀ f, held pc = some f → Filled crc32 f) (hsync : ∀ f, pc ≠ .syncing f)
    (hopen : ∀ asked, pc ≠ .sealReopen asked) :
    Inv crc32 { s with rx, pc, sealAnswers := sa } where
  disk := h.disk.frame rfl rfl rfl rfl rfl rfl rfl
  flow := h.flow.frame (congrArg _ hpend) rfl
  filled := hfilled
  synced f hf := absurd hf (hsync f)
  reopening asked ha := absurd ha (hopen asked)

theorem Inv.sealFailed {e : String} (h : Inv crc32 s)
    (hheld : held s.pc = none) : Inv crc32 (s.sealFailed asked e) :=
  h.moved (by rw [pending, hheld]; rfl) (by simp [held]) (by simp) (by simp)

theorem Inv.step {a : Act} (h : Inv crc32 s) (hg : idsInRange s a)
    (hst : JournalLoop.step crc32 threshold s a = some t) : Inv crc32 t := by
  cases step_effect hst with
  | sendWrite p =>
    exact ⟨h.disk.frame rfl rfl rfl rfl rfl rfl rfl, h.flow.send p, h.filled, h.synced,
      h.reopening⟩
  | sendSeal =>
    exact ⟨h.disk.frame rfl rfl rfl rfl rfl rfl rfl,
      h.flow.frame (by simp [pending, writesOf]) rfl, h.filled, h.synced, h.reopening⟩
  | @recvWrite r rx hpc hrx =>
    refine h.moved (by simp [pending, held, hpc, hrx, writesOf, Filling.push, Filling.new]) ?_
      (by simp) (by simp)
    intro f hf
    obtain rfl : Filling.new.push crc32 r = f := by simpa [held] using hf
    exact filled_new.push r
  | recvSeal hpc hrx =>
    exact h.moved (by simp [pending, held, hpc, hrx, writesOf]) (by simp [held]) (by simp)
      (by simp)
  | @tryWrite f r rx hpc hrx =>
    refine h.moved (by simp [pending, held, hpc, hrx, writesOf, Filling.push]) ?_ (by simp)
      (by simp)
    intro g hg
    obtain rfl : f.push crc32 r = g := by simpa [held] using hg
    exact (h.filled f (by simp [held, hpc])).push r
  | trySeal hpc hrx =>
    exact h.moved (by simp [pending, hrx, writesOf]) h.filled (by simp [hpc]) (by simp [hpc])
  | tryNone hpc =>
    exact h.moved (by simp [pending, held, hpc]) (by simpa [held, hpc] using h.filled) (by simp)
      (by simp)
  | batchFull hpc =>
    exact h.moved (by simp [pending, held, hpc]) (by simpa [held, hpc] using h.filled) (by simp)
      (by simp)
  | wrote hpc hlen => exact h.wrote hpc hlen
  | writeFailed o left msg hpc =>
    exact h.writeFailed hpc fun k hk hlen => writeSome_take _ hk hlen
  | @synced f hpc =>
    have hf : held s.pc = some f := by simp [held, hpc]
    obtain ⟨hlen, data, hfile, hwin⟩ := h.synced f hpc
    refine ⟨h.disk.ackAll (h.filled f hf) hlen hfile hwin,
      h.flow.frame ?_ rfl, by simp [State.ackAll, held], by simp [State.ackAll],
      by simp [State.ackAll]⟩
    have hzip := (h.filled f hf).zip_fst
    simp [State.ackAll, pending, held, hpc, Function.comp_def, hzip]
  | @syncFailed f e hpc =>
    exact ⟨h.disk.fail f _, h.flow.frame
      (by simp [State.fail, pending, held, hpc, Function.comp_def]) rfl,
      by simp [State.fail, held], by simp [State.fail], by simp [State.fail]⟩
  | check hpc =>
    refine h.moved ?_ ?_ ?_ ?_ <;> split_ifs <;> simp [pending, held, hpc]
  | sealSynced hpc =>
    exact h.moved (by simp [pending, held, hpc]) (by simp [held]) (by simp) (by simp)
  | sealSyncFailed e hpc => exact h.sealFailed (by simp [held, hpc])
  | renamed hpc hfile =>
    exact ⟨h.disk.rename hfile, h.flow.frame (by simp [pending, held, hpc]) rfl, by simp [held],
      by simp, by simp⟩
  | renameFailed e hpc => exact h.sealFailed (by simp [held, hpc])
  | reopened hpc =>
    exact ⟨h.disk.sealDone (h.reopening _ hpc) hg,
      h.flow.frame (by simp [State.sealDone, pending, held, hpc]) rfl,
      by simp [State.sealDone, held], by simp [State.sealDone], by simp [State.sealDone]⟩
  | reopenFailed e hpc => exact h.sealFailed (by simp [held, hpc])

theorem inv_reach (h : Reach (guarded idsInRange (JournalLoop.step crc32 threshold)) Init s) :
    Inv crc32 s := by
  refine h.invariant (P := Inv crc32) (fun _ => Inv.init) fun s a t hs hst => ?_
  obtain ⟨hg, hst⟩ := (guarded_eq_some idsInRange).mp hst
  exact hs.step hg hst

end Run

section Progress

def rank : Pc → Nat
  | .receiving => 0
  | .sealReopen _ => 1
  | .sealRename _ => 2
  | .sealSync _ => 3
  | .checking => 4
  | .syncing _ => 5
  | .writing _ => 6
  | .filling _ => 7

/-- How many steps the thread can still make without a new message. -/
def work (s : State) : Nat := 8 * s.rx.length + rank s.pc

def fromThread : Act → Bool
  | .sendWrite _ => false
  | .sendSeal => false
  | _ => true

variable {a : Act}

theorem work_lt (ha : fromThread a = true) (hst : step crc32 threshold s a = some t) :
    work t < work s := by
  cases step_effect hst with
  | sendWrite => simp [fromThread] at ha
  | sendSeal => simp [fromThread] at ha
  | recvWrite hpc hrx => simp [work, hpc, hrx, rank]; omega
  | recvSeal hpc hrx => simp [work, hpc, hrx, rank]; omega
  | tryWrite hpc hrx => simp [work, hpc, hrx, rank]
  | trySeal hpc hrx => simp [work, hrx]
  | tryNone hpc => simp [work, hpc, rank]
  | batchFull hpc => simp [work, hpc, rank]
  | wrote hpc hlen => simp [work, hpc, rank, State.setFile]
  | writeFailed o left msg hpc => simp [work, hpc, rank, State.fail, State.setFile]
  | synced hpc => simp [work, hpc, rank, State.ackAll]
  | syncFailed e hpc => simp [work, hpc, rank, State.fail]
  | check hpc => split_ifs <;> simp [work, hpc, rank]
  | sealSynced hpc => simp [work, hpc, rank]
  | sealSyncFailed e hpc => simp [work, hpc, rank, State.sealFailed]
  | renamed hpc => simp [work, hpc, rank]
  | renameFailed e hpc => simp [work, hpc, rank, State.sealFailed]
  | reopened hpc => simp [work, hpc, rank, State.sealDone]
  | reopenFailed e hpc => simp [work, hpc, rank, State.sealFailed]

theorem thread_goes_on (h : work s ≠ 0) :
    ∃ a t, fromThread a = true ∧ step crc32 threshold s a = some t := by
  cases hpc : s.pc with
  | receiving =>
    cases hrx : s.rx with
    | nil => simp [work, hpc, hrx, rank] at h
    | cons m rx =>
      cases m with
      | Write r => exact ⟨.recv, _, rfl, by simp [step, hpc, hrx]; rfl⟩
      | Seal => exact ⟨.recv, _, rfl, by simp [step, hpc, hrx]; rfl⟩
  | filling f =>
    by_cases hlen : f.buf.length < maxBatchBytes
    · exact ⟨.tryRecv false, _, rfl, by simp [step, hpc, hlen]; rfl⟩
    · exact ⟨.batchFull, _, rfl, by simp [step, hpc, hlen]; rfl⟩
  | writing f =>
    exact ⟨.write (.error [] ""), _, rfl, by simp [step, hpc, writeStep]; rfl⟩
  | syncing f => exact ⟨.sync none, _, rfl, by simp [step, hpc]; rfl⟩
  | checking => exact ⟨.check, _, rfl, by simp [step, hpc]; rfl⟩
  | sealSync asked => exact ⟨.sealSync none, _, rfl, by simp [step, hpc]; rfl⟩
  | sealRename asked => exact ⟨.rename (some ""), _, rfl, by simp [step, hpc]; rfl⟩
  | sealReopen asked => exact ⟨.reopen none, _, rfl, by simp [step, hpc]; rfl⟩

theorem pending_of_idle (h : work s = 0) : pending s = [] := by
  have hrx : s.rx = [] := List.eq_nil_of_length_eq_zero (by unfold work at h; omega)
  have hpc : rank s.pc = 0 := by unfold work at h; omega
  cases hs : s.pc <;> simp [hs, rank] at hpc
  simp [pending, hs, held, hrx, writesOf]

theorem answers_grow (hst : step crc32 threshold s a = some t) : s.answers <+: t.answers := by
  cases step_effect hst <;>
    simp [State.ackAll, State.fail, State.sealFailed, State.sealDone, State.setFile]

end Progress

section Session

/-- In every session: writes are aligned, an acknowledged record stands where
its answer says for good, no bytes are given out twice, each `Write` is answered once when the
thread gets to it, and seals count up by one. -/
theorem journal_answers_exact
    (h : Reach (guarded idsInRange (step crc32 threshold)) Init s) :
    (∀ w ∈ s.writes, w.1 % align = 0 ∧ w.2 % align = 0) ∧
    (∀ r seg off len, (r, .ok (seg, off, len)) ∈ s.answers →
      ∃ data, s.files.get (s.path seg) = some data ∧
        (decodeRecord crc32 data off).map decodedOf = .ok (r.toPush.decoded len)) ∧
    s.answers.Pairwise Apart ∧
    (∀ r ∈ s.sent, (s.answers.map Prod.fst).count r + (pending s).count r = 1) ∧
    (work s = 0 → pending s = []) ∧
    (work s ≠ 0 → ∃ a t, fromThread a = true ∧ step crc32 threshold s a = some t) ∧
    (∀ a t, step crc32 threshold s a = some t →
      s.answers <+: t.answers ∧ (fromThread a = true → work t < work s)) ∧
    s.seals.IsChain fun a b => b = a + 1 := by
  have hinv := inv_reach h
  refine ⟨hinv.disk.writes, fun r seg off len hr => ?_, hinv.disk.disjoint,
    fun r => hinv.flow.count, pending_of_idle, thread_goes_on,
    fun a t hst => ⟨answers_grow hst, fun ha => work_lt ha hst⟩,
    (List.isChain_append.mp hinv.disk.seals).1⟩
  obtain ⟨-, -, data, hfile, hst⟩ := hinv.disk.stored r seg off len hr
  have hsmall : r.payload.length < 2 ^ 32 := by
    have hlen := hst.length
    have hfits := hst.fits
    unfold maxTransfer at hfits
    omega
  exact ⟨data, hfile, (decodeRecord_push_iff crc32 data off r.toPush len).mpr
    ⟨hst.length, hst.ends, hsmall, hst.bytes⟩⟩

def freshSession : State where
  files := Table.empty.put .activeSeg [9]
  segId := 5
  fileOffset := 0
  renamed := false
  rx := []
  pc := .receiving
  sent := []
  writes := []
  answers := []
  sealAnswers := []
  seals := []

theorem freshSession_init : Init freshSession := ⟨rfl, rfl, rfl, rfl, rfl, rfl, rfl, rfl, rfl⟩

def shortThenFull : List Act :=
  [.sendWrite ⟨1, 0, [7]⟩, .sendWrite ⟨1, 1, [8]⟩, .recv, .tryRecv true, .tryRecv false,
    .write (.short 10), .check, .sendWrite ⟨1, 2, [6]⟩, .recv, .tryRecv false, .write .full,
    .sync none, .check, .sealSync none, .rename none, .reopen none]

theorem record_in_sealed_segment :
    ∃ s r data, Reach (guarded idsInRange (step Crc32.crc32 4096)) Init s ∧ s.seals = [5] ∧
      (r, .ok (5, 0, 25)) ∈ s.answers ∧ s.files.get (.sealedSeg 5) = some data ∧
      (decodeRecord Crc32.crc32 data 0).map decodedOf = .ok (r.toPush.decoded 25) := by
  obtain ⟨s, hreach, hpath, hseals, hans⟩ := reach_check
    (guarded idsInRange (step Crc32.crc32 4096)) freshSession_init
    (fun s => s.path 5 = .sealedSeg 5 ∧ s.seals = [5] ∧
      ((⟨⟨1, 2, [6]⟩, 2⟩, .ok (5, 0, 25)) : WriteReq × Except FolioError Ack) ∈ s.answers)
    shortThenFull (by decide +kernel)
  obtain ⟨data, hfile, hdec⟩ := (journal_answers_exact hreach).2.1 _ 5 0 25 hans
  rw [hpath] at hfile
  exact ⟨s, _, data, hreach, hseals, hans, hfile, hdec⟩

end Session
end Folio.JournalAcks
