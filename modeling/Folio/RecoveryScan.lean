import Folio.Segment

/-! The record loop shared by WAL replay and entry-segment recovery, and the file
layout the batch writers produce. -/
namespace Folio.RecoveryScan
open ByteCodec Protocol Segment

/-- A record the loop reaches: its offset, contents and total length. -/
structure Visit where
  pos : Nat
  record : Rec
  len : Nat
  deriving DecidableEq

/-- How a loop ends: `torn` asks for a truncation at `lastValid`. -/
structure ScanEnd (σ : Type*) where
  state : σ
  lastValid : Nat
  torn : Bool

variable (crc32 : Bytes → UInt32) {σ : Type*}

/-- The loop itself; `visit` is the body of its `Ok` branch. A zero length at an
aligned position leaves `pos` where it is, so the loop runs on fuel. -/
def scanLoop (visit : σ → Visit → σ) (data : Bytes) : Nat → Nat → Nat → σ → Option (ScanEnd σ)
  | 0, _, _, _ => none
  | fuel+1, pos, last, s =>
    if data.length < pos + 4 then some ⟨s, last, false⟩
    else if leNat (window data pos 4) = 0 then scanLoop visit data fuel (alignUp pos) last s
    else match decodeRecord crc32 data pos with
      | .ok (r, n) => scanLoop visit data fuel (pos + n) (pos + n) (visit s ⟨pos, r, n⟩)
      | .error _ => some ⟨s, last, true⟩

def scan (data : Bytes) : Nat → Nat → Nat → Option (ScanEnd (List Visit))
  | 0, _, _ => none
  | fuel+1, pos, last =>
    if data.length < pos + 4 then some ⟨[], last, false⟩
    else if leNat (window data pos 4) = 0 then scan data fuel (alignUp pos) last
    else match decodeRecord crc32 data pos with
      | .ok (r, n) => (scan data fuel (pos + n) (pos + n)).map fun e =>
          ⟨⟨pos, r, n⟩ :: e.state, e.lastValid, e.torn⟩
      | .error _ => some ⟨[], last, true⟩

/-- Loop control never looks at the state, so every loop body folds over the same visits. -/
theorem scanLoop_eq_foldl (visit : σ → Visit → σ) (data : Bytes) (fuel pos last : Nat) (s : σ) :
    scanLoop crc32 visit data fuel pos last s =
      (scan crc32 data fuel pos last).map fun e =>
        ⟨e.state.foldl visit s, e.lastValid, e.torn⟩ := by
  induction fuel generalizing pos last s with
  | zero => rfl
  | succ fuel ih =>
    unfold scanLoop scan
    split_ifs with hend hzero
    · rfl
    · exact ih _ _ _
    · cases decodeRecord crc32 data pos with
      | error e => rfl
      | ok p => simp [ih, Option.map_map, Function.comp_def]

theorem scan_fuel_mono (data : Bytes) (fuel k pos last : Nat) (e : ScanEnd (List Visit))
    (h : scan crc32 data fuel pos last = some e) :
    scan crc32 data (fuel + k) pos last = some e := by
  induction fuel generalizing pos last e with
  | zero => simp [scan] at h
  | succ fuel ih =>
    rw [Nat.add_right_comm]
    unfold scan at h ⊢
    split_ifs at h ⊢ with hend hzero
    · exact h
    · exact ih _ _ _ h
    · cases hd : decodeRecord crc32 data pos with
      | error err => simpa [hd] using h
      | ok p =>
        simp only [hd, Option.map_eq_some_iff] at h ⊢
        obtain ⟨e', he', rfl⟩ := h
        exact ⟨e', ih _ _ _ he', rfl⟩

theorem scan_deterministic {data : Bytes} {f g pos last : Nat} {e e' : ScanEnd (List Visit)}
    (h : scan crc32 data f pos last = some e) (h' : scan crc32 data g pos last = some e') :
    e = e' := by
  have hf := scan_fuel_mono crc32 data f g pos last e h
  have hg := scan_fuel_mono crc32 data g f pos last e' h'
  rw [Nat.add_comm g f, hf] at hg
  exact Option.some.inj hg

def prepend (vs : List Visit) (e : ScanEnd (List Visit)) : ScanEnd (List Visit) :=
  ⟨vs ++ e.state, e.lastValid, e.torn⟩

theorem prepend_prepend (u v : List Visit) (o : Option (ScanEnd (List Visit))) :
    (o.map (prepend v)).map (prepend u) = o.map (prepend (u ++ v)) := by
  cases o <;> simp [prepend]

section Steps
variable {data : Bytes} {fuel pos last : Nat} {e : ScanEnd (List Visit)}

theorem scan_induct {motive : Nat → Nat → ScanEnd (List Visit) → Prop}
    (stop : ∀ pos last, data.length < pos + 4 → motive pos last ⟨[], last, false⟩)
    (torn : ∀ pos last err, pos + 4 ≤ data.length → leNat (window data pos 4) ≠ 0 →
      decodeRecord crc32 data pos = .error err → motive pos last ⟨[], last, true⟩)
    (skip : ∀ fuel pos last e, pos + 4 ≤ data.length → leNat (window data pos 4) = 0 →
      scan crc32 data fuel (alignUp pos) last = some e → motive (alignUp pos) last e →
      motive pos last e)
    (record : ∀ fuel pos last r n e, pos + 4 ≤ data.length → leNat (window data pos 4) ≠ 0 →
      decodeRecord crc32 data pos = .ok (r, n) →
      scan crc32 data fuel (pos + n) (pos + n) = some e → motive (pos + n) (pos + n) e →
      motive pos last (prepend [⟨pos, r, n⟩] e))
    (h : scan crc32 data fuel pos last = some e) : motive pos last e := by
  induction fuel generalizing pos last e with
  | zero => simp [scan] at h
  | succ fuel ih =>
    unfold scan at h
    split_ifs at h with hend hzero
    · cases h
      exact stop pos last hend
    · exact skip fuel pos last e (by omega) hzero h (ih h)
    · cases hd : decodeRecord crc32 data pos with
      | error err =>
        simp only [hd] at h
        cases h
        exact torn pos last err (by omega) hzero hd
      | ok p =>
        simp only [hd, Option.map_eq_some_iff] at h
        obtain ⟨e', he', rfl⟩ := h
        exact record fuel pos last p.1 p.2 e' (by omega) hzero hd he' (ih he')

theorem decode_len {r : Rec} {n : Nat} (h : decodeRecord crc32 data pos = .ok (r, n)) :
    24 ≤ n ∧ pos + n ≤ data.length := by
  obtain ⟨rfl, hw⟩ := (decodeRecord_ok_iff crc32 data pos r n).mp h
  have hl := congrArg List.length hw
  have h24 : 24 ≤ r.len := by
    unfold Rec.len recordOverhead recordHeader recordFooter
    omega
  rw [window_length, r.encode_length] at hl
  omega

theorem scan_lastValid_ge (hle : last ≤ pos) (h : scan crc32 data fuel pos last = some e) :
    last ≤ e.lastValid := by
  revert hle
  refine scan_induct crc32 (motive := fun pos last e => last ≤ pos → last ≤ e.lastValid)
    ?_ ?_ ?_ ?_ h
  · intro _ _ _ _; exact Nat.le_refl _
  · intro _ _ _ _ _ _ _; exact Nat.le_refl _
  · intro _ pos _ _ _ _ _ ih hle
    exact ih (hle.trans (le_alignUp pos))
  · intro _ _ _ _ _ _ _ _ _ _ ih hle
    have := ih (Nat.le_refl _)
    simp only [prepend]
    omega

theorem scan_sound (h : scan crc32 data fuel pos last = some e) :
    ∀ v ∈ e.state, pos ≤ v.pos ∧ v.pos + v.len ≤ e.lastValid ∧
      decodeRecord crc32 data v.pos = .ok (v.record, v.len) := by
  refine scan_induct crc32 (motive := fun pos _ e => ∀ v ∈ e.state, pos ≤ v.pos ∧
    v.pos + v.len ≤ e.lastValid ∧ decodeRecord crc32 data v.pos = .ok (v.record, v.len))
    ?_ ?_ ?_ ?_ h
  · simp
  · simp
  · intro fuel pos last e _ _ _ ih v hv
    exact ⟨(le_alignUp pos).trans (ih v hv).1, (ih v hv).2⟩
  · intro fuel pos last r n e _ _ hd he ih v hv
    have hge := scan_lastValid_ge crc32 (Nat.le_refl _) he
    rcases List.mem_cons.mp hv with rfl | hv
    · exact ⟨Nat.le_refl _, hge, hd⟩
    · have hpos := (ih v hv).1
      exact ⟨by omega, (ih v hv).2⟩

end Steps

section Layout

/-- One group of requests the writer puts down with a single `write_at`. -/
structure Batch where
  recs : List Rec
  nonempty : recs ≠ []
  payload_pos : ∀ r ∈ recs, 0 < r.payload.length
  payload_fits : ∀ r ∈ recs, r.payload.length < 256 ^ 4 - recordOverhead
  deriving DecidableEq

def pushTo (acc : Bytes × List (Nat × Nat)) (r : Rec) : Bytes × List (Nat × Nat) :=
  ((push crc32 acc.1 r).1, acc.2 ++ [(push crc32 acc.1 r).2])

def fillBuffer (rs : List Rec) : Bytes × List (Nat × Nat) :=
  rs.foldl (pushTo crc32) ([], [])

def rawBytes (rs : List Rec) : Bytes := rs.flatMap (Rec.encode crc32)

def layout : Nat → List Rec → List Visit
  | _, [] => []
  | pos, r :: rs => ⟨pos, r, r.len⟩ :: layout (pos + r.len) rs

def Batch.raw (b : Batch) : Bytes := (fillBuffer crc32 b.recs).1
def Batch.bytes (b : Batch) : Bytes := paddedAligned (b.raw crc32)

/-- What the writer reports for a batch written at `base`: the offset in the file and
the length of every record, in request order. -/
def Batch.acked (base : Nat) (b : Batch) : List Visit :=
  (b.recs.zip (fillBuffer crc32 b.recs).2).map fun p => ⟨base + p.2.1, p.1, p.2.2⟩

theorem fillBuffer_from (buf : Bytes) (offs : List (Nat × Nat)) (rs : List Rec) :
    rs.foldl (pushTo crc32) (buf, offs) =
      (buf ++ rawBytes crc32 rs,
        offs ++ (layout buf.length rs).map fun v => (v.pos, v.len % 256 ^ 4)) := by
  induction rs generalizing buf offs with
  | nil => simp [rawBytes, layout]
  | cons r rs ih =>
    rw [List.foldl_cons, pushTo, ih]
    simp [push, rawBytes, layout, Rec.encode_length]

theorem Batch.raw_eq (b : Batch) : b.raw crc32 = rawBytes crc32 b.recs := by
  simp [Batch.raw, fillBuffer, fillBuffer_from]

theorem zip_layout (base pos : Nat) (rs : List Rec)
    (h : ∀ r ∈ rs, r.payload.length < 256 ^ 4 - recordOverhead) :
    (rs.zip ((layout pos rs).map fun v => (v.pos, v.len % 256 ^ 4))).map
      (fun p => (⟨base + p.2.1, p.1, p.2.2⟩ : Visit)) = layout (base + pos) rs := by
  induction rs generalizing pos with
  | nil => rfl
  | cons r rs ih =>
    have hr : r.len % 256 ^ 4 = r.len := by
      have := h r (by simp)
      apply Nat.mod_eq_of_lt
      unfold Rec.len
      omega
    simp only [layout, List.map_cons, List.zip_cons_cons, hr, Nat.add_assoc]
    rw [ih _ fun x hx => h x (List.mem_cons_of_mem r hx)]

theorem Batch.acked_eq (base : Nat) (b : Batch) : b.acked crc32 base = layout base b.recs := by
  have h := zip_layout base 0 b.recs b.payload_fits
  simpa [Batch.acked, fillBuffer, fillBuffer_from] using h

theorem rawBytes_length (rs : List Rec) :
    (rawBytes crc32 rs).length = (rs.map Rec.len).sum := by
  induction rs with
  | nil => rfl
  | cons r rs ih =>
    simp only [rawBytes, List.flatMap_cons, List.length_append, List.map_cons, List.sum_cons]
    rw [r.encode_length, ← ih, rawBytes]

def Batch.size (b : Batch) : Nat := (b.recs.map Rec.len).sum

def Batch.first (b : Batch) : Rec := b.recs.head b.nonempty

theorem Batch.raw_length (b : Batch) : (b.raw crc32).length = b.size := by
  rw [b.raw_eq, rawBytes_length]; rfl

theorem Batch.bytes_length (b : Batch) : (b.bytes crc32).length = alignUp b.size := by
  have := le_alignUp b.size
  simp only [Batch.bytes, paddedAligned, List.length_append, List.length_replicate,
    Batch.raw_length]
  omega

theorem Batch.cons_first (b : Batch) : b.recs = b.first :: b.recs.tail :=
  (List.cons_head_tail b.nonempty).symm

theorem Batch.size_ge (b : Batch) : 25 ≤ b.size := by
  have hp := b.payload_pos b.first (by rw [b.cons_first]; simp)
  unfold Batch.size
  rw [b.cons_first, List.map_cons, List.sum_cons]
  unfold Rec.len recordOverhead recordHeader recordFooter
  omega

end Layout
end Folio.RecoveryScan
