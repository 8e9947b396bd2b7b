import Folio.RecoveryScan
import Mathlib.Data.List.Chain

/-! What the record loop does on a file of padded batches. Padding is recognised only by
a zero 4-byte length, so a seam with one to three bytes of padding is read together with
the first bytes of the next batch. -/
namespace Folio.BatchSeams
open ByteCodec Protocol Segment RecoveryScan
variable (crc32 : Bytes → UInt32)

section Steps
variable (data : Bytes) (fuel pos last : Nat)

theorem scan_skip (h4 : pos + 4 ≤ data.length) (hz : leNat (window data pos 4) = 0) :
    scan crc32 data (fuel+1) pos last = scan crc32 data fuel (alignUp pos) last := by
  rw [scan, if_neg (by omega), if_pos hz]

theorem scan_record (r : Rec) (hp : 0 < r.payload.length)
    (h : window data pos r.len = r.encode crc32) :
    scan crc32 data (fuel+1) pos last =
      (scan crc32 data fuel (pos + r.len) (pos + r.len)).map (prepend [⟨pos, r, r.len⟩]) := by
  have hd := decodeRecord_of_encode crc32 r data pos h
  have hlen : pos + r.len ≤ data.length := by
    have hw := congrArg List.length h
    rw [r.encode_length, window_length] at hw
    have : 0 < r.len := by unfold Rec.len recordOverhead recordHeader; omega
    omega
  have hword : leNat (window data pos 4) = r.payload.length := by
    have h0 := (r.encode_fields crc32).1
    rw [← h, window_window _ _ _ _ _ (by unfold Rec.len recordOverhead recordFooter; omega)] at h0
    rw [Nat.add_zero] at h0
    rw [h0, leNat_leBytes, Nat.mod_eq_of_lt r.payload_lt]
  have h4 : 4 ≤ r.len := by unfold Rec.len recordOverhead recordFooter; omega
  rw [scan, if_neg (by omega), if_neg (by omega), hd]
  rfl

end Steps

theorem scan_layout (data : Bytes) (rs : List Rec) (fuel pos : Nat)
    (hp : ∀ r ∈ rs, 0 < r.payload.length)
    (h : window data pos (rs.map Rec.len).sum = rawBytes crc32 rs) :
    scan crc32 data (fuel + rs.length) pos pos =
      (scan crc32 data fuel (pos + (rs.map Rec.len).sum) (pos + (rs.map Rec.len).sum)).map
        (prepend (layout pos rs)) := by
  induction rs generalizing pos with
  | nil =>
    simp only [List.length_nil, List.map_nil, List.sum_nil, Nat.add_zero, layout]
    cases scan crc32 data fuel pos pos <;> rfl
  | cons r rs ih =>
    have hsplit := h
    rw [List.map_cons, List.sum_cons, window_split] at hsplit
    have hparts := List.append_inj hsplit (by
      have hl := congrArg List.length hsplit
      rw [List.length_append, rawBytes_length, List.map_cons, List.sum_cons] at hl
      simp only [window_length] at hl ⊢
      rw [r.encode_length]
      omega)
    rw [List.length_cons, ← Nat.add_assoc, scan_record crc32 data _ pos pos r
      (hp r (by simp)) hparts.1, ih _ (fun x hx => hp x (List.mem_cons_of_mem r hx)) hparts.2,
      prepend_prepend, List.map_cons, List.sum_cons, Nat.add_assoc]
    rfl

/-- `data` holds the batches from `base` on, up to the end of the last record. -/
def Laid (data : Bytes) : Nat → List Batch → Prop
  | _, [] => True
  | base, b :: bs =>
    window data base b.size = b.raw crc32 ∧
    (bs ≠ [] → window data (base + b.size) (alignUp b.size - b.size) =
      List.replicate (alignUp b.size - b.size) 0) ∧
    Laid data (base + alignUp b.size) bs

def endOf : Nat → List Batch → Nat
  | base, [] => base
  | base, [b] => base + b.size
  | base, b :: b' :: bs => endOf (base + alignUp b.size) (b' :: bs)

def ackedAll : Nat → List Batch → List Visit
  | _, [] => []
  | base, b :: bs => b.acked crc32 base ++ ackedAll (base + alignUp b.size) bs

def fileBytes (batches : List Batch) : Bytes := batches.flatMap (Batch.bytes crc32)

theorem laid_fileBytes (pre t : Bytes) (batches : List Batch) :
    Laid crc32 (pre ++ fileBytes crc32 batches ++ t) pre.length batches := by
  induction batches generalizing pre with
  | nil => trivial
  | cons b bs ih =>
    have hshape : pre ++ fileBytes crc32 (b :: bs) ++ t =
        (pre ++ b.bytes crc32) ++ fileBytes crc32 bs ++ t := by
      simp [fileBytes]
    have hraw : pre ++ fileBytes crc32 (b :: bs) ++ t = pre ++ (b.raw crc32 ++
        (List.replicate (alignUp b.size - b.size) 0 ++ (fileBytes crc32 bs ++ t))) := by
      simp [fileBytes, Batch.bytes, paddedAligned, Batch.raw_length]
    refine ⟨?_, fun _ => ?_, ?_⟩
    · rw [hraw, ← Nat.add_zero pre.length, window_append_right, ← Batch.raw_length crc32 b,
        window_prefix]
    · rw [hraw, window_append_right, ← Nat.add_zero b.size, ← Batch.raw_length crc32 b,
        window_append_right]
      simp [window]
    · have h := ih (pre ++ b.bytes crc32)
      rwa [List.length_append, Batch.bytes_length, ← hshape] at h

/-- The next batch is found iff the low bytes of its first length that fall into the
4-byte word read at the seam are zero; with no or at least four padding bytes the
exponent is zero and nothing is asked. -/
def Seamless (b b' : Batch) : Prop :=
  b'.first.payload.length % 256 ^ (b.size % align - 4092) = 0

instance (b b' : Batch) : Decidable (Seamless b b') := by
  unfold Seamless; infer_instance

theorem seam_word (data : Bytes) (pos pad n : Nat)
    (hz : window data pos pad = List.replicate pad 0)
    (hn : window data (pos + pad) 4 = leBytes 4 n) :
    leNat (window data pos 4) = 256 ^ pad * (n % 256 ^ (4 - pad)) := by
  by_cases h4 : 4 ≤ pad
  · have hw : window data pos 4 = List.replicate 4 0 := by
      have hsub := window_window data pos pad 0 4 (by omega)
      rw [Nat.add_zero] at hsub
      rw [← hsub, hz]
      simp [window, Nat.min_eq_left h4]
    rw [hw, leNat_zeros, show 4 - pad = 0 by omega]
    simp [Nat.mod_one]
  · have hlow : window data (pos + pad) (4 - pad) = leBytes (4 - pad) n := by
      have hsub := window_window data (pos + pad) 4 0 (4 - pad) (by omega)
      rw [Nat.add_zero] at hsub
      rw [← hsub, hn]
      exact leBytes_take 4 (4 - pad) n (by omega)
    have hw : window data pos 4 = List.replicate pad 0 ++ leBytes (4 - pad) n := by
      rw [← hz, ← hlow, ← window_split, show pad + (4 - pad) = 4 by omega]
    rw [hw, leNat_append, leNat_zeros, leNat_leBytes, Nat.zero_add, List.length_replicate]

theorem head_word (data : Bytes) (pos : Nat) (b : Batch)
    (h : window data pos b.size = b.raw crc32) :
    window data pos 4 = leBytes 4 b.first.payload.length := by
  have hsub := window_window data pos b.size 0 4 (by have := b.size_ge; omega)
  have hraw : b.raw crc32 = b.first.encode crc32 ++ rawBytes crc32 b.recs.tail := by
    rw [b.raw_eq, b.cons_first, rawBytes, List.flatMap_cons]
    rfl
  rw [Nat.add_zero] at hsub
  rw [← hsub, h, hraw, window_append_left _ _ _ _ (by
    rw [Rec.encode_length]; unfold Rec.len recordOverhead recordFooter; omega)]
  exact (b.first.encode_fields crc32).1

theorem seam_value (data : Bytes) (base : Nat) (b b' : Batch) (bs : List Batch)
    (hpad : b.size % align ≠ 0) (h : Laid crc32 data base (b :: b' :: bs)) :
    leNat (window data (base + b.size) 4) = 256 ^ (align - b.size % align) *
      (b'.first.payload.length % 256 ^ (b.size % align - 4092)) := by
  obtain ⟨-, hz, hraw, -⟩ := h
  have hge := le_alignUp b.size
  have hn := head_word crc32 data (base + alignUp b.size) b' hraw
  have hp : alignUp b.size - b.size = align - b.size % align := by
    unfold alignUp align at *; omega
  rw [show base + alignUp b.size = base + b.size + (alignUp b.size - b.size) by omega] at hn
  rw [seam_word data (base + b.size) _ _ (hz (by simp)) hn, hp,
    show 4 - (align - b.size % align) = b.size % align - 4092 by unfold align at *; omega]

theorem seam_iff (data : Bytes) (base : Nat) (b b' : Batch) (bs : List Batch)
    (hpad : b.size % align ≠ 0) (h : Laid crc32 data base (b :: b' :: bs)) :
    leNat (window data (base + b.size) 4) = 0 ↔ Seamless b b' := by
  rw [seam_value crc32 data base b b' bs hpad h, Nat.mul_eq_zero, Seamless]
  simp

theorem scan_seam (data : Bytes) (base : Nat) (b b' : Batch) (bs : List Batch)
    (hbase : base % align = 0) (h : Laid crc32 data base (b :: b' :: bs))
    (hs : Seamless b b') :
    ∃ k, ∀ fuel last, scan crc32 data (fuel + k) (base + b.size) last =
      scan crc32 data fuel (base + alignUp b.size) last := by
  by_cases hpad : b.size % align = 0
  · refine ⟨0, fun fuel last => ?_⟩
    rw [alignUp_eq_self _ hpad, Nat.add_zero]
  · refine ⟨1, fun fuel last => ?_⟩
    have hlen : base + b.size + 4 ≤ data.length := by
      have hl := congrArg List.length h.2.2.1
      rw [window_length, Batch.raw_length] at hl
      have := b'.size_ge
      have := le_alignUp b.size
      omega
    rw [scan_skip crc32 data fuel _ last hlen
      ((seam_iff crc32 data base b b' bs hpad h).mpr hs), alignUp_add _ _ hbase]

theorem scan_bad_seam (data : Bytes) (base fuel last : Nat) (b b' : Batch) (bs : List Batch)
    (e : ScanEnd (List Visit)) (h : Laid crc32 data base (b :: b' :: bs))
    (hs : ¬ Seamless b b') (he : scan crc32 data fuel (base + b.size) last = some e) :
    ∀ v ∈ e.state, v.pos ≠ base + alignUp b.size := by
  have hpad : 4093 ≤ b.size % align := by
    by_contra hlt
    apply hs
    rw [Seamless, show b.size % align - 4092 = 0 by omega]
    simp [Nat.mod_one]
  have hword := (seam_iff crc32 data base b b' bs (by omega) h).not.mpr hs
  have hshort : alignUp b.size ≤ b.size + 3 ∧ b.size < alignUp b.size := by
    unfold alignUp align at *
    omega
  cases fuel with
  | zero => simp [scan] at he
  | succ fuel =>
    rw [scan, if_neg hword] at he
    split_ifs at he with hend
    · cases he
      simp
    · cases hd : decodeRecord crc32 data (base + b.size) with
      | error err =>
        simp only [hd] at he
        cases he
        simp
      | ok p =>
        simp only [hd, Option.map_eq_some_iff] at he
        obtain ⟨e', he', rfl⟩ := he
        have hlen := decode_len crc32 hd
        intro v hv
        rcases List.mem_cons.mp hv with rfl | hv
        · dsimp only
          omega
        · have := (scan_sound crc32 he' v hv).1
          omega

theorem scan_batch (data : Bytes) (base fuel last : Nat) (b : Batch)
    (h : window data base b.size = b.raw crc32) :
    scan crc32 data (fuel + b.recs.length) base last =
      (scan crc32 data fuel (base + b.size) (base + b.size)).map
        (prepend (b.acked crc32 base)) := by
  have hsum : b.size = b.first.len + (b.recs.tail.map Rec.len).sum := by
    unfold Batch.size
    rw [b.cons_first, List.map_cons, List.sum_cons]
    rfl
  have hraw : b.raw crc32 = b.first.encode crc32 ++ rawBytes crc32 b.recs.tail := by
    rw [b.raw_eq, b.cons_first, rawBytes, List.flatMap_cons]
    rfl
  rw [hsum, hraw, window_split] at h
  have hparts := List.append_inj h (by
    have hl := congrArg List.length h
    rw [List.length_append, List.length_append, rawBytes_length] at hl
    simp only [window_length, Rec.encode_length] at hl ⊢
    omega)
  have hfirst := b.payload_pos b.first (by rw [b.cons_first]; simp)
  have htail : ∀ r ∈ b.recs.tail, 0 < r.payload.length := fun r hr =>
    b.payload_pos r (List.mem_of_mem_tail hr)
  have hn : b.recs.length = b.recs.tail.length + 1 := by
    rw [b.cons_first]; simp
  rw [hn, ← Nat.add_assoc, scan_record crc32 data _ base last b.first hfirst hparts.1,
    scan_layout crc32 data b.recs.tail fuel _ htail hparts.2, prepend_prepend, b.acked_eq,
    hsum, Nat.add_assoc]
  congr 2
  rw [b.cons_first]
  rfl

theorem scan_chain (data : Bytes) (batches : List Batch) (base : Nat) (hne : batches ≠ [])
    (hbase : base % align = 0) (hl : Laid crc32 data base batches)
    (hc : batches.IsChain Seamless) :
    ∃ k, ∀ fuel last, scan crc32 data (fuel + k) base last =
      (scan crc32 data fuel (endOf base batches) (endOf base batches)).map
        (prepend (ackedAll crc32 base batches)) := by
  induction batches generalizing base with
  | nil => exact absurd rfl hne
  | cons b bs ih =>
    cases bs with
    | nil =>
      refine ⟨b.recs.length, fun fuel last => ?_⟩
      simpa [endOf, ackedAll] using scan_batch crc32 data base fuel last b hl.1
    | cons b' bs =>
      obtain ⟨hseam, htail⟩ := List.isChain_cons_cons.mp hc
      obtain ⟨k, hk⟩ := scan_seam crc32 data base b b' bs hbase hl hseam
      have hbase' : (base + alignUp b.size) % align = 0 := by
        rw [← alignUp_add _ _ hbase]; exact alignUp_mod _
      obtain ⟨j, hj⟩ := ih (base + alignUp b.size) (by simp) hbase' hl.2.2 htail
      refine ⟨j + k + b.recs.length, fun fuel last => ?_⟩
      rw [← Nat.add_assoc, scan_batch crc32 data base _ last b hl.1, ← Nat.add_assoc, hk, hj,
        prepend_prepend]
      rfl

theorem ackedAll_head (base : Nat) (b : Batch) (bs : List Batch) :
    ∃ v vs, ackedAll crc32 base (b :: bs) = v :: vs ∧ v.pos = base := by
  refine ⟨⟨base, b.first, b.first.len⟩,
    layout (base + b.first.len) b.recs.tail ++ ackedAll crc32 (base + alignUp b.size) bs, ?_, rfl⟩
  rw [ackedAll, b.acked_eq, b.cons_first]
  rfl

theorem layout_bounds (pos : Nat) (rs : List Rec) :
    ∀ v ∈ layout pos rs, pos ≤ v.pos ∧ v.pos + v.len ≤ pos + (rs.map Rec.len).sum := by
  induction rs generalizing pos with
  | nil => simp [layout]
  | cons r rs ih =>
    intro v hv
    rw [List.map_cons, List.sum_cons]
    rcases List.mem_cons.mp hv with rfl | hv
    · dsimp only
      omega
    · have := ih _ v hv
      omega

theorem layout_len_pos (pos : Nat) (rs : List Rec) : ∀ v ∈ layout pos rs, 0 < v.len := by
  induction rs generalizing pos with
  | nil => simp [layout]
  | cons r rs ih =>
    intro v hv
    rcases List.mem_cons.mp hv with rfl | hv
    · simp [Rec.len, recordOverhead, recordHeader]
    · exact ih _ v hv

theorem mem_layout_of_rec (pos : Nat) (rs : List Rec) :
    ∀ r ∈ rs, ∃ v ∈ layout pos rs, v.record = r := by
  induction rs generalizing pos with
  | nil => simp
  | cons r rs ih =>
    intro r' hr'
    rcases List.mem_cons.mp hr' with rfl | hr'
    · exact ⟨_, List.mem_cons_self, rfl⟩
    · obtain ⟨v, hv, rfl⟩ := ih (pos + r.len) r' hr'
      exact ⟨v, List.mem_cons_of_mem _ hv, rfl⟩

theorem acked_bounds (base : Nat) (b : Batch) :
    ∀ v ∈ b.acked crc32 base, base ≤ v.pos ∧ v.pos + v.len ≤ base + b.size := by
  rw [b.acked_eq]
  exact layout_bounds base b.recs

theorem ackedAll_pos (base : Nat) (bs : List Batch) :
    ∀ v ∈ ackedAll crc32 base bs, base ≤ v.pos := by
  induction bs generalizing base with
  | nil => simp [ackedAll]
  | cons b bs ih =>
    intro v hv
    rcases List.mem_append.mp hv with hv | hv
    · exact (acked_bounds crc32 base b v hv).1
    · have := ih _ v hv
      omega

section Visits
variable (data : Bytes) (batches : List Batch) (base fuel last : Nat) (e : ScanEnd (List Visit))

theorem chain_of_visits (hbase : base % align = 0) (hl : Laid crc32 data base batches)
    (he : scan crc32 data fuel base last = some e)
    (hall : ∀ v ∈ ackedAll crc32 base batches, v ∈ e.state) : batches.IsChain Seamless := by
  induction batches generalizing base last fuel e with
  | nil => exact List.isChain_nil
  | cons b bs ih =>
    have hrun := scan_fuel_mono crc32 data fuel b.recs.length base last e he
    rw [scan_batch crc32 data base fuel last b hl.1, Option.map_eq_some_iff] at hrun
    obtain ⟨e', he', rfl⟩ := hrun
    -- records of later batches lie behind this one, so the rest of the scan found them
    have hrest : ∀ v ∈ ackedAll crc32 (base + alignUp b.size) bs, v ∈ e'.state := by
      intro v hv
      have hpos := ackedAll_pos crc32 _ bs v hv
      rcases List.mem_append.mp (hall v (List.mem_append_right _ hv)) with hmem | hmem
      · have hb := acked_bounds crc32 base b v hmem
        have hlen : 0 < v.len := by
          rw [b.acked_eq] at hmem
          exact layout_len_pos _ _ v hmem
        have := le_alignUp b.size
        omega
      · exact hmem
    cases bs with
    | nil => exact List.isChain_singleton b
    | cons b' bs =>
      have hseam : Seamless b b' := by
        by_contra hbad
        obtain ⟨v, vs, hv, hpos⟩ := ackedAll_head crc32 (base + alignUp b.size) b' bs
        exact scan_bad_seam crc32 data base fuel _ b b' bs e' hl hbad he' v
          (hrest v (by simp [hv])) hpos
      obtain ⟨k, hk⟩ := scan_seam crc32 data base b b' bs hbase hl hseam
      have hmono := scan_fuel_mono crc32 data fuel k _ _ e' he'
      rw [hk] at hmono
      have hbase' : (base + alignUp b.size) % align = 0 := by
        rw [← alignUp_add _ _ hbase]; exact alignUp_mod _
      exact List.isChain_cons_cons.mpr
        ⟨hseam, ih (base + alignUp b.size) fuel _ e' hbase' hl.2.2 hmono hrest⟩

theorem scan_visits_iff (hbase : base % align = 0) (hl : Laid crc32 data base batches)
    (he : scan crc32 data fuel base last = some e) :
    ackedAll crc32 base batches <+: e.state ↔ batches.IsChain Seamless := by
  constructor
  · intro hpre
    exact chain_of_visits crc32 data batches base fuel last e hbase hl he
      fun v hv => hpre.subset hv
  · intro hc
    by_cases hne : batches = []
    · simp [hne, ackedAll]
    obtain ⟨k, hk⟩ := scan_chain crc32 data batches base hne hbase hl hc
    have hrun := scan_fuel_mono crc32 data fuel k base last e he
    rw [hk, Option.map_eq_some_iff] at hrun
    obtain ⟨e', -, rfl⟩ := hrun
    exact List.prefix_append _ _

end Visits

theorem scan_lastValid_of_chain (data : Bytes) (batches : List Batch) (base fuel last : Nat)
    (e : ScanEnd (List Visit)) (hne : batches ≠ []) (hbase : base % align = 0)
    (hl : Laid crc32 data base batches) (hc : batches.IsChain Seamless)
    (he : scan crc32 data fuel base last = some e) : endOf base batches ≤ e.lastValid := by
  obtain ⟨k, hk⟩ := scan_chain crc32 data batches base hne hbase hl hc
  have hrun := scan_fuel_mono crc32 data fuel k base last e he
  rw [hk, Option.map_eq_some_iff] at hrun
  obtain ⟨e', he', rfl⟩ := hrun
  have hge := scan_lastValid_ge crc32 (Nat.le_refl _) he'
  exact hge

section CleanFile

theorem fileBytes_append (u v : List Batch) :
    fileBytes crc32 (u ++ v) = fileBytes crc32 u ++ fileBytes crc32 v := by
  simp [fileBytes]

theorem fileBytes_aligned (batches : List Batch) :
    (fileBytes crc32 batches).length % align = 0 := by
  induction batches with
  | nil => rfl
  | cons b bs ih =>
    have hb := alignUp_mod b.size
    simp only [fileBytes, List.flatMap_cons, List.length_append, Batch.bytes_length] at ih ⊢
    unfold align at *
    omega

theorem endOf_append (base : Nat) (batches : List Batch) (b : Batch) :
    endOf base (batches ++ [b]) = base + (fileBytes crc32 batches).length + b.size := by
  induction batches generalizing base with
  | nil => simp [endOf, fileBytes]
  | cons c bs ih =>
    have hrec := ih (base + alignUp c.size)
    have hlen : (fileBytes crc32 (c :: bs)).length =
        alignUp c.size + (fileBytes crc32 bs).length := by
      simp [fileBytes, Batch.bytes_length]
    have hcons : endOf base (c :: (bs ++ [b])) = endOf (base + alignUp c.size) (bs ++ [b]) := by
      cases bs <;> rfl
    rw [List.cons_append, hcons, hrec, hlen]
    omega

theorem alignUp_endOf (base : Nat) (hbase : base % align = 0) (batches : List Batch)
    (hne : batches ≠ []) :
    alignUp (endOf base batches) = base + (fileBytes crc32 batches).length := by
  obtain ⟨init, b, rfl⟩ := (List.eq_nil_or_concat' batches).resolve_left hne
  have hinit := fileBytes_aligned crc32 init
  rw [endOf_append crc32, alignUp_add _ _ (by unfold align at *; omega),
    fileBytes_append, List.length_append]
  simp [fileBytes, Batch.bytes_length, Nat.add_assoc]

theorem window_padding (pre t : Bytes) (batches : List Batch) (hne : batches ≠ []) :
    window (pre ++ fileBytes crc32 batches ++ t) (endOf pre.length batches)
      (pre.length + (fileBytes crc32 batches).length - endOf pre.length batches) =
      List.replicate
        (pre.length + (fileBytes crc32 batches).length - endOf pre.length batches) 0 := by
  obtain ⟨init, b, rfl⟩ := (List.eq_nil_or_concat' batches).resolve_left hne
  have hlen : (fileBytes crc32 (init ++ [b])).length =
      (fileBytes crc32 init).length + alignUp b.size := by
    rw [fileBytes_append, List.length_append]
    simp [fileBytes, Batch.bytes_length]
  have hshape : pre ++ fileBytes crc32 (init ++ [b]) ++ t =
      (pre ++ fileBytes crc32 init ++ b.raw crc32) ++
        (List.replicate (alignUp b.size - b.size) 0 ++ t) := by
    simp [fileBytes, Batch.bytes, paddedAligned, Batch.raw_length]
  have hge := le_alignUp b.size
  rw [endOf_append crc32, hlen, hshape,
    show pre.length + ((fileBytes crc32 init).length + alignUp b.size) -
      (pre.length + (fileBytes crc32 init).length + b.size) = alignUp b.size - b.size by omega,
    show pre.length + (fileBytes crc32 init).length + b.size =
      (pre ++ fileBytes crc32 init ++ b.raw crc32).length + 0 by
        simp only [List.length_append, Batch.raw_length]; omega, window_append_right]
  simp [window]

theorem scan_clean_tail (pre : Bytes) (hpre : pre.length % align = 0) (batches : List Batch)
    (hne : batches ≠ []) (hc : batches.IsChain Seamless) (last : Nat) :
    ∃ fuel, scan crc32 (pre ++ fileBytes crc32 batches) fuel pre.length last =
      some ⟨ackedAll crc32 pre.length batches, endOf pre.length batches, false⟩ := by
  have hl : Laid crc32 (pre ++ fileBytes crc32 batches) pre.length batches := by
    simpa using laid_fileBytes crc32 pre [] batches
  have hpad := window_padding crc32 pre [] batches hne
  have hup := alignUp_endOf crc32 pre.length hpre batches hne
  rw [List.append_nil] at hpad
  rw [← List.length_append] at hpad hup
  obtain ⟨k, hk⟩ := scan_chain crc32 _ batches pre.length hne hpre hl hc
  generalize pre ++ fileBytes crc32 batches = data at *
  generalize endOf pre.length batches = stop at *
  refine ⟨2 + k, ?_⟩
  have hend : scan crc32 data 2 stop stop = some ⟨[], stop, false⟩ := by
    by_cases h4 : stop + 4 ≤ data.length
    · have hz : leNat (window data stop 4) = 0 := by
        have hsub := window_window data stop (data.length - stop) 0 4 (by omega)
        rw [Nat.add_zero, hpad] at hsub
        rw [← hsub]
        simp only [window, List.drop_zero, List.take_replicate, leNat_zeros]
      rw [scan_skip crc32 _ 1 _ _ h4 hz, hup, scan, if_pos (by omega)]
    · rw [scan, if_pos (by omega)]
  rw [hk, hend]
  simp [prepend]

theorem scan_clean_file (batches : List Batch) (hne : batches ≠ [])
    (hc : batches.IsChain Seamless) :
    ∃ fuel, scan crc32 (fileBytes crc32 batches) fuel 0 0 =
      some ⟨ackedAll crc32 0 batches, endOf 0 batches, false⟩ := by
  simpa using scan_clean_tail crc32 [] (by decide) batches hne hc 0

end CleanFile
end Folio.BatchSeams
