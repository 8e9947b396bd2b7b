import Folio.ScanLocality

/-! Batches whose front is shared by two files, and what the record loop does behind the
last batch: a torn tail, a hole of zeros. -/
namespace Folio.TornTails
open ByteCodec Protocol Segment RecoveryScan BatchSeams
variable (crc32 : Bytes → UInt32)

theorem le_endOf (base : Nat) (bs : List Batch) : base ≤ endOf base bs := by
  induction bs generalizing base with
  | nil => exact Nat.le_refl _
  | cons b bs ih =>
    cases bs with
    | nil => simp [endOf]
    | cons b' bs =>
      have := ih (base + alignUp b.size)
      simp only [endOf]
      omega

theorem laid_congr {data data' : Bytes} {k : Nat} (hk : data.take k = data'.take k)
    (bs : List Batch) (base : Nat) (hend : endOf base bs ≤ k) (h : Laid crc32 data base bs) :
    Laid crc32 data' base bs := by
  induction bs generalizing base with
  | nil => trivial
  | cons b bs ih =>
    cases bs with
    | nil =>
      simp only [endOf] at hend
      exact ⟨by rw [← window_congr hk hend, h.1], fun hne => absurd rfl hne, trivial⟩
    | cons b' bs =>
      have hle := le_endOf (base + alignUp b.size) (b' :: bs)
      have hup := le_alignUp b.size
      simp only [endOf] at hend
      refine ⟨?_, fun hne => ?_, ih _ hend h.2.2⟩
      · rw [← window_congr hk (by omega), h.1]
      · rw [← window_congr hk (by omega), h.2.1 hne]

theorem layout_cover (pos x : Nat) (rs : List Rec) (hx : pos ≤ x)
    (hlt : x < pos + (rs.map Rec.len).sum) :
    ∃ v ∈ layout pos rs, v.pos ≤ x ∧ x < v.pos + v.len := by
  induction rs generalizing pos with
  | nil => simp at hlt; omega
  | cons r rs ih =>
    rw [List.map_cons, List.sum_cons] at hlt
    by_cases hin : x < pos + r.len
    · exact ⟨⟨pos, r, r.len⟩, by simp [layout], hx, hin⟩
    · obtain ⟨v, hv, hvx⟩ := ih (pos + r.len) (by omega) (by omega)
      exact ⟨v, List.mem_cons_of_mem _ hv, hvx⟩

/-- A block boundary in front of the last record's end lies in a record, since padding
stops at the next boundary. -/
theorem ackedAll_cover (x : Nat) (hx : x % align = 0) (bs : List Batch) (base : Nat)
    (hbase : base % align = 0) (hle : base ≤ x) (hlt : x < endOf base bs) :
    ∃ v ∈ ackedAll crc32 base bs, v.pos ≤ x ∧ x < v.pos + v.len := by
  induction bs generalizing base with
  | nil => simp only [endOf] at hlt; omega
  | cons b bs ih =>
    by_cases hin : x < base + b.size
    · obtain ⟨v, hv, hvx⟩ := layout_cover base x b.recs hle hin
      exact ⟨v, List.mem_append_left _ (by rwa [b.acked_eq]), hvx⟩
    · cases bs with
      | nil => simp only [endOf] at hlt; omega
      | cons b' bs =>
        have hnext : base + alignUp b.size ≤ x := by
          unfold alignUp align at *
          omega
        have hbase' : (base + alignUp b.size) % align = 0 := by
          rw [← alignUp_add _ _ hbase]; exact alignUp_mod _
        obtain ⟨v, hv, hvx⟩ := ih _ hbase' hnext hlt
        exact ⟨v, List.mem_append_right _ hv, hvx⟩

theorem intact_of_visit {data : Bytes} {fuel : Nat} {e : ScanEnd (List Visit)}
    (he : scan crc32 data fuel 0 0 = some e) {v : Visit} (hv : v ∈ e.state) :
    window data v.pos v.len = v.record.encode crc32 := by
  obtain ⟨hlen, hw⟩ :=
    (decodeRecord_ok_iff crc32 data v.pos v.record v.len).mp (scan_sound crc32 he v hv).2.2
  rw [hlen, hw]

theorem scan_torn_tail (bs : List Batch) (t : Bytes) (hne : bs ≠ []) (hc : bs.IsChain Seamless)
    (hpad : endOf 0 bs + 4 ≤ (fileBytes crc32 bs).length) (h4 : 4 ≤ t.length)
    (hword : leNat (t.take 4) ≠ 0) (hlong : t.length < leNat (t.take 4) + recordOverhead) :
    ∃ fuel, scan crc32 (fileBytes crc32 bs ++ t) fuel 0 0 =
      some ⟨ackedAll crc32 0 bs, endOf 0 bs, true⟩ := by
  have hl : Laid crc32 (fileBytes crc32 bs ++ t) 0 bs := by
    simpa using laid_fileBytes crc32 [] t bs
  have hz := window_padding crc32 [] t bs hne
  have hup := alignUp_endOf crc32 0 (by decide) bs hne
  simp only [List.nil_append, List.length_nil, Nat.zero_add] at hz hup
  obtain ⟨k, hk⟩ := scan_chain crc32 _ bs 0 hne (by decide) hl hc
  have hw : window (fileBytes crc32 bs ++ t) (fileBytes crc32 bs).length 4 = t.take 4 := by
    simp [window]
  have hlen : (fileBytes crc32 bs ++ t).length = (fileBytes crc32 bs).length + t.length :=
    List.length_append
  have hzero : leNat (window (fileBytes crc32 bs ++ t) (endOf 0 bs) 4) = 0 := by
    have hsub := window_window (fileBytes crc32 bs ++ t) (endOf 0 bs)
      ((fileBytes crc32 bs).length - endOf 0 bs) 0 4 (by omega)
    rw [Nat.add_zero, hz] at hsub
    rw [← hsub]
    simp only [window, List.drop_zero, List.take_replicate, leNat_zeros]
  generalize fileBytes crc32 bs ++ t = data at *
  refine ⟨2 + k, ?_⟩
  rw [hk, scan_skip crc32 data 1 _ _ (by omega) hzero, hup, scan, if_neg (by omega), hw,
    if_neg hword]
  have hd : ∃ err, decodeRecord crc32 data (fileBytes crc32 bs).length = .error err := by
    unfold decodeRecord
    simp only [hw, hlen]
    rw [if_neg (by omega), if_pos (by omega)]
    exact ⟨_, rfl⟩
  obtain ⟨err, hd⟩ := hd
  rw [hd]
  simp [prepend]

theorem scan_zero_block (data : Bytes) (fuel pos last : Nat) (hpos : pos % align = 0)
    (h4 : pos + 4 ≤ data.length) (hz : leNat (window data pos 4) = 0) :
    scan crc32 data fuel pos last = none := by
  induction fuel with
  | zero => rfl
  | succ fuel ih => rw [scan_skip crc32 data fuel pos last h4 hz, alignUp_eq_self pos hpos, ih]

theorem scan_hole (bs : List Batch) (front rest : Bytes) (n fuel : Nat) (hne : bs ≠ [])
    (hc : bs.IsChain Seamless) (hl : Laid crc32 front 0 bs) (hfront : front.length = endOf 0 bs)
    (hn : alignUp (endOf 0 bs) + 4 ≤ endOf 0 bs + n) :
    scan crc32 (front ++ (List.replicate n 0 ++ rest)) fuel 0 0 = none := by
  have hzero (p : Nat) (hp : endOf 0 bs ≤ p) (hp4 : p + 4 ≤ endOf 0 bs + n) :
      leNat (window (front ++ (List.replicate n 0 ++ rest)) p 4) = 0 := by
    have hw := window_append_right front (List.replicate n 0 ++ rest) (p - endOf 0 bs) 4
    rw [hfront, show endOf 0 bs + (p - endOf 0 bs) = p by omega] at hw
    rw [hw, window_append_left _ _ _ _ (by rw [List.length_replicate]; omega)]
    simp only [window, List.drop_replicate, List.take_replicate, leNat_zeros]
  have hfirst : front.take (endOf 0 bs) =
      (front ++ (List.replicate n 0 ++ rest)).take (endOf 0 bs) := by
    rw [List.take_left' hfront, ← hfront, List.take_length]
  have hl' := laid_congr crc32 hfirst bs 0 (Nat.le_refl _) hl
  have hlen : endOf 0 bs + n ≤ (front ++ (List.replicate n 0 ++ rest)).length := by
    simp only [List.length_append, List.length_replicate]
    omega
  have hup := le_alignUp (endOf 0 bs)
  generalize front ++ (List.replicate n 0 ++ rest) = data at *
  obtain ⟨k, hk⟩ := scan_chain crc32 data bs 0 hne (by decide) hl' hc
  cases hs : scan crc32 data fuel 0 0 with
  | none => rfl
  | some e =>
    have hrun := scan_fuel_mono crc32 data fuel (1 + k) 0 0 e hs
    rw [← Nat.add_assoc, hk,
      scan_skip crc32 data fuel _ _ (by omega) (hzero _ (by omega) (by omega)),
      scan_zero_block crc32 data fuel _ _ (alignUp_mod _) (by omega)
        (hzero _ (by omega) (by omega))] at hrun
    simp at hrun

end Folio.TornTails
