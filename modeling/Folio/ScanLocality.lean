import Folio.BatchSeams

/-! The record loop only looks at the bytes it passes: how a scan changes when the file
behind a position is cut off, extended or rewritten. -/
namespace Folio.ScanLocality
open ByteCodec Protocol Segment RecoveryScan BatchSeams
variable (crc32 : Bytes → UInt32) {data data' : Bytes} {fuel pos last : Nat}
  {e : ScanEnd (List Visit)}

theorem scan_pairwise (h : scan crc32 data fuel pos last = some e) :
    e.state.Pairwise fun u v => u.pos + u.len ≤ v.pos := by
  refine scan_induct crc32 (motive := fun _ _ e =>
    e.state.Pairwise fun u v => u.pos + u.len ≤ v.pos) ?_ ?_ ?_ ?_ h
  · intros; exact List.Pairwise.nil
  · intros; exact List.Pairwise.nil
  · intro _ _ _ _ _ _ _ ih; exact ih
  · intro fuel pos last r n e _ _ _ he ih
    refine List.Pairwise.cons (fun v hv => ?_) ih
    exact (scan_sound crc32 he v hv).1

theorem visit_unique (h : scan crc32 data fuel pos last = some e) {u v : Visit} {x : Nat}
    (hu : u ∈ e.state) (hv : v ∈ e.state) (hux : u.pos ≤ x ∧ x < u.pos + u.len)
    (hvx : v.pos ≤ x ∧ x < v.pos + v.len) : u = v := by
  let Same : Visit → Visit → Prop := fun u v =>
    u.pos ≤ x ∧ x < u.pos + u.len → v.pos ≤ x ∧ x < v.pos + v.len → u = v
  have hsymm : Std.Symm Same := ⟨fun u v huv hv hu => (huv hu hv).symm⟩
  have hpair : e.state.Pairwise Same :=
    (scan_pairwise crc32 h).imp fun hle hux hvx => by omega
  exact hpair.forall_of_forall (fun _ _ _ _ => rfl) hu hv hux hvx

section SharedFront

theorem decode_congr {k n : Nat} {r : Rec} (hk : data.take k = data'.take k) (hn : pos + n ≤ k)
    (h : decodeRecord crc32 data pos = .ok (r, n)) :
    decodeRecord crc32 data' pos = .ok (r, n) := by
  rw [decodeRecord_ok_iff] at h ⊢
  exact ⟨h.1, by rw [← window_congr hk (by omega), h.2]⟩

theorem length_of_front {k : Nat} (hk : data.take k = data'.take k) (hd : k ≤ data.length) :
    k ≤ data'.length := by
  have hl := congrArg List.length hk
  simp only [List.length_take] at hl
  omega

theorem scan_step_record {n : Nat} {r : Rec} (h4 : pos + 4 ≤ data.length)
    (hz : leNat (window data pos 4) ≠ 0) (hd : decodeRecord crc32 data pos = .ok (r, n)) :
    scan crc32 data (fuel + 1) pos last =
      (scan crc32 data fuel (pos + n) (pos + n)).map (prepend [⟨pos, r, n⟩]) := by
  rw [scan, if_neg (by omega), if_neg hz, hd]
  rfl

theorem scan_lastValid_cases (h : scan crc32 data fuel pos last = some e) :
    (e.state = [] ∧ e.lastValid = last) ∨ pos + 24 ≤ e.lastValid ∧ e.lastValid ≤ data.length := by
  refine scan_induct crc32 (motive := fun pos last e => (e.state = [] ∧ e.lastValid = last) ∨
    pos + 24 ≤ e.lastValid ∧ e.lastValid ≤ data.length) ?_ ?_ ?_ ?_ h
  · intros; exact .inl ⟨rfl, rfl⟩
  · intros; exact .inl ⟨rfl, rfl⟩
  · intro _ pos last e _ _ _ ih
    refine ih.imp_right fun hge => ?_
    have := le_alignUp pos
    omega
  · intro _ pos last r n e _ _ hd _ ih
    have hn := decode_len crc32 hd
    right
    rcases ih with ⟨-, hl⟩ | hge
    · simp only [prepend, hl]
      omega
    · simp only [prepend]
      omega

theorem scan_take (hle : last ≤ pos) (h : scan crc32 data fuel pos last = some e) :
    scan crc32 (data.take e.lastValid) fuel pos last = some ⟨e.state, e.lastValid, false⟩ := by
  have hself : ∀ k, data.take k = (data.take k).take k := fun k => by
    rw [List.take_take, Nat.min_self]
  induction fuel generalizing pos last e with
  | zero => simp [scan] at h
  | succ fuel ih =>
    unfold scan at h
    split_ifs at h with hend hzero
    · cases h
      rw [scan, if_pos (by simp only [List.length_take]; omega)]
    · have hup := le_alignUp pos
      rcases scan_lastValid_cases crc32 h with ⟨hnil, hlast⟩ | hge
      · rw [scan, if_pos (by rw [List.length_take]; omega), hnil, hlast]
      · rw [scan_skip crc32 _ fuel pos last (by rw [List.length_take]; omega)
          (by rw [← window_congr (hself _) (by omega)]; exact hzero)]
        exact ih (hle.trans hup) h
    · cases hd : decodeRecord crc32 data pos with
      | error err =>
        simp only [hd] at h
        cases h
        rw [scan, if_pos (by simp only [List.length_take]; omega)]
      | ok p =>
        obtain ⟨r, n⟩ := p
        simp only [hd, Option.map_eq_some_iff] at h
        obtain ⟨e', he', rfl⟩ := h
        have hn := decode_len crc32 hd
        have hge := scan_lastValid_ge crc32 (Nat.le_refl _) he'
        dsimp only
        rw [scan_step_record crc32 (by rw [List.length_take]; omega)
          (by rw [← window_congr (hself _) (by omega)]; exact hzero)
          (decode_congr crc32 (hself _) (by omega) hd), ih (Nat.le_refl _) he']
        rfl

/-- A torn record starts inside the file, so the cut in front of it does not extend the file. -/
theorem scan_torn_fits (hle : last ≤ pos) (h : scan crc32 data fuel pos last = some e)
    (htorn : e.torn = true) : e.lastValid ≤ data.length := by
  revert hle htorn
  refine scan_induct crc32 (motive := fun pos last e => last ≤ pos → e.torn = true →
    e.lastValid ≤ data.length) ?_ ?_ ?_ ?_ h
  · simp
  · intro pos last _ hlen _ _ hle _
    dsimp only
    omega
  · intro _ pos _ _ _ _ _ ih hle
    exact ih (hle.trans (le_alignUp pos))
  · intro _ _ _ _ _ _ _ _ _ _ ih _
    exact ih (Nat.le_refl _)

theorem scan_behind_last (h : scan crc32 data fuel pos last = some e) :
    (e.state = [] ∧ e.lastValid = last) ∨
      scan crc32 data fuel e.lastValid e.lastValid = some ⟨[], e.lastValid, e.torn⟩ := by
  induction fuel generalizing pos last e with
  | zero => simp [scan] at h
  | succ fuel ih =>
    unfold scan at h
    split_ifs at h with hend hzero
    · cases h
      exact .inl ⟨rfl, rfl⟩
    · exact (ih h).imp_right (scan_fuel_mono crc32 _ _ 1 _ _ _)
    · cases hd : decodeRecord crc32 data pos with
      | error err =>
        simp only [hd] at h
        cases h
        exact .inl ⟨rfl, rfl⟩
      | ok p =>
        simp only [hd, Option.map_eq_some_iff] at h
        obtain ⟨e', he', rfl⟩ := h
        right
        apply scan_fuel_mono crc32 _ _ 1
        rcases ih he' with ⟨hnil, hlast⟩ | hagain
        · obtain ⟨state, valid, torn⟩ := e'
          cases hnil
          cases hlast
          exact he'
        · exact hagain

theorem scan_again (h : scan crc32 data fuel pos pos = some e) :
    scan crc32 data fuel e.lastValid e.lastValid = some ⟨[], e.lastValid, e.torn⟩ := by
  rcases scan_behind_last crc32 h with ⟨hnil, hlast⟩ | hagain
  · obtain ⟨state, valid, torn⟩ := e
    cases hnil
    cases hlast
    exact h
  · exact hagain

theorem scan_take_quiet (n : Nat) (h : scan crc32 data fuel pos last = some ⟨[], last, false⟩) :
    scan crc32 (data.take n) fuel pos last = some ⟨[], last, false⟩ := by
  induction fuel generalizing pos with
  | zero => simp [scan] at h
  | succ fuel ih =>
    have hshort := List.length_take_le' n data
    unfold scan at h ⊢
    split_ifs at h with hend hzero
    · rw [if_pos (by omega)]
    · by_cases hcut : (data.take n).length < pos + 4
      · rw [if_pos hcut]
      · have hle := List.length_take_le n data
        have hword : window (data.take n) pos 4 = window data pos 4 :=
          window_congr (by rw [List.take_take, Nat.min_self]) (show pos + 4 ≤ n by omega)
        rw [if_neg hcut, if_pos (by rw [hword]; exact hzero)]
        exact ih h
    · cases hd : decodeRecord crc32 data pos <;> simp [hd] at h

theorem scan_suffix {v : Visit} (h : scan crc32 data fuel pos last = some e) (hv : v ∈ e.state) :
    ∃ e', scan crc32 data fuel (v.pos + v.len) (v.pos + v.len) = some e' ∧
      (∀ u, u ∈ e'.state ↔ u ∈ e.state ∧ v.pos + v.len ≤ u.pos) ∧
      e'.lastValid = e.lastValid ∧ e'.torn = e.torn := by
  induction fuel generalizing pos last e with
  | zero => simp [scan] at h
  | succ fuel ih =>
    unfold scan at h
    split_ifs at h with hend hzero
    · cases h
      simp at hv
    · obtain ⟨e', he', hrest⟩ := ih h hv
      exact ⟨e', scan_fuel_mono crc32 _ _ 1 _ _ _ he', hrest⟩
    · cases hd : decodeRecord crc32 data pos with
      | error err =>
        simp only [hd] at h
        cases h
        simp at hv
      | ok p =>
        simp only [hd, Option.map_eq_some_iff] at h
        obtain ⟨e₁, he₁, rfl⟩ := h
        have hlen := (decode_len crc32 hd).1
        have hbehind := scan_sound crc32 he₁
        rcases List.mem_cons.mp hv with rfl | hv
        · refine ⟨e₁, scan_fuel_mono crc32 _ _ 1 _ _ _ he₁, fun u => ?_, rfl, rfl⟩
          constructor
          · exact fun hu => ⟨List.mem_cons_of_mem _ hu, (hbehind u hu).1⟩
          · rintro ⟨hu, hpos⟩
            rcases List.mem_cons.mp hu with rfl | hu
            · dsimp only at hpos
              omega
            · exact hu
        · obtain ⟨e', he', hsub, hlast, htorn⟩ := ih he₁ hv
          refine ⟨e', scan_fuel_mono crc32 _ _ 1 _ _ _ he', fun u => ?_, hlast, htorn⟩
          rw [hsub]
          constructor
          · exact fun hu => ⟨List.mem_cons_of_mem _ hu.1, hu.2⟩
          · rintro ⟨hu, hpos⟩
            rcases List.mem_cons.mp hu with rfl | hu
            · have := (hbehind v hv).1
              dsimp only at hpos
              omega
            · exact ⟨hu, hpos⟩

theorem scan_lastValid_end (h : scan crc32 data fuel pos last = some e) :
    (e.state = [] ∧ e.lastValid = last) ∨ ∃ v ∈ e.state, v.pos + v.len = e.lastValid := by
  refine scan_induct crc32 (motive := fun _ last e => (e.state = [] ∧ e.lastValid = last) ∨
    ∃ v ∈ e.state, v.pos + v.len = e.lastValid) ?_ ?_ ?_ ?_ h
  · intros; exact .inl ⟨rfl, rfl⟩
  · intros; exact .inl ⟨rfl, rfl⟩
  · intro _ _ _ _ _ _ _ ih; exact ih
  · intro _ pos last r n e _ _ _ _ ih
    right
    rcases ih with ⟨-, hlast⟩ | ⟨v, hv, hend⟩
    · exact ⟨⟨pos, r, n⟩, List.mem_append_left _ (List.mem_singleton.mpr rfl), hlast.symm⟩
    · exact ⟨v, List.mem_append_right _ hv, hend⟩

variable {cut : Nat}

theorem scan_extend (hcut : cut % align = 0) (hlen : data.length = cut)
    (hfront : data'.take cut = data) (hpos : pos ≤ cut)
    (hat : pos = last ∨ pos % align = 0) (h : scan crc32 data fuel pos last = some e)
    (htorn : e.torn = false) (hrest : cut ≤ e.lastValid ∨ e.lastValid + 4 ≤ cut) :
    ∃ k, ∀ fuel', scan crc32 data' (fuel' + k) pos last =
      (scan crc32 data' fuel' cut e.lastValid).map (prepend e.state) := by
  have hk : data.take cut = data'.take cut := by
    rw [hfront, ← hlen, List.take_length]
  have hlen' := length_of_front hk hlen.ge
  revert hpos hat htorn hrest
  refine scan_induct crc32 (motive := fun pos last e => pos ≤ cut → pos = last ∨ pos % align = 0 →
    e.torn = false → cut ≤ e.lastValid ∨ e.lastValid + 4 ≤ cut → ∃ k, ∀ fuel',
      scan crc32 data' (fuel' + k) pos last =
        (scan crc32 data' fuel' cut e.lastValid).map (prepend e.state)) ?_ ?_ ?_ ?_ h
  · intro pos last hstop hpos hat _ hrest
    have hend : pos = cut := by
      unfold align at *
      dsimp only at hrest
      omega
    refine ⟨0, fun fuel' => ?_⟩
    rw [hend, Nat.add_zero]
    cases scan crc32 data' fuel' cut last <;> rfl
  · intro _ _ _ _ _ _ _ _ htorn
    simp at htorn
  · intro _ pos last e h4 hz _ ih hpos hat htorn hrest
    have hup : alignUp pos ≤ cut := by
      unfold alignUp align at *
      omega
    obtain ⟨k, hrun⟩ := ih hup (.inr (alignUp_mod pos)) htorn hrest
    refine ⟨k + 1, fun fuel' => ?_⟩
    rw [← Nat.add_assoc, scan_skip crc32 _ _ _ _ (by omega), hrun]
    rw [← window_congr hk (by omega)]
    exact hz
  · intro _ pos last r n e h4 hz hd _ ih hpos hat htorn hrest
    have hn := decode_len crc32 hd
    obtain ⟨k, hrun⟩ := ih (by omega) (.inl rfl) htorn hrest
    refine ⟨k + 1, fun fuel' => ?_⟩
    rw [← Nat.add_assoc, scan_step_record crc32 (by omega)
      (by rw [← window_congr hk (by omega)]; exact hz) (decode_congr crc32 hk (by omega) hd), hrun,
      prepend_prepend]
    rfl

theorem scan_cut (hlen : data'.length = cut) (hfront : data.take cut = data')
    (hword : ∀ p, p < cut → cut < p + 4 → leNat (window data p 4) ≠ 0) (hpos : pos ≤ cut)
    (hle : last ≤ pos) (hat : pos = cut → cut ≤ last ∨ last + 4 ≤ cut)
    (h : scan crc32 data fuel pos last = some e) (hv : ∃ v ∈ e.state, v.pos = cut) :
    ∃ fuel' e', scan crc32 data' fuel' pos last = some e' ∧ e'.torn = false ∧
      (cut ≤ e'.lastValid ∨ e'.lastValid + 4 ≤ cut) := by
  have hk : data.take cut = data'.take cut := by
    rw [hfront, ← hlen, List.take_length]
  revert hpos hle hat hv
  refine scan_induct crc32 (motive := fun pos last e => pos ≤ cut → last ≤ pos →
    (pos = cut → cut ≤ last ∨ last + 4 ≤ cut) → (∃ v ∈ e.state, v.pos = cut) →
    ∃ fuel' e', scan crc32 data' fuel' pos last = some e' ∧ e'.torn = false ∧
      (cut ≤ e'.lastValid ∨ e'.lastValid + 4 ≤ cut)) ?_ ?_ ?_ ?_ h
  · simp
  · simp
  · intro _ pos last e h4 hz hscan ih hpos hle hat hv
    by_cases hc : pos = cut
    · refine ⟨1, ⟨[], last, false⟩, ?_, rfl, hat hc⟩
      rw [scan, if_pos (by omega)]
    have hbefore : pos + 4 ≤ cut := by
      by_contra hlt
      exact hword pos (by omega) (by omega) hz
    have hup : alignUp pos ≤ cut := by
      obtain ⟨v, hmem, hvp⟩ := hv
      rw [← hvp]
      exact (scan_sound crc32 hscan v hmem).1
    obtain ⟨fuel', e', hrun, hrest⟩ := ih hup (hle.trans (le_alignUp pos)) (by omega) hv
    refine ⟨fuel' + 1, e', ?_, hrest⟩
    rw [scan_skip crc32 _ _ _ _ (by omega), hrun]
    rw [← window_congr hk (by omega)]
    exact hz
  · intro _ pos last r n e h4 hz hd hscan ih hpos hle hat hv
    by_cases hc : pos = cut
    · refine ⟨1, ⟨[], last, false⟩, ?_, rfl, hat hc⟩
      rw [scan, if_pos (by omega)]
    have hn := decode_len crc32 hd
    have hin : ∃ v ∈ e.state, v.pos = cut := by
      obtain ⟨v, hmem, hvp⟩ := hv
      rcases List.mem_cons.mp hmem with rfl | hmem
      · exact absurd hvp hc
      · exact ⟨v, hmem, hvp⟩
    have hup : pos + n ≤ cut := by
      obtain ⟨v, hmem, hvp⟩ := hin
      rw [← hvp]
      exact (scan_sound crc32 hscan v hmem).1
    obtain ⟨fuel', e', hrun, htorn, hrest⟩ := ih hup (Nat.le_refl _) (by omega) hin
    refine ⟨fuel' + 1, prepend [⟨pos, r, n⟩] e', ?_, htorn, hrest⟩
    rw [scan_step_record crc32 (by omega) (by rw [← window_congr hk (by omega)]; exact hz)
      (decode_congr crc32 hk (by omega) hd), hrun]
    rfl

end SharedFront
end Folio.ScanLocality
