import Folio.ScanCompleteness
import Mathlib.Logic.Relation

/-! On which files the two recovery loops come to an end. -/
namespace Folio.ScanTermination
open ByteCodec Protocol Fjall Segment RecoveryScan CrashRecovery
variable (crc32 : Bytes → UInt32)

/-- One iteration: the next value of `pos`, or `none` if the loop is left. -/
def nextPos (data : Bytes) (pos : Nat) : Option Nat :=
  if data.length < pos + 4 then none
  else if leNat (window data pos 4) = 0 then some (alignUp pos)
  else match decodeRecord crc32 data pos with
    | .ok (_, n) => some (pos + n)
    | .error _ => none

def Iterates (data : Bytes) : Nat → Nat → Prop :=
  Relation.ReflTransGen fun pos q => nextPos crc32 data pos = some q

def Advances (data : Bytes) (start : Nat) : Prop :=
  ∀ pos q, Iterates crc32 data start pos → nextPos crc32 data pos = some q → pos < q

inductive Follows (data : Bytes) : Nat → Nat → Prop
  | here (pos : Nat) : Follows data pos pos
  | record {pos q n : Nat} {r : Rec} : 0 < r.payload.length →
      decodeRecord crc32 data pos = .ok (r, n) → Follows data (pos + n) q → Follows data pos q
  | padding {pos q : Nat} : window data pos 4 = [0, 0, 0, 0] →
      Follows data (alignUp pos) q → Follows data pos q

def ZeroBlock (data : Bytes) (pos : Nat) : Prop :=
  pos % align = 0 ∧ window data pos 4 = [0, 0, 0, 0]

def NoZeroBlock (data : Bytes) (start : Nat) : Prop :=
  ∀ q, Follows crc32 data start q → ¬ZeroBlock data q

section Iterations
variable {crc32} {data : Bytes} {pos q : Nat}

theorem leNat_eq_zero (bs : Bytes) : leNat bs = 0 ↔ bs = List.replicate bs.length 0 := by
  constructor
  · intro h
    induction bs with
    | nil => rfl
    | cons b bs ih =>
      have hb : b.toNat = 0 := by
        simp only [leNat] at h
        omega
      have hbs : leNat bs = 0 := by
        simp only [leNat] at h
        omega
      have hzero : b = 0 := UInt8.toNat_inj.mp hb
      rw [List.length_cons, List.replicate_succ, ← ih hbs, hzero]
  · intro h
    rw [h, leNat_zeros]

theorem window_eq_zeros (data : Bytes) (pos : Nat) :
    window data pos 4 = [0, 0, 0, 0] ↔ pos + 4 ≤ data.length ∧ leNat (window data pos 4) = 0 := by
  rw [leNat_eq_zero]
  constructor
  · intro h
    have hlen := congrArg List.length h
    rw [window_length] at hlen
    have h4 : [(0 : UInt8), 0, 0, 0].length = 4 := rfl
    exact ⟨by omega, by rw [h]; rfl⟩
  · rintro ⟨hlen, h⟩
    rw [h, window_length_of_le data pos 4 hlen]
    rfl

theorem word_of_decode {r : Rec} {n : Nat} (h : decodeRecord crc32 data pos = .ok (r, n)) :
    leNat (window data pos 4) = r.payload.length := by
  obtain ⟨-, hw⟩ := (decodeRecord_ok_iff crc32 data pos r n).mp h
  have hlen : 4 ≤ r.len := by
    simp only [Rec.len, recordOverhead, recordHeader]
    omega
  have hfield := (r.encode_fields crc32).1
  rw [← hw, window_window _ _ _ _ _ (by omega), Nat.add_zero] at hfield
  rw [hfield, leNat_leBytes, Nat.mod_eq_of_lt r.payload_lt]

theorem nextPos_cases (h : nextPos crc32 data pos = some q) :
    (window data pos 4 = [0, 0, 0, 0] ∧ q = alignUp pos) ∨
    ∃ r n, 0 < r.payload.length ∧ decodeRecord crc32 data pos = .ok (r, n) ∧ q = pos + n := by
  unfold nextPos at h
  split_ifs at h with hend hzero
  · cases h
    exact .inl ⟨(window_eq_zeros data pos).mpr ⟨by omega, hzero⟩, rfl⟩
  · cases hd : decodeRecord crc32 data pos with
    | error e => simp [hd] at h
    | ok p =>
      simp only [hd, Option.some.injEq] at h
      refine .inr ⟨p.1, p.2, ?_, rfl, h.symm⟩
      have := word_of_decode hd
      omega

theorem nextPos_padding (h : window data pos 4 = [0, 0, 0, 0]) :
    nextPos crc32 data pos = some (alignUp pos) := by
  obtain ⟨hlen, hzero⟩ := (window_eq_zeros data pos).mp h
  rw [nextPos, if_neg (by omega), if_pos hzero]

theorem nextPos_record {r : Rec} {n : Nat} (hr : 0 < r.payload.length)
    (h : decodeRecord crc32 data pos = .ok (r, n)) : nextPos crc32 data pos = some (pos + n) := by
  have hlen := decode_len crc32 h
  have hword := word_of_decode h
  rw [nextPos, if_neg (by omega), if_neg (by omega), h]

theorem iterates_iff_follows (start : Nat) :
    Iterates crc32 data start pos ↔ Follows crc32 data start pos := by
  constructor
  · intro h
    induction h using Relation.ReflTransGen.head_induction_on with
    | refl => exact .here pos
    | head hstep _ ih =>
      rcases nextPos_cases hstep with ⟨hzero, rfl⟩ | ⟨r, n, hr, hd, rfl⟩
      · exact .padding hzero ih
      · exact .record hr hd ih
  · intro h
    induction h with
    | here pos => exact .refl
    | record hr hd _ ih => exact .head (nextPos_record hr hd) ih
    | padding hzero _ ih => exact .head (nextPos_padding hzero) ih

theorem nextPos_advances_iff (h : nextPos crc32 data pos = some q) :
    pos < q ↔ ¬ZeroBlock data pos := by
  rcases nextPos_cases h with ⟨hzero, rfl⟩ | ⟨r, n, hr, hd, rfl⟩
  · have hle := le_alignUp pos
    have hmod := alignUp_mod pos
    constructor
    · intro hlt hblock
      rw [alignUp_eq_self pos hblock.1] at hlt
      exact Nat.lt_irrefl _ hlt
    · intro hblock
      refine Nat.lt_of_le_of_ne hle fun heq => hblock ⟨?_, hzero⟩
      rw [heq]
      exact hmod
  · have hlen := decode_len crc32 hd
    have hword := word_of_decode hd
    refine ⟨fun _ hblock => ?_, fun _ => by omega⟩
    have := ((window_eq_zeros data pos).mp hblock.2).2
    omega

theorem advances_iff (data : Bytes) (start : Nat) :
    Advances crc32 data start ↔ NoZeroBlock crc32 data start := by
  constructor
  · intro h pos hpos hblock
    have hnext : nextPos crc32 data pos = some (alignUp pos) := nextPos_padding hblock.2
    have hlt := h pos _ ((iterates_iff_follows start).mpr hpos) hnext
    exact (nextPos_advances_iff hnext).mp hlt hblock
  · intro h pos q hpos hnext
    exact (nextPos_advances_iff hnext).mpr (h pos ((iterates_iff_follows start).mp hpos))

end Iterations

section Loops
variable {crc32} {data : Bytes} {pos : Nat}

def leaves (crc32 : Bytes → UInt32) (data : Bytes) : Nat → Nat → Bool
  | 0, _ => false
  | fuel+1, pos => (nextPos crc32 data pos).all (leaves crc32 data fuel)

theorem scan_isSome (data : Bytes) (fuel pos last : Nat) :
    (scan crc32 data fuel pos last).isSome = leaves crc32 data fuel pos := by
  induction fuel generalizing pos last with
  | zero => rfl
  | succ fuel ih =>
    unfold scan leaves nextPos
    split_ifs with hend hzero
    · rfl
    · simp [ih]
    · cases decodeRecord crc32 data pos with
      | error e => rfl
      | ok p => simp [ih]

theorem leaves_of_advances {start : Nat} (h : Advances crc32 data start) (fuel : Nat)
    (hpos : Iterates crc32 data start pos) (hfuel : data.length ≤ fuel + pos) :
    leaves crc32 data (fuel + 1) pos := by
  induction fuel generalizing pos with
  | zero => rw [leaves, nextPos, if_pos (by omega), Option.all_none]
  | succ fuel ih =>
    rw [leaves, Option.all_eq_true]
    intro q hq
    have hlt := h pos q hpos hq
    exact ih (hpos.tail hq) (by omega)

theorem not_leaves_of_zeroBlock (h : ZeroBlock data pos) (fuel : Nat) :
    leaves crc32 data fuel pos = false := by
  induction fuel with
  | zero => rfl
  | succ fuel ih =>
    rw [leaves, nextPos_padding h.2, alignUp_eq_self pos h.1]
    exact ih

theorem leaves_of_iterates {start fuel : Nat} (h : leaves crc32 data fuel start)
    (hpos : Iterates crc32 data start pos) : ∃ fuel', leaves crc32 data fuel' pos := by
  induction hpos with
  | refl => exact ⟨fuel, h⟩
  | tail _ hstep ih =>
    obtain ⟨fuel', hfuel⟩ := ih
    cases fuel' with
    | zero => cases hfuel
    | succ fuel' =>
      rw [leaves, hstep] at hfuel
      exact ⟨fuel', hfuel⟩

theorem leaves_iff (data : Bytes) (start : Nat) :
    (∃ fuel, leaves crc32 data fuel start) ↔ NoZeroBlock crc32 data start := by
  constructor
  · rintro ⟨fuel, h⟩ q hq hblock
    obtain ⟨fuel', h'⟩ := leaves_of_iterates h ((iterates_iff_follows start).mpr hq)
    rw [not_leaves_of_zeroBlock hblock fuel'] at h'
    cases h'
  · intro h
    refine ⟨data.length + 1, leaves_of_advances ((advances_iff data start).mpr h) _ .refl ?_⟩
    omega

theorem scanLoop_ends_iff {σ : Type*} (visit : σ → Visit → σ) (data : Bytes) (start : Nat)
    (s : σ) :
    (∃ fuel e, scanLoop crc32 visit data fuel start start s = some e) ↔
      NoZeroBlock crc32 data start := by
  rw [← leaves_iff]
  refine exists_congr fun fuel => ?_
  rw [← scan_isSome data fuel start start, scanLoop_eq_foldl, ← Option.isSome_iff_exists,
    Option.isSome_map]

/-- Replay from a checkpoint and the scan of an entry segment end, and every iteration leaves
the loop or moves on, exactly when records and paddings do not lead to a zero block. -/
theorem recovery_loops_end_iff (crc32 : Bytes → UInt32) (data : Bytes) (checkpoint : Nat)
    (walSeg entrySeg : SegmentId) (walSt entrySt : Store) :
    ((∃ fuel e, replayWalLoop crc32 walSeg data fuel checkpoint walSt = some e) ↔
      NoZeroBlock crc32 data checkpoint) ∧
    ((∃ fuel e, recoverEntryLoop crc32 entrySeg data fuel entrySt = some e) ↔
      NoZeroBlock crc32 data 0) ∧
    ∀ start, Advances crc32 data start ↔ NoZeroBlock crc32 data start :=
  ⟨scanLoop_ends_iff _ data checkpoint walSt, scanLoop_ends_iff _ data 0 entrySt,
    advances_iff data⟩

/-- A block of zeros, such as a write leaves that was cut off before its data reached the disk. -/
def zeroFile : Bytes := List.replicate align 0

theorem zero_file_never_read :
    (∀ fuel, replayWalLoop Crc32.crc32 0 zeroFile fuel 0 ScanCompleteness.emptyStore = none) ∧
      (∀ fuel, recoverEntryLoop Crc32.crc32 0 zeroFile fuel ScanCompleteness.emptyStore = none) ∧
      nextPos Crc32.crc32 zeroFile 0 = some 0 := by
  have hblock : ZeroBlock zeroFile 0 := ⟨by decide, by decide +kernel⟩
  have hscan (fuel : Nat) : scan Crc32.crc32 zeroFile fuel 0 0 = none := by
    rw [← Option.isNone_iff_eq_none, ← Option.isSome_eq_false_iff, scan_isSome]
    exact not_leaves_of_zeroBlock hblock fuel
  refine ⟨fun fuel => ?_, fun fuel => ?_, nextPos_padding hblock.2⟩
  · rw [replayWalLoop, scanLoop_eq_foldl, hscan, Option.map_none]
  · rw [recoverEntryLoop, scanLoop_eq_foldl, hscan, Option.map_none]

end Loops
end Folio.ScanTermination
