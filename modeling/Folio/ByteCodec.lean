import Mathlib.Tactic.Ring
import Mathlib.Data.List.Basic

/-! Fixed-width little- and big-endian byte strings, and windows of a byte string.
Nothing here knows about a particular file format. -/
namespace Folio.ByteCodec

def leBytes : Nat → Nat → List UInt8
  | 0, _ => []
  | k+1, n => UInt8.ofNat n :: leBytes k (n / 256)

def leNat : List UInt8 → Nat
  | [] => 0
  | b :: bs => b.toNat + 256 * leNat bs

def beBytes (k n : Nat) : List UInt8 := (leBytes k n).reverse
def beNat (bs : List UInt8) : Nat := leNat bs.reverse

@[simp] theorem leBytes_length (k n : Nat) : (leBytes k n).length = k := by
  induction k generalizing n with
  | zero => rfl
  | succ k ih => simp [leBytes, ih]

@[simp] theorem beBytes_length (k n : Nat) : (beBytes k n).length = k := by
  simp [beBytes]

theorem leNat_leBytes (k n : Nat) : leNat (leBytes k n) = n % 256 ^ k := by
  induction k generalizing n with
  | zero => simp [leBytes, leNat, Nat.mod_one]
  | succ k ih =>
    have hsplit : n % 256 ^ (k+1) = n % 256 + 256 * (n / 256 % 256 ^ k) := by
      rw [pow_succ', Nat.mod_mul]
    simp only [leBytes, leNat, ih, hsplit, UInt8.toNat_ofNat']

theorem beNat_beBytes (k n : Nat) : beNat (beBytes k n) = n % 256 ^ k := by
  simp [beNat, beBytes, leNat_leBytes]

theorem leNat_lt (bs : List UInt8) : leNat bs < 256 ^ bs.length := by
  induction bs with
  | nil => simp [leNat]
  | cons b bs ih =>
    have hb := b.toNat_lt
    simp only [leNat, List.length_cons, pow_succ']
    omega

theorem beNat_lt (bs : List UInt8) : beNat bs < 256 ^ bs.length := by
  simpa [beNat] using leNat_lt bs.reverse

theorem leBytes_leNat (bs : List UInt8) : leBytes bs.length (leNat bs) = bs := by
  induction bs with
  | nil => rfl
  | cons b bs ih =>
    have hb := b.toNat_lt
    have hdiv : (b.toNat + 256 * leNat bs) / 256 = leNat bs := by omega
    have hlow : UInt8.ofNat (b.toNat + 256 * leNat bs) = b := by
      apply UInt8.toNat_inj.mp
      rw [UInt8.toNat_ofNat']
      omega
    simp only [List.length_cons, leBytes, leNat, hdiv, hlow, ih]

theorem beBytes_beNat (bs : List UInt8) : beBytes bs.length (beNat bs) = bs := by
  have h := leBytes_leNat bs.reverse
  rw [List.length_reverse] at h
  simp [beBytes, beNat, h]

theorem leNat_append (u v : List UInt8) :
    leNat (u ++ v) = leNat u + 256 ^ u.length * leNat v := by
  induction u with
  | nil => simp [leNat]
  | cons b u ih =>
    simp only [List.cons_append, leNat, ih, List.length_cons, pow_succ']
    ring

theorem leNat_zeros (n : Nat) : leNat (List.replicate n 0) = 0 := by
  induction n with
  | zero => rfl
  | succ n ih => simp [List.replicate_succ, leNat, ih]

theorem leBytes_take (k j n : Nat) (h : j ≤ k) : (leBytes k n).take j = leBytes j n := by
  induction j generalizing k n with
  | zero => simp [leBytes]
  | succ j ih =>
    cases k with
    | zero => omega
    | succ k => simp [leBytes, ih k (n / 256) (by omega)]

section Order

theorem append_lt_append_iff {u u' v v' : List UInt8} (h : u.length = u'.length) :
    u ++ v < u' ++ v' ↔ u < u' ∨ u = u' ∧ v < v' := by
  induction u generalizing u' with
  | nil =>
    obtain rfl : u' = [] := List.length_eq_zero_iff.mp h.symm
    simp
  | cons b u ih =>
    cases u' with
    | nil => cases h
    | cons b' u' =>
      have hlen : u.length = u'.length := Nat.succ.inj h
      simp only [List.cons_append, List.cons_lt_cons_iff, ih hlen, List.cons.injEq]
      tauto

theorem beNat_cons (b : UInt8) (bs : List UInt8) :
    beNat (b :: bs) = beNat bs + 256 ^ bs.length * b.toNat := by
  rw [beNat, List.reverse_cons, leNat_append, List.length_reverse]
  simp [beNat, leNat]

theorem beNat_lt_beNat_iff {u v : List UInt8} (h : u.length = v.length) :
    beNat u < beNat v ↔ u < v := by
  induction u generalizing v with
  | nil =>
    obtain rfl : v = [] := List.length_eq_zero_iff.mp h.symm
    simp
  | cons b u ih =>
    cases v with
    | nil => cases h
    | cons c v =>
      have hlen : u.length = v.length := Nat.succ.inj h
      have hu := beNat_lt u
      have hv := beNat_lt v
      rw [List.cons_lt_cons_iff, ← ih hlen, beNat_cons, beNat_cons, hlen, UInt8.lt_iff_toNat_lt,
        ← UInt8.toNat_inj]
      rw [hlen] at hu
      rcases Nat.lt_trichotomy b.toNat c.toNat with hlt | heq | hgt
      · have hmul := Nat.mul_le_mul_left (256 ^ v.length) (Nat.succ_le_of_lt hlt)
        rw [Nat.mul_succ] at hmul
        exact iff_of_true (by omega) (.inl hlt)
      · rw [heq]
        simp
      · have hmul := Nat.mul_le_mul_left (256 ^ v.length) (Nat.succ_le_of_lt hgt)
        rw [Nat.mul_succ] at hmul
        exact iff_of_false (by omega) (by omega)

theorem beBytes_lt_beBytes_iff {k n m : Nat} (hn : n < 256 ^ k) (hm : m < 256 ^ k) :
    beBytes k n < beBytes k m ↔ n < m := by
  rw [← beNat_lt_beNat_iff (by simp), beNat_beBytes, beNat_beBytes, Nat.mod_eq_of_lt hn,
    Nat.mod_eq_of_lt hm]

end Order
section Window
variable {α : Type*}

def window (data : List α) (pos n : Nat) : List α := (data.drop pos).take n

theorem window_length (data : List α) (pos n : Nat) :
    (window data pos n).length = min n (data.length - pos) := by
  simp [window]

theorem window_length_of_le (data : List α) (pos n : Nat) (h : pos + n ≤ data.length) :
    (window data pos n).length = n := by
  rw [window_length]
  omega

theorem window_append_left (u v : List α) (pos n : Nat) (h : pos + n ≤ u.length) :
    window (u ++ v) pos n = window u pos n := by
  unfold window
  rw [List.drop_append_of_le_length (by omega),
    List.take_append_of_le_length (by simp; omega)]

theorem window_append_right (u v : List α) (pos n : Nat) :
    window (u ++ v) (u.length + pos) n = window v pos n := by
  unfold window
  rw [← List.drop_drop, List.drop_left]

theorem window_prefix (u v : List α) : window (u ++ v) 0 u.length = u := by
  simp [window]

theorem window_part {i n : Nat} (u v w : List α) (hu : u.length = i) (hv : v.length = n) :
    window (u ++ (v ++ w)) i n = v := by
  have h := window_append_right u (v ++ w) 0 n
  rw [hu, Nat.add_zero] at h
  rw [h, ← hv, window_prefix]

theorem window_window (data : List α) (pos n off m : Nat) (h : off + m ≤ n) :
    window (window data pos n) off m = window data (pos + off) m := by
  unfold window
  rw [List.drop_take, List.drop_drop, List.take_take]
  congr 1
  omega

theorem window_split (data : List α) (pos n m : Nat) :
    window data pos (n+m) = window data pos n ++ window data (pos + n) m := by
  unfold window
  rw [List.take_add, List.drop_drop]

theorem window_congr {u v : List α} {k pos n : Nat} (h : u.take k = v.take k)
    (hn : pos + n ≤ k) : window u pos n = window v pos n := by
  have hw (d : List α) : window d pos n = window (d.take k) pos n := by
    unfold window
    rw [List.drop_take, List.take_take, min_eq_left (by omega)]
  rw [hw u, hw v, h]

end Window
end Folio.ByteCodec
