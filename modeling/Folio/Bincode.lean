import Folio.ByteCodec
import Folio.EncodedTable
import Mathlib.Data.List.Nodup

/-! Values written one behind the other and read from the front of a byte string: numbers of
fixed width, options, sequences, texts, enumerations and records, as bincode 1.3 writes them. -/
namespace Folio.Bincode
open ByteCodec

inductive DecodeError where
  | unexpectedEof
  | invalidBool (b : UInt8)
  | invalidTag (b : UInt8)
  | invalidVariant (i : Nat)
  | invalidUtf8 (bs : List UInt8)
  deriving DecidableEq

/-- A writer and a reader. What fits is read back with the rest untouched, and nothing is read
that has not been written so. -/
structure Codec (α : Type) where
  Fits : α → Prop
  enc : α → List UInt8
  dec : List UInt8 → Except DecodeError (α × List UInt8)
  dec_enc : ∀ a, Fits a → ∀ rest, dec (enc a ++ rest) = .ok (a, rest)
  enc_dec : ∀ bs a rest, dec bs = .ok (a, rest) → Fits a ∧ bs = enc a ++ rest

namespace Codec
variable {α β : Type}

/-- One value from the front; bytes behind it are ignored. -/
def read (c : Codec α) (bs : List UInt8) : Except DecodeError α := (c.dec bs).map Prod.fst

section Laws
variable (c : Codec α) {a : α}

theorem read_append (h : c.Fits a) (rest : List UInt8) : c.read (c.enc a ++ rest) = .ok a := by
  rw [read, c.dec_enc a h]
  rfl

theorem read_enc (h : c.Fits a) : c.read (c.enc a) = .ok a := by
  have hread := c.read_append h []
  rwa [List.append_nil] at hread

def rowFormat {Fits : α → Prop} (h : ∀ a, Fits a → c.Fits a) :
    EncodedTable.RowFormat DecodeError Fits where
  enc := c.enc
  read := c.read
  read_enc a ha := c.read_enc (h a ha)

end Laws

section Numbers

def split (k : Nat) (bs : List UInt8) : Except DecodeError (List UInt8 × List UInt8) :=
  if bs.length < k then .error .unexpectedEof else .ok (bs.take k, bs.drop k)

theorem split_append {k : Nat} {u : List UInt8} (h : u.length = k) (rest : List UInt8) :
    split k (u ++ rest) = .ok (u, rest) := by
  subst h
  rw [split, if_neg (by simp), List.take_left, List.drop_left]

theorem split_eq_ok {k : Nat} {bs u rest : List UInt8} (h : split k bs = .ok (u, rest)) :
    u.length = k ∧ bs = u ++ rest := by
  unfold split at h
  split at h
  · cases h
  · rename_i hlen
    cases h
    exact ⟨List.length_take_of_le (Nat.not_lt.mp hlen), (List.take_append_drop k bs).symm⟩

def uint (k : Nat) : Codec Nat where
  Fits n := n < 256 ^ k
  enc n := leBytes k n
  dec bs := (split k bs).map fun r => (leNat r.1, r.2)
  dec_enc n hn rest := by
    rw [split_append (leBytes_length k n), Except.map, leNat_leBytes, Nat.mod_eq_of_lt hn]
  enc_dec bs n rest h := by
    obtain ⟨⟨u, r⟩, hsplit, heq⟩ := Except.map_eq_ok.mp h
    cases heq
    obtain ⟨rfl, hbs⟩ := split_eq_ok hsplit
    rw [leBytes_leNat]
    exact ⟨leNat_lt u, hbs⟩

def bytes (k : Nat) : Codec { b : List UInt8 // b.length = k } where
  Fits _ := True
  enc b := b.1
  dec bs :=
    if h : bs.length < k then .error .unexpectedEof
    else .ok (⟨bs.take k, List.length_take_of_le (Nat.not_lt.mp h)⟩, bs.drop k)
  dec_enc b _ rest := by
    obtain ⟨b, rfl⟩ := b
    simp
  enc_dec bs b rest h := by
    split at h
    · cases h
    · cases h
      exact ⟨trivial, (List.take_append_drop k bs).symm⟩

def byte : Codec UInt8 where
  Fits _ := True
  enc b := [b]
  dec
    | [] => .error .unexpectedEof
    | b :: rest => .ok (b, rest)
  dec_enc _ _ _ := rfl
  enc_dec bs b rest h := by
    cases bs with
    | nil => cases h
    | cons b' rest' =>
      cases h
      exact ⟨trivial, rfl⟩

end Numbers

section Records

def pair (c : Codec α) (d : Codec β) : Codec (α × β) where
  Fits p := c.Fits p.1 ∧ d.Fits p.2
  enc p := c.enc p.1 ++ d.enc p.2
  dec bs := (c.dec bs).bind fun r => (d.dec r.2).map fun q => ((r.1, q.1), q.2)
  dec_enc p h rest := by
    rw [List.append_assoc, c.dec_enc p.1 h.1, Except.bind, d.dec_enc p.2 h.2]
    rfl
  enc_dec bs p rest h := by
    obtain ⟨r, hc, hr⟩ := Except.bind_eq_ok.mp h
    obtain ⟨q, hd, hq⟩ := Except.map_eq_ok.mp hr
    cases hq
    obtain ⟨hfits, hbs⟩ := c.enc_dec _ _ _ hc
    obtain ⟨hfits', hrest⟩ := d.enc_dec _ _ _ hd
    refine ⟨⟨hfits, hfits'⟩, ?_⟩
    rw [hbs, hrest, List.append_assoc]

def iso (c : Codec α) (f : α → β) (g : β → α) (hfg : ∀ b, f (g b) = b) (hgf : ∀ a, g (f a) = a) :
    Codec β where
  Fits b := c.Fits (g b)
  enc b := c.enc (g b)
  dec bs := (c.dec bs).map fun r => (f r.1, r.2)
  dec_enc b h rest := by
    rw [c.dec_enc (g b) h, Except.map, hfg]
  enc_dec bs b rest h := by
    obtain ⟨r, hc, hr⟩ := Except.map_eq_ok.mp h
    cases hr
    rw [hgf]
    exact c.enc_dec _ _ _ hc

end Records

section Tags

def bool : Codec Bool where
  Fits _ := True
  enc b := [if b then 1 else 0]
  dec bs := (byte.dec bs).bind fun r =>
    if r.1 = 1 then .ok (true, r.2) else if r.1 = 0 then .ok (false, r.2)
    else .error (.invalidBool r.1)
  dec_enc b _ rest := by cases b <;> rfl
  enc_dec bs b rest h := by
    obtain ⟨⟨t, r⟩, hbyte, hr⟩ := Except.bind_eq_ok.mp h
    obtain ⟨-, rfl⟩ := byte.enc_dec _ _ _ hbyte
    dsimp only at hr
    split_ifs at hr with h1 h0
    · cases hr
      exact ⟨trivial, congrArg (· :: rest) h1⟩
    · cases hr
      exact ⟨trivial, congrArg (· :: rest) h0⟩

def option (c : Codec α) : Codec (Option α) where
  Fits o := ∀ a, o = some a → c.Fits a
  enc
    | none => [0]
    | some a => 1 :: c.enc a
  dec bs := (byte.dec bs).bind fun r =>
    if r.1 = 0 then .ok (none, r.2)
    else if r.1 = 1 then (c.dec r.2).map fun q => (some q.1, q.2)
    else .error (.invalidTag r.1)
  dec_enc o h rest := by
    cases o with
    | none => rfl
    | some a =>
      change (c.dec (c.enc a ++ rest)).map (fun q => (some q.1, q.2)) = _
      rw [c.dec_enc a (h a rfl)]
      rfl
  enc_dec bs o rest h := by
    obtain ⟨⟨t, r⟩, hbyte, hr⟩ := Except.bind_eq_ok.mp h
    obtain ⟨-, rfl⟩ := byte.enc_dec _ _ _ hbyte
    dsimp only at hr
    split_ifs at hr with h0 h1
    · cases hr
      refine ⟨?_, congrArg (· :: rest) h0⟩
      rintro a ⟨⟩
    · obtain ⟨q, hq, heq⟩ := Except.map_eq_ok.mp hr
      cases heq
      obtain ⟨hfits, hrest⟩ := c.enc_dec _ _ _ hq
      refine ⟨?_, ?_⟩
      · rintro a ⟨⟩
        exact hfits
      · rw [h1, hrest]
        rfl

def enumeration [DecidableEq α] (all : List α) (hn : all.Nodup) (hlen : all.length ≤ 256 ^ 4) :
    Codec α where
  Fits a := a ∈ all
  enc a := (uint 4).enc (all.idxOf a)
  dec bs := ((uint 4).dec bs).bind fun r =>
    match all[r.1]? with
    | some a => .ok (a, r.2)
    | none => .error (.invalidVariant r.1)
  dec_enc a h rest := by
    have hlt : all.idxOf a < 256 ^ 4 := (List.idxOf_lt_length_iff.mpr h).trans_le hlen
    rw [(uint 4).dec_enc _ hlt, Except.bind, List.getElem?_idxOf h]
  enc_dec bs a rest h := by
    obtain ⟨⟨i, r⟩, hnum, hr⟩ := Except.bind_eq_ok.mp h
    obtain ⟨-, hbs⟩ := (uint 4).enc_dec _ _ _ hnum
    dsimp only at hr
    split at hr
    · rename_i a' hget
      cases hr
      obtain ⟨hi, rfl⟩ := List.getElem?_eq_some_iff.mp hget
      refine ⟨List.getElem_mem hi, ?_⟩
      rw [hn.idxOf_getElem]
      exact hbs
    · cases hr

end Tags

section Sequences
variable {bs : List UInt8}

def times (c : Codec α) : Nat → List UInt8 → Except DecodeError (List α × List UInt8)
  | 0, bs => .ok ([], bs)
  | n + 1, bs => (c.dec bs).bind fun r => (times c n r.2).map fun q => (r.1 :: q.1, q.2)

theorem times_enc (c : Codec α) (l : List α) (h : ∀ a ∈ l, c.Fits a) (rest : List UInt8) :
    times c l.length (l.flatMap c.enc ++ rest) = .ok (l, rest) := by
  induction l with
  | nil => rfl
  | cons a l ih =>
    have hrest := ih fun b hb => h b (List.mem_cons_of_mem a hb)
    rw [List.length_cons, times, List.flatMap_cons, List.append_assoc,
      c.dec_enc a (h a List.mem_cons_self), Except.bind, hrest]
    rfl

theorem times_dec {c : Codec α} {n : Nat} {l : List α} {rest : List UInt8}
    (h : times c n bs = .ok (l, rest)) :
    l.length = n ∧ (∀ a ∈ l, c.Fits a) ∧ bs = l.flatMap c.enc ++ rest := by
  induction n generalizing bs l with
  | zero =>
    cases h
    exact ⟨rfl, List.forall_mem_nil _, rfl⟩
  | succ n ih =>
    obtain ⟨r, hc, hr⟩ := Except.bind_eq_ok.mp h
    obtain ⟨q, hq, heq⟩ := Except.map_eq_ok.mp hr
    cases heq
    obtain ⟨hfits, hbs⟩ := c.enc_dec _ _ _ hc
    obtain ⟨hlen, hall, hrest⟩ := ih hq
    refine ⟨congrArg Nat.succ hlen, fun a ha => ?_, ?_⟩
    · rcases List.mem_cons.mp ha with rfl | ha
      · exact hfits
      · exact hall a ha
    · rw [hbs, hrest, List.flatMap_cons, List.append_assoc]

def seq (c : Codec α) : Codec (List α) where
  Fits l := l.length < 256 ^ 8 ∧ ∀ a ∈ l, c.Fits a
  enc l := (uint 8).enc l.length ++ l.flatMap c.enc
  dec bs := ((uint 8).dec bs).bind fun r => times c r.1 r.2
  dec_enc l h rest := by
    rw [List.append_assoc, (uint 8).dec_enc _ h.1, Except.bind, times_enc c l h.2]
  enc_dec bs l rest h := by
    obtain ⟨⟨n, r⟩, hnum, hr⟩ := Except.bind_eq_ok.mp h
    obtain ⟨hn, hbs⟩ := (uint 8).enc_dec _ _ _ hnum
    obtain ⟨rfl, hfits, hrest⟩ := times_dec hr
    dsimp only at hrest
    refine ⟨⟨hn, hfits⟩, ?_⟩
    rw [hbs, hrest, List.append_assoc]

def utf8 (s : String) : List UInt8 := s.toByteArray.data.toList

def fromUtf8 (bs : List UInt8) : Option String := String.fromUTF8? ⟨bs.toArray⟩

theorem fromUtf8_utf8 (s : String) : fromUtf8 (utf8 s) = some s := by
  unfold fromUtf8 utf8 String.fromUTF8?
  exact dif_pos s.isValidUTF8

theorem utf8_fromUtf8 {s : String} (h : fromUtf8 bs = some s) : utf8 s = bs := by
  unfold fromUtf8 String.fromUTF8? at h
  split at h
  · cases h
    rfl
  · cases h

def text : Codec String where
  Fits s := (utf8 s).length < 256 ^ 8
  enc s := (uint 8).enc (utf8 s).length ++ utf8 s
  dec bs := ((uint 8).dec bs).bind fun r => (split r.1 r.2).bind fun q =>
    match fromUtf8 q.1 with
    | some s => .ok (s, q.2)
    | none => .error (.invalidUtf8 q.1)
  dec_enc s h rest := by
    rw [List.append_assoc, (uint 8).dec_enc _ h, Except.bind, split_append rfl, Except.bind,
      fromUtf8_utf8]
  enc_dec bs s rest h := by
    obtain ⟨⟨n, r⟩, hnum, hr⟩ := Except.bind_eq_ok.mp h
    obtain ⟨⟨u, r'⟩, hsplit, hq⟩ := Except.bind_eq_ok.mp hr
    obtain ⟨hn, hbs⟩ := (uint 8).enc_dec _ _ _ hnum
    obtain ⟨rfl, hrest⟩ := split_eq_ok hsplit
    dsimp only at hq hrest
    split at hq
    · rename_i s' hs
      cases hq
      rw [utf8_fromUtf8 hs]
      refine ⟨hn, ?_⟩
      rw [hbs, hrest, List.append_assoc]
    · cases hq

end Sequences
end Codec
end Folio.Bincode
