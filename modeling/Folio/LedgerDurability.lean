import Folio.DurableLog
import Folio.LedgerCalls
import Folio.Node

/-! The ledger rows of one LSM-C node that serves one request after the other, with crashes
at any point. A row is durable once a later `persist` has returned. -/
namespace Folio.LedgerDurability
open KeyedTable Protocol Fjall DurableLog TransitionSystem
open LedgerCalls (Grows insertion_grows)

abbrev Ledgers := Table Nat Fjall.LedgerState

def indexOf (ledgers : Ledgers) : FjallIndex := ⟨.empty, .empty, ledgers⟩

inductive Pc where
  | idle
  | checked (e : Entry)
  | unpersisted (e : Entry)
  | registered (e : Entry)
  | fenceWritten (ledger : Nat)
  deriving DecidableEq

/-- `fenced` and `keyed` record what callers have been told. -/
structure State where
  log : Log Nat Fjall.LedgerState
  fences : List Nat
  knownLedgers : List Nat
  pc : Pc
  fenced : List Nat
  keyed : List (Nat × Key32)

namespace State

def index (s : State) : FjallIndex := indexOf s.log.contents

def durableIndex (s : State) : FjallIndex := indexOf s.log.durable

end State

inductive Act where
  | add (e : Entry)
  | register
  | persistKey (ok : Bool)
  | finish (ok : Bool)
  | fence (ledger : Nat)
  | persistFence (ok : Bool)
  | storageError
  | background
  | crash (kept : Nat)

section Steps
variable (env : Node.Env)

def checkAdd (s : State) (e : Entry) : State :=
  if !e.validateDigest env.crc32 then s
  else if e.ledgerId ∈ s.fences then s
  else { s with pc := .checked e }

/-- `ensure_ledger_known` and the branch on its result. Only a first write goes on to
`persist`. -/
def register (s : State) (e : Entry) : State :=
  if e.ledgerId ∉ s.knownLedgers then
    match FjallIndex.ensureVerdict e.ledgerId (s.index.getLedgerState e.ledgerId) e.masterKey with
    | .reject _ => { s with pc := .idle }
    | .keep => { s with knownLedgers := e.ledgerId :: s.knownLedgers, pc := .registered e }
    | .write st =>
      if e.masterKey.isSome then
        { s with log := s.log.insert e.ledgerId st, pc := .unpersisted e }
      else
        { s with
          log := s.log.insert e.ledgerId st
          knownLedgers := e.ledgerId :: s.knownLedgers
          pc := .registered e }
  else if e.masterKey.isSome then
    match FjallIndex.ensureVerdict e.ledgerId (s.index.getLedgerState e.ledgerId) e.masterKey with
    | .reject _ => { s with pc := .idle }
    | .keep => { s with pc := .registered e }
    | .write st => { s with log := s.log.insert e.ledgerId st, pc := .registered e }
  else { s with pc := .registered e }

/-- HMAC verification, duplicate check and WAL write; a duplicate is acknowledged too. -/
def finish (s : State) (e : Entry) (ok : Bool) : State :=
  let refused := match e.hmac, s.index.getLedgerMasterKey e.ledgerId with
    | some _, some mk => !env.validateHmac e mk
    | _, _ => false
  if refused || !ok then { s with pc := .idle }
  else
    { s with
      pc := .idle
      keyed := (e.masterKey.map fun k => (e.ledgerId, k)).toList ++ s.keyed }

/-- Opening the node again loads both sets from the rows on disk. -/
def restart (s : State) (log : Log Nat Fjall.LedgerState) : State :=
  { s with
    log := log
    fences := (indexOf log.contents).loadFencedLedgers
    knownLedgers := (indexOf log.contents).listKnownLedgerIds
    pc := .idle }

def step (s : State) (a : Act) : Option State :=
  match a, s.pc with
  | .add e, .idle => some (checkAdd env s e)
  | .register, .checked e => some (register s e)
  | .persistKey true, .unpersisted e =>
    some { s with
      log := s.log.sync
      knownLedgers := e.ledgerId :: s.knownLedgers
      pc := .registered e }
  | .persistKey false, .unpersisted _ => some { s with pc := .idle }
  | .finish ok, .registered e => some (finish env s e ok)
  | .fence l, .idle =>
    some { s with
      log := s.log.insert l (FjallIndex.fencedState (s.index.getLedgerState l))
      pc := .fenceWritten l }
  | .persistFence true, .fenceWritten l =>
    some { s with
      log := s.log.sync
      fences := l :: s.fences
      pc := .idle
      fenced := l :: s.fenced }
  | .persistFence false, .fenceWritten _ => some { s with pc := .idle }
  -- a read or an insert of the keyspace fails and the request with it
  | .storageError, _ => some { s with pc := .idle }
  -- the keyspace syncs on its own
  | .background, _ => some { s with log := s.log.sync }
  | .crash n, _ => (s.log.crash n).map (restart s)
  | _, _ => none

end Steps

def Opened (s : State) : Prop :=
  s.log.synced = s.log.writes.length ∧ s.pc = .idle ∧ s.fenced = [] ∧ s.keyed = []

/-- A key comes with the first write of its ledger, while none is stored, or the stored one
is durable already. -/
def keyFirst (s : State) (a : Act) : Prop :=
  match a, s.pc with
  | .register, .checked e =>
    e.masterKey.isSome →
      e.ledgerId ∉ s.knownLedgers ∧ s.index.getLedgerMasterKey e.ledgerId = none ∨
      (s.durableIndex.getLedgerMasterKey e.ledgerId).isSome
  | _, _ => True

instance (s : State) (a : Act) : Decidable (keyFirst s a) := by
  unfold keyFirst
  split <;> infer_instance

section Rows
variable {rows : Ledgers} {l : Nat}

def Fenced (l : Nat) (rows : Ledgers) : Prop := ∃ st, rows.get l = some st ∧ st.isFenced = true

def HasKey (l : Nat) (k : Key32) (rows : Ledgers) : Prop :=
  ∃ st, rows.get l = some st ∧ st.masterKey = some k

theorem hasKey_iff {k : Key32} :
    HasKey l k rows ↔ (indexOf rows).getLedgerMasterKey l = some k := by
  rw [FjallIndex.getLedgerMasterKey, Option.bind_eq_some_iff]
  rfl

theorem fenced_iff :
    Fenced l rows ↔ l ∈ (indexOf rows).loadFencedLedgers := by
  rw [FjallIndex.mem_loadFencedLedgers]
  rfl

section Grow
variable {rows : Ledgers} {l l' : Nat} {new : Fjall.LedgerState} (hg : Grows (rows.get l') new)
include hg

theorem Fenced.put (h : Fenced l rows) : Fenced l (rows.put l' new) := by
  obtain ⟨st, hst, hf⟩ := h
  by_cases heq : l = l'
  · subst heq
    exact ⟨new, Table.get_put_self .., (hg st hst).1 hf⟩
  · exact ⟨st, by rw [Table.get_put_ne _ _ heq, hst], hf⟩

theorem HasKey.put {k : Key32} (h : HasKey l k rows) : HasKey l k (rows.put l' new) := by
  obtain ⟨st, hst, hk⟩ := h
  by_cases heq : l = l'
  · subst heq
    exact ⟨new, Table.get_put_self .., (hg st hst).2 k hk⟩
  · exact ⟨st, by rw [Table.get_put_ne _ _ heq, hst], hk⟩

end Grow

theorem HasKey.unique {k k' : Key32} (h : HasKey l k rows) (h' : HasKey l k' rows) : k = k' := by
  rw [hasKey_iff] at h h'
  exact Option.some.inj (h.symm.trans h')

end Rows

section Registration
variable {s : State} {e : Entry} {st : Fjall.LedgerState} {old : Option Fjall.LedgerState}
  {key : Option Key32}

/-- What `register` does to the rows. A key that is not written is the one stored; one that
is written over a known ledger is not persisted. -/
inductive Registered (s : State) (e : Entry) : State → Prop
  | refused : Registered s e { s with pc := .idle }
  | kept (known : List Nat) :
      (∀ k, e.masterKey = some k → HasKey e.ledgerId k s.log.contents) →
      Registered s e { s with knownLedgers := known, pc := .registered e }
  | toPersist (st : Fjall.LedgerState) : Grows (s.log.contents.get e.ledgerId) st →
      (∀ k, e.masterKey = some k → st.masterKey = some k) →
      Registered s e { s with log := s.log.insert e.ledgerId st, pc := .unpersisted e }
  | written (st : Fjall.LedgerState) (known : List Nat) :
      Grows (s.log.contents.get e.ledgerId) st →
      (e.masterKey.isSome →
        e.ledgerId ∈ s.knownLedgers ∧ s.index.getLedgerMasterKey e.ledgerId = none) →
      Registered s e
        { s with
          log := s.log.insert e.ledgerId st
          knownLedgers := known
          pc := .registered e }

theorem verdict_grows {l : Nat} (h : FjallIndex.ensureVerdict l old key = .write st) :
    Grows old st :=
  @insertion_grows ⟨l, .ensure key, .started⟩ _ (st, .known true)
    (by simp [LedgerCalls.insertion, h])

theorem verdict_key {l : Nat} (h : FjallIndex.ensureVerdict l old key = .write st) :
    (∀ k, key = some k → st.masterKey = some k) ∧
      (key.isSome → old.bind Fjall.LedgerState.masterKey = none) := by
  rcases FjallIndex.ensureVerdict_write h with ⟨rfl, rfl⟩ | ⟨row, k, rfl, hnone, rfl, rfl⟩
  · exact ⟨fun k hk => hk, fun _ => rfl⟩
  · exact ⟨fun k' hk' => hk', fun _ => hnone⟩

theorem register_cases (s : State) (e : Entry) : Registered s e (register s e) := by
  have hkeep : FjallIndex.ensureVerdict e.ledgerId (s.index.getLedgerState e.ledgerId)
      e.masterKey = .keep → ∀ k, e.masterKey = some k → HasKey e.ledgerId k s.log.contents := by
    intro hv k hk
    obtain ⟨old, hold, hkey⟩ := FjallIndex.ensureVerdict_keep hv
    exact ⟨old, hold, hkey k hk⟩
  unfold register
  by_cases hknown : e.ledgerId ∈ s.knownLedgers
  · rw [if_neg (not_not.mpr hknown)]
    by_cases hkey : e.masterKey.isSome
    · rw [if_pos hkey]
      split
      · exact .refused
      · exact .kept s.knownLedgers (hkeep ‹_›)
      · rename_i st hv
        exact .written st s.knownLedgers (verdict_grows hv)
          fun h => ⟨hknown, (verdict_key hv).2 h⟩
    · rw [if_neg hkey]
      refine .kept s.knownLedgers fun k hk => ?_
      rw [hk] at hkey
      exact absurd rfl hkey
  · rw [if_pos hknown]
    split
    · exact .refused
    · exact .kept _ (hkeep ‹_›)
    · rename_i st hv
      split_ifs with hkey
      · exact .toPersist st (verdict_grows hv) (verdict_key hv).1
      · exact .written st _ (verdict_grows hv) (fun h => absurd h hkey)

end Registration

section Runs
variable {env : Node.Env} {s t : State} {log : Log Nat Fjall.LedgerState} {pc pc' : Pc}
  {fenced : List Nat} {keyed : List (Nat × Key32)} {e : Entry}

def PcInv (log : Log Nat Fjall.LedgerState) : Pc → Prop
  | .unpersisted e => ∀ k, e.masterKey = some k → HasKey e.ledgerId k log.contents
  | .registered e => ∀ k, e.masterKey = some k → log.Survives (HasKey e.ledgerId k)
  | .fenceWritten l => Fenced l log.contents
  | _ => True

structure Inv (log : Log Nat Fjall.LedgerState) (pc : Pc) (fenced : List Nat)
    (keyed : List (Nat × Key32)) : Prop where
  stable : ∀ l k, log.Stable (HasKey l k)
  fences : ∀ l ∈ fenced, log.Survives (Fenced l)
  keys : ∀ x ∈ keyed, log.Survives (HasKey x.1 x.2)
  pc : PcInv log pc

theorem Inv.setPc (h : Inv log pc fenced keyed) (hpc : PcInv log pc') :
    Inv log pc' fenced keyed :=
  { h with pc := hpc }

theorem Inv.insert {l : Nat} {st : Fjall.LedgerState} (h : Inv log pc fenced keyed)
    (hg : Grows (log.contents.get l) st) (hpc : PcInv (log.insert l st) pc') :
    Inv (log.insert l st) pc' fenced keyed where
  stable := fun l' k => (h.stable l' k).insert (HasKey.put hg)
  fences := fun l' hl' => (h.fences l' hl').insert (Fenced.put hg)
  keys := fun x hx => (h.keys x hx).insert (HasKey.put hg)
  pc := hpc

theorem Inv.sync (h : Inv log pc fenced keyed) (hpc : PcInv log.sync pc') :
    Inv log.sync pc' fenced keyed where
  stable := fun _ _ => Log.stable_sync
  fences := fun l hl => Log.survives_sync (h.fences l hl).contents
  keys := fun x hx => Log.survives_sync (h.keys x hx).contents
  pc := hpc

theorem PcInv.sync (h : PcInv log pc) : PcInv log.sync pc := by
  cases pc with
  | registered e => exact fun k hk => Log.survives_sync (h k hk).contents
  | unpersisted e => exact h
  | fenceWritten l => exact h
  | idle => trivial
  | checked e => trivial

theorem Inv.crash {log' : Log Nat Fjall.LedgerState} {n : Nat} (h : Inv log pc fenced keyed)
    (hc : log.crash n = some log') : Inv log' .idle fenced keyed where
  stable := fun l k => (h.stable l k).crash hc
  fences := fun l hl => (h.fences l hl).crash hc
  keys := fun x hx => (h.keys x hx).crash hc
  pc := trivial

def Good (s : State) : Prop := Inv s.log s.pc s.fenced s.keyed

theorem survives_of_guard {k : Key32} (h : Good s)
    (hd : (s.durableIndex.getLedgerMasterKey e.ledgerId).isSome)
    (hk : HasKey e.ledgerId k s.log.contents) : s.log.Survives (HasKey e.ledgerId k) := by
  obtain ⟨k', hk'⟩ := Option.isSome_iff_exists.mp hd
  have hsurv := (h.stable e.ledgerId k').survives (hasKey_iff.mpr hk')
  rwa [hk.unique hsurv.contents]

theorem good_register (h : Good s) (hpc : s.pc = .checked e)
    (hg : keyFirst s .register) : Good (register s e) := by
  have hguard : e.masterKey.isSome →
      e.ledgerId ∉ s.knownLedgers ∧ s.index.getLedgerMasterKey e.ledgerId = none ∨
      (s.durableIndex.getLedgerMasterKey e.ledgerId).isSome := by
    simpa [keyFirst, hpc] using hg
  have hreg := register_cases s e
  generalize register s e = t at hreg ⊢
  cases hreg with
  | refused => exact h.setPc trivial
  | kept known hkey =>
    refine h.setPc fun k hk => ?_
    rcases hguard (by rw [hk]; rfl) with ⟨-, hnone⟩ | hd
    · have hstored := hasKey_iff.mp (hkey k hk)
      exact absurd (hstored.symm.trans hnone) (by simp)
    · exact survives_of_guard h hd (hkey k hk)
  | toPersist st hgrow hkey =>
    refine Inv.insert h hgrow fun k hk => ?_
    rw [Log.contents_insert]
    exact ⟨st, Table.get_put_self .., hkey k hk⟩
  | written st known hgrow hkey =>
    refine Inv.insert h hgrow fun k hk => ?_
    -- a key over a known ledger would have to be durable, and then nothing is written
    have hsome : e.masterKey.isSome := by rw [hk]; rfl
    obtain ⟨hin, hnone⟩ := hkey hsome
    rcases hguard hsome with ⟨hout, -⟩ | hd
    · exact absurd hin hout
    · obtain ⟨k', hk'⟩ := Option.isSome_iff_exists.mp hd
      have hstored := ((h.stable e.ledgerId k').survives (hasKey_iff.mpr hk')).contents
      exact absurd ((hasKey_iff.mp hstored).symm.trans hnone) (by simp)

theorem good_finish {ok : Bool} (h : Good s) (hpc : s.pc = .registered e) :
    Good (finish env s e ok) := by
  have hkey : PcInv s.log (.registered e) := hpc ▸ h.pc
  unfold finish
  dsimp only
  split_ifs
  · exact h.setPc trivial
  · refine { h with pc := trivial, keys := fun x hx => ?_ }
    rcases List.mem_append.mp hx with hnew | hold
    · obtain ⟨k, hk, rfl⟩ : ∃ k, e.masterKey = some k ∧ (e.ledgerId, k) = x := by
        simpa using hnew
      exact hkey k hk
    · exact h.keys x hold

theorem good_step {a : Act} (h : Good s) (hg : keyFirst s a) (hst : step env s a = some t) :
    Good t := by
  unfold step at hst
  split at hst
  case h_1 e hpc =>
    cases hst
    unfold checkAdd
    split_ifs
    · exact h
    · exact h
    · exact h.setPc trivial
  case h_2 e hpc =>
    cases hst
    exact good_register h hpc hg
  case h_3 e hpc =>
    cases hst
    have hkey : PcInv s.log (.unpersisted e) := hpc ▸ h.pc
    exact Inv.sync h fun k hk => Log.survives_sync (hkey k hk)
  case h_4 =>
    cases hst
    exact h.setPc trivial
  case h_5 e hpc =>
    cases hst
    exact good_finish h hpc
  case h_6 l hpc =>
    cases hst
    have hgrow : Grows (s.log.contents.get l)
        (FjallIndex.fencedState (s.index.getLedgerState l)) :=
      @insertion_grows ⟨l, .fence, .started⟩ _ (_, .fenced) rfl
    refine Inv.insert h hgrow ?_
    rw [PcInv, Log.contents_insert]
    exact ⟨_, Table.get_put_self .., rfl⟩
  case h_7 l hpc =>
    cases hst
    have hfenced : PcInv s.log (.fenceWritten l) := hpc ▸ h.pc
    have hsync : Inv s.log.sync .idle s.fenced s.keyed := Inv.sync h trivial
    refine { hsync with fences := fun l' hl' => ?_ }
    rcases List.mem_cons.mp hl' with rfl | hold
    · exact Log.survives_sync hfenced
    · exact hsync.fences l' hold
  case h_8 =>
    cases hst
    exact h.setPc trivial
  case h_9 =>
    cases hst
    exact h.setPc trivial
  case h_10 =>
    cases hst
    exact Inv.sync h h.pc.sync
  case h_11 n =>
    obtain ⟨log, hlog, rfl⟩ := Option.map_eq_some_iff.mp hst
    exact Inv.crash h hlog
  case h_12 => cases hst

theorem good_opened (h : Opened s) : Good s := by
  obtain ⟨hsync, hpc, hfenced, hkeyed⟩ := h
  refine ⟨fun l k => Log.sync_eq hsync ▸ Log.stable_sync, ?_, ?_, ?_⟩
  · rw [hfenced]
    simp
  · rw [hkeyed]
    simp
  · rw [hpc]
    trivial

/-- If keys come with first writes, a restart after a crash at any point finds every
acknowledged fence and every acknowledged key. -/
theorem acknowledged_ledgers_survive (h : Reach (guarded keyFirst (step env)) Opened s)
    {kept : Nat} (hcrash : step env s (.crash kept) = some t) :
    (∀ l ∈ s.fenced, l ∈ t.index.loadFencedLedgers) ∧
      ∀ x ∈ s.keyed, t.index.getLedgerMasterKey x.1 = some x.2 := by
  have hgood : Good s := by
    refine Reach.invariant (P := Good) (fun s hs => good_opened hs) (fun s a t hs hst => ?_) h
    obtain ⟨hg, hst⟩ := (guarded_eq_some keyFirst).mp hst
    exact good_step hs hg hst
  simp only [step] at hcrash
  obtain ⟨log, hlog, rfl⟩ := Option.map_eq_some_iff.mp hcrash
  have hafter := Inv.crash hgood hlog
  exact ⟨fun l hl => fenced_iff.mp (hafter.fences l hl).contents,
    fun x hx => hasKey_iff.mp (hafter.keys x hx).contents⟩

def newNode : State := ⟨⟨[], 0, Nat.le_refl 0⟩, [], [], .idle, [], []⟩

theorem newNode_opened : Opened newNode := ⟨rfl, rfl, rfl, rfl⟩

def keyedEntry (entryId : Nat) : Entry :=
  { Node.emptyEntry entryId with masterKey := some LedgerCalls.someKey }

theorem key_and_fence_survive :
    ∃ s t, Reach (guarded keyFirst (step Node.plainEnv)) Opened s ∧
      step Node.plainEnv s (.crash 2) = some t ∧
      s.keyed = [(1, LedgerCalls.someKey)] ∧ s.fenced = [1] ∧
      1 ∈ t.index.loadFencedLedgers ∧
      t.index.getLedgerMasterKey 1 = some LedgerCalls.someKey := by
  obtain ⟨s, hreach, hkeyed, hfenced, hcrash⟩ := reach_check
    (guarded keyFirst (step Node.plainEnv)) newNode_opened
    (fun s => s.keyed = [(1, LedgerCalls.someKey)] ∧ s.fenced = [1] ∧
      (step Node.plainEnv s (.crash 2)).isSome)
    [.add (keyedEntry 0), .register, .persistKey true, .finish true, .fence 1,
      .persistFence true, .fence 8]
    (by decide)
  obtain ⟨t, ht⟩ := Option.isSome_iff_exists.mp hcrash
  obtain ⟨hf, hk⟩ := acknowledged_ledgers_survive hreach ht
  refine ⟨s, t, hreach, ht, hkeyed, hfenced, hf 1 ?_, hk (1, LedgerCalls.someKey) ?_⟩
  · rw [hfenced]
    exact List.mem_singleton_self 1
  · rw [hkeyed]
    exact List.mem_singleton_self _

/- The second write of a ledger brings the key, or the first one is repeated after its
`persist` has failed; either way nothing persists the key before the reply. -/
theorem acknowledged_key_lost :
    (∃ s t, Reach (step Node.plainEnv) Opened s ∧ step Node.plainEnv s (.crash 0) = some t ∧
      (1, LedgerCalls.someKey) ∈ s.keyed ∧ t.index.getLedgerMasterKey 1 = none) ∧
    ∃ s t, Reach (step Node.plainEnv) Opened s ∧ step Node.plainEnv s (.crash 0) = some t ∧
      (1, LedgerCalls.someKey) ∈ s.keyed ∧ t.index.getLedgerMasterKey 1 = none := by
  have lost : ∀ acts : List Act, (run (step Node.plainEnv) newNode acts).map (fun s =>
      decide ((1, LedgerCalls.someKey) ∈ s.keyed ∧ (step Node.plainEnv s (.crash 0)).map (fun t =>
        t.index.getLedgerMasterKey 1) = some none)) = some true →
      ∃ s t, Reach (step Node.plainEnv) Opened s ∧ step Node.plainEnv s (.crash 0) = some t ∧
        (1, LedgerCalls.someKey) ∈ s.keyed ∧ t.index.getLedgerMasterKey 1 = none := by
    intro acts hacts
    obtain ⟨s, hs, hcheck⟩ := run_check (step Node.plainEnv) newNode _ acts hacts
    obtain ⟨hkeyed, hcrash⟩ := of_decide_eq_true hcheck
    obtain ⟨t, ht, hnone⟩ := Option.map_eq_some_iff.mp hcrash
    exact ⟨s, t, reach_of_run _ (.start newNode_opened) hs, ht, hkeyed, hnone⟩
  constructor
  · exact lost [.add (Node.emptyEntry 0), .register, .finish true, .add (keyedEntry 1), .register,
      .finish true] (by decide)
  · exact lost [.add (keyedEntry 0), .register, .persistKey false, .add (keyedEntry 0),
      .register, .finish true] (by decide)

end Runs
end Folio.LedgerDurability
