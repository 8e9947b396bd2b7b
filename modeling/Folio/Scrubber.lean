import Folio.Recovery

/-! The scrubber: one pass over all ledgers that compares the digests of the replicas. -/
namespace Folio.Scrubber
open KeyedTable Protocol Metadata LedgerClient RemoteProgram Recovery
open Cluster (Delivery)

section Model

/-- One line of the error log. `crc_errors` is the number of them. -/
structure CrcMismatch where
  ledgerId : Nat
  entryId : Nat
  nodeId : NodeId
  got : Nat
  expected : Nat
  deriving DecidableEq, Repr

/-- A member that does not resolve or does not answer is left out. -/
def readDigest (ledgerId entryId : Nat) (n : NodeId) : Remote (List (NodeId × Nat)) :=
  tryCatch
    (do
      resolve n
      let read ← ask (.readEntry n ledgerId entryId)
      pure [(n, read.digest)])
    fun _ => pure []

def mismatches (ledgerId entryId : Nat) : List (NodeId × Nat) → List CrcMismatch
  | [] => []
  | (_, expected) :: others =>
    (others.filter fun r => decide (r.2 ≠ expected)).map fun r =>
      ⟨ledgerId, entryId, r.1, r.2, expected⟩

def scrubEntry (ledgerId : Nat) (ensemble : List NodeId) (entryId : Nat) :
    Remote (List CrcMismatch) := do
  let replicaDigests ← Prog.collect (readDigest ledgerId entryId) ensemble
  if replicaDigests.length < 2 then pure []
  else pure (mismatches ledgerId entryId replicaDigests)

/-- All entries are looked for in the ensemble of the last fragment. -/
def scrubLedger (m : LedgerMetadata) : Remote (List CrcMismatch) :=
  if m.state = .Deleted then pure []
  else
    match m.lastEntryId, m.fragments.getLast? with
    | some lastEntry, some fragment =>
      Prog.collect (scrubEntry m.id fragment.ensemble) (List.range (lastEntry + 1))
    | _, _ => pure []

def scrubPass : Remote (List CrcMismatch) := do
  let ledgers ← listLedgers
  Prog.collect scrubLedger ledgers

end Model

section Pass
variable (crc32 : Bytes → UInt32) (reads : NodeId → Nat → Nat → Delivery)

/-- The metadata store answers; a read of one entry at one node gets through or not. -/
def sent : Op → Delivery
  | .readEntry n ledgerId entryId => reads n ledgerId entryId
  | _ => .delivered

def serve (w : World) (o : Op) : World × Except FolioError o.Reply :=
  answer crc32 (sent reads o) w o

def Counts (w : World) (k : Nat) : Prop :=
  ∃ log, Prog.run (serve crc32 reads) scrubPass w = (w, .ok log) ∧ log.length = k

def digestAt (w : World) (n : NodeId) (ledgerId entryId : Nat) : Option Nat :=
  if n ∈ w.resolver ∧ reads n ledgerId entryId = .delivered then
    ((w.replica n).entries.get (ledgerId, entryId)).map Entry.digest
  else none

def lastFragment (m : LedgerMetadata) (_ : Nat) : Option Fragment := m.fragments.getLast?

def owningFragment (m : LedgerMetadata) (entryId : Nat) : Option Fragment :=
  LedgerHandle.owner m.fragments entryId

/-- Two members of the fragment that `pick` gives for an entry of a ledger that is scrubbed. -/
def Together (pick : LedgerMetadata → Nat → Option Fragment) (st : Store)
    (ledgerId entryId : Nat) (n n' : NodeId) : Prop :=
  ∃ m ∈ st.listLedgers, m.id = ledgerId ∧ m.state ≠ .Deleted ∧
    (∃ last, m.lastEntryId = some last ∧ entryId ≤ last) ∧
    ∃ f, pick m entryId = some f ∧ n ∈ f.ensemble ∧ n' ∈ f.ensemble

/-- Two of them return entries with different digests. -/
def Diverges (pick : LedgerMetadata → Nat → Option Fragment) (w : World) : Prop :=
  ∃ ledgerId entryId n n' d d', Together pick w.store ledgerId entryId n n' ∧
    digestAt reads w n ledgerId entryId = some d ∧
    digestAt reads w n' ledgerId entryId = some d' ∧ d ≠ d'

/-- All copies that can be read of an entry are the same, wherever they are. -/
def Agree (w : World) : Prop :=
  ∀ ledgerId entryId n n' d d', digestAt reads w n ledgerId entryId = some d →
    digestAt reads w n' ledgerId entryId = some d' → d = d'

end Pass

/-- Any two members that `pick` gives for an entry are also given by `pick'`. -/
def Covers (pick pick' : LedgerMetadata → Nat → Option Fragment) (st : Store)
    (resolver : List NodeId) : Prop :=
  ∀ ledgerId entryId n n', n ∈ resolver → n' ∈ resolver → n ≠ n' →
    Together pick st ledgerId entryId n n' → Together pick' st ledgerId entryId n n'

section Run
variable (crc32 : Bytes → UInt32) (reads : NodeId → Nat → Nat → Delivery) (w : World)

theorem readEntry_run (n : NodeId) (ledgerId entryId : Nat) :
    (∃ e, Prog.run (serve crc32 reads) (ask (.readEntry n ledgerId entryId)) w = (w, .ok e) ∧
      reads n ledgerId entryId = .delivered ∧
      (w.replica n).entries.get (ledgerId, entryId) = some e) ∨
    (∃ err, Prog.run (serve crc32 reads) (ask (.readEntry n ledgerId entryId)) w =
        (w, .error err)) ∧
      (reads n ledgerId entryId = .delivered →
        (w.replica n).entries.get (ledgerId, entryId) = none) := by
  have hrun : Prog.run (serve crc32 reads) (ask (.readEntry n ledgerId entryId)) w =
      (reads n ledgerId entryId).send (w, (w.replica n).readEntry ledgerId entryId) w := rfl
  rw [hrun]
  cases hd : reads n ledgerId entryId with
  | lostRequest err => exact .inr ⟨⟨err, rfl⟩, nofun⟩
  | lostReply err => exact .inr ⟨⟨err, rfl⟩, nofun⟩
  | delivered =>
    unfold Delivery.send Replica.readEntry
    cases hget : (w.replica n).entries.get (ledgerId, entryId) with
    | none => exact .inr ⟨⟨_, rfl⟩, fun _ => rfl⟩
    | some e => exact .inl ⟨e, rfl, rfl, rfl⟩

theorem readDigest_run (ledgerId entryId : Nat) (n : NodeId) :
    Prog.run (serve crc32 reads) (readDigest ledgerId entryId n) w =
      (w, .ok ((digestAt reads w n ledgerId entryId).map fun d => (n, d)).toList) := by
  have hresolve : Prog.run (serve crc32 reads) (resolve n) w =
      (w, if n ∈ w.resolver then .ok () else .error (.metadata s!"unknown node: {n}")) := rfl
  rw [readDigest, Prog.run_handle]
  by_cases hn : n ∈ w.resolver
  · rw [if_pos hn] at hresolve
    rw [Prog.run_bind_of_ok _ hresolve]
    rcases readEntry_run crc32 reads w n ledgerId entryId with
      ⟨e, hread, hsent, hget⟩ | ⟨⟨err, hread⟩, hnone⟩
    · have hdigest : digestAt reads w n ledgerId entryId = some e.digest := by
        rw [digestAt, if_pos ⟨hn, hsent⟩, hget]
        rfl
      rw [Prog.run_bind_of_ok _ hread, hdigest]
      rfl
    · have hdigest : digestAt reads w n ledgerId entryId = none := by
        unfold digestAt
        split_ifs with hboth
        · rw [hnone hboth.2]
          rfl
        · rfl
      rw [Prog.run_bind_of_error _ hread, hdigest]
      rfl
  · rw [if_neg hn] at hresolve
    rw [Prog.run_bind_of_error _ hresolve, digestAt, if_neg fun hboth => hn hboth.1]
    rfl

def replicaDigests (ledgerId : Nat) (ensemble : List NodeId) (entryId : Nat) :
    List (NodeId × Nat) :=
  ensemble.flatMap fun n => ((digestAt reads w n ledgerId entryId).map fun d => (n, d)).toList

def ledgerLog (m : LedgerMetadata) : List CrcMismatch :=
  if m.state = .Deleted then []
  else
    match m.lastEntryId, m.fragments.getLast? with
    | some lastEntry, some fragment => (List.range (lastEntry + 1)).flatMap fun entryId =>
      mismatches m.id entryId (replicaDigests reads w m.id fragment.ensemble entryId)
    | _, _ => []

theorem scrubEntry_run (ledgerId : Nat) (ensemble : List NodeId) (entryId : Nat) :
    Prog.run (serve crc32 reads) (scrubEntry ledgerId ensemble entryId) w =
      (w, .ok (mismatches ledgerId entryId
        (replicaDigests reads w ledgerId ensemble entryId))) := by
  have hreads : Prog.run (serve crc32 reads)
      (Prog.collect (readDigest ledgerId entryId) ensemble) w =
        (w, .ok (replicaDigests reads w ledgerId ensemble entryId)) :=
    Prog.run_collect _ (fun n => readDigest_run crc32 reads w ledgerId entryId n) ensemble
  rw [scrubEntry, Prog.run_bind_of_ok _ hreads]
  -- with fewer than two digests there is nothing to compare
  match replicaDigests reads w ledgerId ensemble entryId with
  | [] => rfl
  | [_] => rfl
  | _ :: _ :: _ => rfl

theorem scrubLedger_run (m : LedgerMetadata) :
    Prog.run (serve crc32 reads) (scrubLedger m) w = (w, .ok (ledgerLog reads w m)) := by
  unfold scrubLedger ledgerLog
  split_ifs
  · rfl
  · cases m.lastEntryId with
    | none => rfl
    | some lastEntry =>
      cases m.fragments.getLast? with
      | none => rfl
      | some fragment => exact Prog.run_collect _ (scrubEntry_run crc32 reads w m.id _) _

theorem scrubPass_run : Prog.run (serve crc32 reads) scrubPass w =
    (w, .ok (w.store.listLedgers.flatMap (ledgerLog reads w))) := by
  have hlist : Prog.run (serve crc32 reads) listLedgers w = (w, .ok w.store.listLedgers) := rfl
  rw [scrubPass, Prog.run_bind_of_ok _ hlist]
  exact Prog.run_collect _ (scrubLedger_run crc32 reads w) _

end Run

section Errors
variable {reads : NodeId → Nat → Nat → Delivery} {w : World}

theorem mismatches_eq_nil_iff (ledgerId entryId : Nat) (rs : List (NodeId × Nat)) :
    mismatches ledgerId entryId rs = [] ↔ ∀ a ∈ rs, ∀ b ∈ rs, a.2 = b.2 := by
  cases rs with
  | nil => simp [mismatches]
  | cons r rs =>
    have hfirst : mismatches ledgerId entryId (r :: rs) = [] ↔ ∀ a ∈ rs, a.2 = r.2 := by
      simp [mismatches, List.filter_eq_nil_iff]
    rw [hfirst]
    constructor
    · intro h
      have hall : ∀ a ∈ r :: rs, a.2 = r.2 := List.forall_mem_cons.mpr ⟨rfl, h⟩
      exact fun a ha b hb => (hall a ha).trans (hall b hb).symm
    · exact fun h a ha => h a (List.mem_cons_of_mem _ ha) r List.mem_cons_self

theorem mem_replicaDigests (ledgerId : Nat) (ensemble : List NodeId) (entryId : Nat)
    (n : NodeId) (d : Nat) : (n, d) ∈ replicaDigests reads w ledgerId ensemble entryId ↔
      n ∈ ensemble ∧ digestAt reads w n ledgerId entryId = some d := by
  simp only [replicaDigests, List.mem_flatMap, Option.mem_toList,
    Option.map_eq_some_iff, Prod.mk.injEq]
  constructor
  · rintro ⟨n', hn', d', hd', rfl, rfl⟩
    exact ⟨hn', hd'⟩
  · rintro ⟨hn, hd⟩
    exact ⟨n, hn, d, hd, rfl, rfl⟩

theorem entryLog_ne_nil_iff (ledgerId : Nat) (ensemble : List NodeId) (entryId : Nat) :
    mismatches ledgerId entryId (replicaDigests reads w ledgerId ensemble entryId) ≠ [] ↔
      ∃ n ∈ ensemble, ∃ n' ∈ ensemble, ∃ d d', digestAt reads w n ledgerId entryId = some d ∧
        digestAt reads w n' ledgerId entryId = some d' ∧ d ≠ d' := by
  rw [Ne, mismatches_eq_nil_iff]
  push Not
  constructor
  · rintro ⟨⟨n, d⟩, hmem, ⟨n', d'⟩, hmem', hne⟩
    obtain ⟨hn, hd⟩ := (mem_replicaDigests ..).mp hmem
    obtain ⟨hn', hd'⟩ := (mem_replicaDigests ..).mp hmem'
    exact ⟨n, hn, n', hn', d, d', hd, hd', hne⟩
  · rintro ⟨n, hn, n', hn', d, d', hd, hd', hne⟩
    exact ⟨(n, d), (mem_replicaDigests ..).mpr ⟨hn, hd⟩, (n', d'),
      (mem_replicaDigests ..).mpr ⟨hn', hd'⟩, hne⟩

theorem flatMap_ne_nil_iff {α β : Type} {f : α → List β} {as : List α} :
    as.flatMap f ≠ [] ↔ ∃ a ∈ as, f a ≠ [] := by
  simp

theorem ledgerLog_ne_nil_iff (m : LedgerMetadata) : ledgerLog reads w m ≠ [] ↔
    m.state ≠ .Deleted ∧ ∃ last f, m.lastEntryId = some last ∧ m.fragments.getLast? = some f ∧
      ∃ entryId ≤ last,
        mismatches m.id entryId (replicaDigests reads w m.id f.ensemble entryId) ≠ [] := by
  unfold ledgerLog
  by_cases hdel : m.state = .Deleted
  · simp [hdel]
  rw [if_neg hdel]
  cases m.lastEntryId with
  | none => simp
  | some last =>
    cases m.fragments.getLast? with
    | none => simp
    | some f =>
      rw [flatMap_ne_nil_iff]
      simp only [List.mem_range, Nat.lt_succ_iff, Option.some.injEq]
      constructor
      · rintro ⟨i, hi, hne⟩
        exact ⟨hdel, last, f, rfl, rfl, i, hi, hne⟩
      · rintro ⟨-, _, _, rfl, rfl, i, hi, hne⟩
        exact ⟨i, hi, hne⟩

theorem passLog_ne_nil_iff : w.store.listLedgers.flatMap (ledgerLog reads w) ≠ [] ↔
    Diverges reads lastFragment w := by
  simp only [flatMap_ne_nil_iff, ledgerLog_ne_nil_iff, entryLog_ne_nil_iff]
  constructor
  · rintro ⟨m, hm, hdel, last, f, hlast, hf, i, hi, n, hn, n', hn', d, d', hd, hd', hne⟩
    exact ⟨m.id, i, n, n', d, d', ⟨m, hm, rfl, hdel, ⟨last, hlast, hi⟩, f, hf, hn, hn'⟩, hd, hd',
      hne⟩
  · rintro ⟨l, i, n, n', d, d', ⟨m, hm, rfl, hdel, ⟨last, hlast, hi⟩, f, hf, hn, hn'⟩, hd, hd',
      hne⟩
    exact ⟨m, hm, hdel, last, f, hlast, hf, i, hi, n, hn, n', hn', d, d', hd, hd', hne⟩

theorem pass_counts (crc32 : Bytes → UInt32) (reads : NodeId → Nat → Nat → Delivery) (w : World) :
    ∃ k, Counts crc32 reads w k ∧ (0 < k ↔ Diverges reads lastFragment w) := by
  refine ⟨_, ⟨_, scrubPass_run crc32 reads w, rfl⟩, ?_⟩
  rw [List.length_pos_iff]
  exact passLog_ne_nil_iff

theorem Counts.unique {crc32 : Bytes → UInt32} {k k' : Nat} (h : Counts crc32 reads w k)
    (h' : Counts crc32 reads w k') : k = k' := by
  obtain ⟨log, hlog, rfl⟩ := h
  obtain ⟨log', hlog', rfl⟩ := h'
  cases hlog.symm.trans hlog'
  rfl

theorem counts_pos_iff (crc32 : Bytes → UInt32) :
    (∃ k, Counts crc32 reads w k ∧ 0 < k) ↔ Diverges reads lastFragment w := by
  obtain ⟨k, hk, hpos⟩ := pass_counts crc32 reads w
  refine ⟨?_, fun hdiv => ⟨k, hk, hpos.mpr hdiv⟩⟩
  rintro ⟨k', hk', hlt⟩
  exact hpos.mp (hk.unique hk' ▸ hlt)

theorem counts_zero_iff (crc32 : Bytes → UInt32) :
    Counts crc32 reads w 0 ↔ ¬ Diverges reads lastFragment w := by
  obtain ⟨k, hk, hpos⟩ := pass_counts crc32 reads w
  rw [← hpos, Nat.pos_iff_ne_zero, not_not]
  constructor
  · exact fun h => hk.unique h
  · rintro rfl
    exact hk

end Errors

section Coverage
variable {pick pick' : LedgerMetadata → Nat → Option Fragment} {st : Store}
  {resolver : List NodeId} {l i : Nat} {n n' : NodeId}

theorem Together.symm (h : Together pick st l i n n') : Together pick st l i n' n := by
  obtain ⟨m, hm, hid, hdel, hlast, f, hf, hn, hn'⟩ := h
  exact ⟨m, hm, hid, hdel, hlast, f, hf, hn', hn⟩

def copyOf (ledgerId entryId digest : Nat) : Replica where
  entries := Table.empty.put (ledgerId, entryId)
    { ledgerId, entryId, lac := 0, digest, data := [], masterKey := none, hmac := none }
  fences := []
  lac := .empty

def twoCopies (st : Store) (resolver : List NodeId) (l i : Nat) (n n' : NodeId) : World where
  store := st
  replicas := (Table.empty.put n (copyOf l i 0)).put n' (copyOf l i 1)
  resolver

theorem copyOf_get (l i d : Nat) (k : Nat × Nat) :
    ((copyOf l i d).entries.get k).map Entry.digest = if k = (l, i) then some d else none := by
  unfold copyOf
  rw [Table.get_put]
  split_ifs <;> rfl

theorem twoCopies_digest (st : Store) (resolver : List NodeId) (l i : Nat) (n n' a : NodeId)
    (l' i' : Nat) :
    digestAt (fun _ _ _ => .delivered) (twoCopies st resolver l i n n') a l' i' =
      if a ∈ resolver ∧ (l', i') = (l, i) then
        if a = n' then some 1 else if a = n then some 0 else none
      else none := by
  have hreplica : (twoCopies st resolver l i n n').replica a =
      if a = n' then copyOf l i 1 else if a = n then copyOf l i 0 else .empty := by
    unfold World.replica twoCopies
    rw [Table.get_put, Table.get_put]
    split_ifs <;> rfl
  have hentry : (((twoCopies st resolver l i n n').replica a).entries.get (l', i')).map
      Entry.digest = if (l', i') = (l, i) then
        if a = n' then some 1 else if a = n then some 0 else none
      else none := by
    rw [hreplica]
    split_ifs <;> simp_all [copyOf_get, Replica.empty]
  unfold digestAt
  rw [hentry]
  have hres : (twoCopies st resolver l i n n').resolver = resolver := rfl
  by_cases ha : a ∈ resolver <;> simp [ha, hres]

theorem twoCopies_holder {a : NodeId} {l' i' d : Nat}
    (h : digestAt (fun _ _ _ => .delivered) (twoCopies st resolver l i n n') a l' i' = some d) :
    (l', i') = (l, i) ∧ (a = n ∧ d = 0 ∨ a = n' ∧ d = 1) := by
  rw [twoCopies_digest] at h
  split_ifs at h with hk hn' hn
  · exact ⟨hk.2, .inr ⟨hn', (Option.some.inj h).symm⟩⟩
  · exact ⟨hk.2, .inl ⟨hn, (Option.some.inj h).symm⟩⟩

theorem digestAt_resolves {reads : NodeId → Nat → Nat → Delivery} {w : World} {d : Nat}
    (h : digestAt reads w n l i = some d) : n ∈ w.resolver := by
  unfold digestAt at h
  split_ifs at h with hn
  exact hn.1

theorem diverges_imp_iff (pick pick' : LedgerMetadata → Nat → Option Fragment) (st : Store)
    (resolver : List NodeId) :
    (∀ replicas reads, Diverges reads pick ⟨st, replicas, resolver⟩ →
      Diverges reads pick' ⟨st, replicas, resolver⟩) ↔ Covers pick pick' st resolver := by
  constructor
  · intro h l i n n' hn hn' hne htog
    have hdig := twoCopies_digest st resolver l i n n'
    have hdiv : Diverges (fun _ _ _ => .delivered) pick (twoCopies st resolver l i n n') :=
      ⟨l, i, n, n', 0, 1, htog, by rw [hdig]; simp [hn, hne], by rw [hdig]; simp [hn'],
        by decide⟩
    obtain ⟨l', i', a, b, d, d', htog', hd, hd', hdd⟩ := h _ _ hdiv
    obtain ⟨hkey, ha⟩ := twoCopies_holder hd
    obtain ⟨-, hb⟩ := twoCopies_holder hd'
    obtain ⟨rfl, rfl⟩ := Prod.mk.inj hkey
    -- only the two copies can disagree, so they are the ones that were compared
    rcases ha with ⟨rfl, rfl⟩ | ⟨rfl, rfl⟩ <;> rcases hb with ⟨rfl, rfl⟩ | ⟨rfl, rfl⟩
    · exact absurd rfl hdd
    · exact htog'
    · exact htog'.symm
    · exact absurd rfl hdd
  · rintro h replicas reads ⟨l, i, n, n', d, d', htog, hd, hd', hdd⟩
    have hne : n ≠ n' := by
      rintro rfl
      exact hdd (Option.some.inj (hd.symm.trans hd'))
    exact ⟨l, i, n, n', d, d', h l i n n' (digestAt_resolves hd) (digestAt_resolves hd') hne htog,
      hd, hd', hdd⟩

theorem covers_of_ensembles
    (h : ∀ m ∈ st.listLedgers, ∀ f ∈ m.fragments, ∀ g ∈ m.fragments.getLast?,
      f.ensemble ⊆ g.ensemble) : Covers owningFragment lastFragment st resolver := by
  rintro l i n n' - - - ⟨m, hm, hid, hdel, hlast, f, hf, hn, hn'⟩
  have hmem : f ∈ m.fragments := List.mem_reverse.mp (List.mem_of_find?_eq_some hf)
  have hg := List.getLast?_eq_some_getLast (List.ne_nil_of_mem hmem)
  have hsub := h m hm f hmem _ hg
  exact ⟨m, hm, hid, hdel, hlast, _, hg, hsub hn, hsub hn'⟩

end Coverage

/-- The pass finds what disagrees in the ensembles of the last fragments. It therefore finds
every divergent replica exactly when those cover the ensembles that own the entries. If all
copies agree, it never counts an error. -/
theorem scrub_detects_iff (crc32 : Bytes → UInt32) (st : Store) (resolver : List NodeId) :
    (∀ replicas reads, ∃ k, Counts crc32 reads ⟨st, replicas, resolver⟩ k ∧
      (0 < k ↔ Diverges reads lastFragment ⟨st, replicas, resolver⟩)) ∧
    ((∀ replicas reads, Diverges reads owningFragment ⟨st, replicas, resolver⟩ →
        ∃ k, Counts crc32 reads ⟨st, replicas, resolver⟩ k ∧ 0 < k) ↔
      Covers owningFragment lastFragment st resolver) ∧
    (∀ replicas reads, Agree reads ⟨st, replicas, resolver⟩ →
      Counts crc32 reads ⟨st, replicas, resolver⟩ 0) ∧
    ((∀ replicas reads, ¬ Diverges reads owningFragment ⟨st, replicas, resolver⟩ →
        Counts crc32 reads ⟨st, replicas, resolver⟩ 0) ↔
      Covers lastFragment owningFragment st resolver) := by
  refine ⟨fun replicas reads => pass_counts crc32 reads _, ?_, ?_, ?_⟩
  · simp only [counts_pos_iff]
    exact diverges_imp_iff owningFragment lastFragment st resolver
  · rintro replicas reads hagree
    rw [counts_zero_iff]
    rintro ⟨l, i, n, n', d, d', -, hd, hd', hne⟩
    exact hne (hagree l i n n' d d' hd hd')
  · simp only [counts_zero_iff, not_imp_not]
    exact diverges_imp_iff lastFragment owningFragment st resolver

def afterChange : LedgerMetadata where
  id := 1
  state := .Closed
  fragments := [⟨0, ["a", "b"], 2, 2⟩, ⟨1, ["a", "c"], 2, 2⟩]
  lastEntryId := some 1
  lastAddConfirmed := 1
  version := 3

def rotten : World where
  store := ⟨1, Table.empty.put 1 afterChange, .empty⟩
  replicas := (Table.empty.put "a" (copyOf 1 0 5)).put "b" (copyOf 1 0 6)
  resolver := ["a", "b", "c"]

theorem former_member_not_scrubbed :
    Diverges (fun _ _ _ => .delivered) owningFragment rotten ∧
    Counts (fun _ => 0) (fun _ _ _ => .delivered) rotten 0 := by
  have hm : afterChange ∈ rotten.store.listLedgers := by decide
  refine ⟨⟨1, 0, "a", "b", 5, 6, ⟨_, hm, rfl, by decide, ⟨1, rfl, by decide⟩, _, rfl, by decide,
    by decide⟩, by decide, by decide, by decide⟩, [], by rfl, rfl⟩

end Folio.Scrubber
