import Folio.NodeMarks
import Mathlib.Order.Bounds.Defs

/-! What `fence_ledger` reports over whole runs of a node, crashes and boots included. Recovery
is taken at its word: what is durable is in one of the two indices when the node serves again. -/
namespace Folio.FenceMark
open KeyedTable Protocol Fjall EntryCache TransitionSystem Node NodeFence NodeMarks
open WalGc (WarmFlushed)

section Arithmetic

/-- `get_next_entry_id`; `none` is an overflow of its `eid + 1`. -/
def nextEntryIdChecked (x : FjallIndex) (ledger : Nat) : Option Nat :=
  match ((x.locations.keys.filter fun k => k.1 == ledger).map Prod.snd).max? with
  | none => some 0
  | some eid => if eid + 1 < 2 ^ 64 then some (eid + 1) else none

/-- The value of `fence_ledger` in arithmetic that does not wrap. -/
def highMarkChecked (s : State) (ledger : Nat) : Option Nat := do
  let next ← nextEntryIdChecked s.entryIndex ledger
  let nextWal ← nextEntryIdChecked s.walIndex ledger
  pure (max (memMark s ledger) (max (next - 1) (nextWal - 1)))

theorem nextEntryIdChecked_eq (x : FjallIndex) (ledger : Nat)
    (h : ∀ id, (x.getLocation (ledger, id)).isSome → id + 1 < 2 ^ 64) :
    nextEntryIdChecked x ledger = some (x.getNextEntryId ledger) := by
  unfold nextEntryIdChecked FjallIndex.getNextEntryId
  cases hmax : ((x.locations.keys.filter fun k => k.1 == ledger).map Prod.snd).max? with
  | none => rfl
  | some top =>
    have htop := h top ((x.mem_indexIds ledger top).mp (List.max?_eq_some_iff.mp hmax).1)
    simp only [if_pos htop, Nat.mod_eq_of_lt htop]

theorem highMarkChecked_eq {s : State} {ledger : Nat}
    (h : ∀ id, Indexed s (ledger, id) → id + 1 < 2 ^ 64) :
    highMarkChecked s ledger = some (highMark s ledger) := by
  have hentry := nextEntryIdChecked_eq s.entryIndex ledger fun id hid => h id (.inl hid)
  have hwal := nextEntryIdChecked_eq s.walIndex ledger fun id hid => h id (.inr hid)
  simp [highMarkChecked, hentry, hwal, highMark, entryMark, walMark]

end Arithmetic

section Model

def durableKeys (s : State) : List Key :=
  s.walFiles.values.flatten ++ (s.entryIndex.locations.keys ++ s.walIndex.locations.keys)

structure Recovered where
  entryLocations : Table Key IndexValue
  walLocations : Table Key IndexValue
  hot : Table Key Bytes

def Recovered.located (r : Recovered) : List Key := r.entryLocations.keys ++ r.walLocations.keys

/-- Every durable entry is located and every located entry is durable; the cache holds located
entries only. -/
def Recovered.Complete (s : State) (r : Recovered) : Prop :=
  (∀ k ∈ durableKeys s, k ∈ r.located) ∧ (∀ k ∈ r.located, k ∈ durableKeys s) ∧
    ∀ k ∈ r.hot.keys, k ∈ r.located

instance (s : State) (r : Recovered) : Decidable (r.Complete s) :=
  inferInstanceAs (Decidable (_ ∧ _ ∧ _))

/-- `new_lsmc` over the recovered store. -/
def reboot (s : State) (r : Recovered) : State :=
  { s with
    adds := .empty
    fenceReqs := .empty
    fences := s.entryIndex.loadFencedLedgers
    knownLedgers := s.entryIndex.listKnownLedgerIds
    hiEntry := .empty
    lac := .empty
    walIndex := { s.walIndex with locations := r.walLocations }
    entryIndex := { s.entryIndex with locations := r.entryLocations }
    cache := { hot := r.hot, warm := .empty
               hotBytes := r.hot.values.foldl (fun n b => n + b.length) 0
               flushThreshold := s.cache.flushThreshold }
    flush := ⟨[], false, false, false⟩ }

inductive Act where
  | add (c : Nat) (a : AddAct)
  | fence (f : Nat) (a : FenceAct)
  | flush (a : FlushAct)
  | crashAndBoot (r : Recovered)

def step (env : Env) (s : State) : Act → Option State
  | .add c a => stepAdd env s c a
  | .fence f a => stepFence s f a
  | .flush a => stepFlush s a
  | .crashAndBoot r => if r.Complete s then some (reboot s r) else none

/-- No entry with the last `u64` id is sent to the node. -/
def belowLast (_ : State) : Act → Prop
  | .add _ (.invoke e) => e.entryId + 1 < 2 ^ 64
  | _ => True

instance (s : State) (a : Act) : Decidable (belowLast s a) := by
  unfold belowLast
  split <;> infer_instance

def Init (s : State) : Prop :=
  ∃ nodeId flushThreshold, s = { newNode with nodeId, cache := .new flushThreshold }

def answered : AddPc → Bool
  | .returned _ | .kept _ => true
  | _ => false

def Quiet (s : State) : Prop := ∀ req ∈ s.adds.values, answered req.pc = true

instance (s : State) : Decidable (Quiet s) :=
  inferInstanceAs (Decidable (∀ req ∈ s.adds.values, answered req.pc = true))

def fenceCall (f ledger : Nat) : List Act :=
  (fenceRequest ledger).map (.fence f)

end Model

section Held
variable {s : State}

theorem indexed_iff (s : State) (k : Key) :
    Indexed s k ↔ k ∈ s.entryIndex.locations.keys ++ s.walIndex.locations.keys := by
  simp [Indexed, FjallIndex.getLocation, Table.mem_keys_iff, Option.isSome_iff_exists]

theorem mem_durableKeys (s : State) (k : Key) :
    k ∈ durableKeys s ↔ (∃ p keys, s.walFiles.get p = some keys ∧ k ∈ keys) ∨ Indexed s k := by
  rw [durableKeys, List.mem_append, ← indexed_iff]
  simp only [List.mem_flatten, Table.mem_values_iff]
  constructor
  · rintro (⟨keys, ⟨p, hp⟩, hk⟩ | hk)
    · exact .inl ⟨p, keys, hp, hk⟩
    · exact .inr hk
  · rintro (⟨p, keys, hp, hk⟩ | hk)
    · exact .inl ⟨keys, ⟨p, hp⟩, hk⟩
    · exact .inr hk

theorem mem_durableKeys_logRecord (s : State) (k k' : Key) :
    k' ∈ durableKeys (logRecord s k) ↔ k' = k ∨ k' ∈ durableKeys s := by
  rw [mem_durableKeys, mem_durableKeys]
  constructor
  · rintro (⟨p, keys, hget, hk⟩ | hidx)
    · rcases WalGc.logRecord_files hget hk with hold | rfl
      · exact .inr (.inl ⟨p, hold⟩)
      · exact .inl rfl
    · exact .inr (.inr hidx)
  · rintro (rfl | ⟨p, keys, hget, hk⟩ | hidx)
    · exact .inl ⟨.activeSeg, _, Table.get_put_self _ _ _, by simp⟩
    · by_cases hp : p = .activeSeg
      · subst hp
        refine .inl ⟨.activeSeg, _, Table.get_put_self _ _ _, ?_⟩
        simp [hget, hk]
      · exact .inl ⟨p, keys, (Table.get_put_ne _ _ hp).trans hget, hk⟩
    · exact .inr hidx

theorem held_reboot {r : Recovered} (h : r.Complete s) (k : Key) :
    Held (reboot s r) k ↔ k ∈ durableKeys s := by
  obtain ⟨hall, honly, hhot⟩ := h
  have hi : Indexed (reboot s r) k ↔ k ∈ r.located := indexed_iff _ k
  have hc : Cached (reboot s r) k → k ∈ r.located := fun hk => hhot k (by
    rw [Table.mem_keys_iff, ← Option.isSome_iff_exists]
    simpa [Cached, EntrySegmentCache.contains, reboot, Table.get_empty] using hk)
  rw [held_iff, hi]
  constructor
  · rintro (hk | hk)
    · exact honly k (hc hk)
    · exact honly k hk
  · intro hk
    exact .inr (hall k hk)

end Held

section Invariant
variable {env : Env} {s t : State} {c : Nat}

structure Inv (s : State) : Prop where
  marks : MarkInv s
  warm : WarmFlushed s
  head : HeadIndexed s
  pending : ∀ k, WalGc.Pending s k → Held s k
  held : ∀ k, Held s k → k ∈ durableKeys s
  logged : ∀ c e, s.adds.get c = some ⟨e, .logged⟩ ∨ s.adds.get c = some ⟨e, .marked⟩ →
    e.key ∈ durableKeys s
  answered : ∀ c e ack, s.adds.get c = some ⟨e, .returned (.written ack)⟩ → Held s e.key
  requests : ∀ c e pc, s.adds.get c = some ⟨e, pc⟩ → e.entryId + 1 < 2 ^ 64
  small : ∀ k ∈ durableKeys s, k.2 + 1 < 2 ^ 64

theorem durableKeys_put {k : Key} {P : Prop}
    (hloc : t.entryIndex.locations = s.entryIndex.locations) (hwal : t.walIndex = s.walIndex)
    (hfiles : t.walFiles = s.walFiles ∧ (P → k ∈ durableKeys s) ∨
      t.walFiles = (logRecord s k).walFiles) :
    (∀ k' ∈ durableKeys s, k' ∈ durableKeys t) ∧
      (∀ k' ∈ durableKeys t, k' = k ∨ k' ∈ durableKeys s) ∧ (P → k ∈ durableKeys t) := by
  rcases hfiles with ⟨hsame, hlogged⟩ | hlog
  · have heq : durableKeys t = durableKeys s := by
      simp only [durableKeys, hsame, hloc, hwal]
    rw [heq]
    exact ⟨fun _ hk => hk, fun _ hk => .inr hk, hlogged⟩
  · have heq : durableKeys t = durableKeys (logRecord s k) := by
      simp only [durableKeys, hlog, hloc, hwal]
      rfl
    rw [heq]
    have hiff := mem_durableKeys_logRecord s k
    exact ⟨fun k' hk => (hiff k').mpr (.inr hk), fun k' hk => (hiff k').mp hk,
      fun _ => (hiff k).mpr (.inl rfl)⟩

theorem Inv.put {e : Entry} {pc : AddPc} (h : Inv s) (hmarks : MarkInv t)
    (hst : AddStep env s c t) (hwarm : t.cache.warm = s.cache.warm)
    (hloc : t.entryIndex.locations = s.entryIndex.locations) (hwal : t.walIndex = s.walIndex)
    (hflush : t.flush = s.flush) (hadds : t.adds = s.adds.put c ⟨e, pc⟩)
    (hsmall : e.entryId + 1 < 2 ^ 64)
    (hfiles : t.walFiles = s.walFiles ∧
        (pc = .logged ∨ pc = .marked → e.key ∈ durableKeys s) ∨
      t.walFiles = (logRecord s e.key).walFiles)
    (hans : ∀ ack, pc = .returned (.written ack) → s.adds.get c = some ⟨e, .marked⟩) :
    Inv t := by
  obtain ⟨hmono, hnew, hlogged⟩ := durableKeys_put hloc hwal hfiles
  have hheld := held_addStep hst
  have hself : t.adds.get c = some ⟨e, pc⟩ := by rw [hadds, Table.get_put_self]
  refine ⟨hmarks, fun k hk => ?_, headIndexed_add h.head hst, fun k hk => ?_, fun k hk => ?_,
    fun c' e' hget => ?_, fun c' e' ack hget => ?_, fun c' e' pc' hget => ?_, fun k hk => ?_⟩
  · rw [hwarm] at hk
    simpa only [WalGc.inEntryIndex, WalGc.Pending, FjallIndex.getLocation, hloc, hflush]
      using h.warm k hk
  · simp only [WalGc.Pending, hflush] at hk
    exact (hheld k).mpr (.inl (h.pending k hk))
  · rcases (hheld k).mp hk with hk | ⟨e', reply, hget, rfl, -⟩
    · exact hmono k (h.held k hk)
    · exact hmono _ (h.logged c e' (.inr hget))
  · rw [hadds, Table.get_put] at hget
    split_ifs at hget
    · have hpc : e = e' ∧ (pc = .logged ∨ pc = .marked) := by simpa [and_or_left] using hget
      rw [← hpc.1]
      exact hlogged hpc.2
    · exact hmono _ (h.logged c' e' hget)
  · rw [hheld]
    by_cases hc : c' = c
    · subst hc
      rw [hself] at hget
      cases hget
      exact .inr ⟨e, _, hans ack rfl, rfl, hself⟩
    · rw [hadds, Table.get_put_ne _ _ hc] at hget
      exact .inl (h.answered c' e' ack hget)
  · rw [hadds, Table.get_put] at hget
    split_ifs at hget
    · cases hget
      exact hsmall
    · exact h.requests c' e' pc' hget
  · rcases hnew k hk with rfl | hk
    · exact hsmall
    · exact h.small k hk

theorem stepAdd_invoke {a : AddAct} {e : Entry} (hget : s.adds.get c = none)
    (hst : stepAdd env s c a = some { s with adds := s.adds.put c ⟨e, .started⟩ }) :
    a = .invoke e := by
  cases a <;> simp only [stepAdd, hget, Option.some.injEq, reduceCtorEq] at hst
  case invoke e' =>
    have hadds := congrArg (fun u => (State.adds u).get c) hst
    simp only [Table.get_put_self, Option.some.injEq, AddReq.mk.injEq, and_true] at hadds
    rw [hadds]

theorem Inv.add {a : AddAct} (h : Inv s) (hg : belowLast s (.add c a))
    (hst : stepAdd env s c a = some t) : Inv t := by
  have hcases := stepAdd_cases env hst
  have hmarks := h.marks.add hcases
  have hstep := hcases
  cases hcases with
  | invoke e hget =>
    obtain rfl := stepAdd_invoke hget hst
    exact h.put hmarks hstep rfl rfl rfl rfl rfl hg (.inl ⟨rfl, by simp⟩) (by simp)
  | fenceCheck e hget =>
    refine h.put hmarks hstep rfl rfl rfl rfl rfl (h.requests c e _ hget)
      (.inl ⟨rfl, ?_⟩) ?_ <;>
    · unfold fenceCheck
      split_ifs <;> simp
  | register e u pc hget hu hpc =>
    rw [hu.state] at hmarks hstep ⊢
    rcases hpc with rfl | ⟨err, rfl⟩ <;>
      exact h.put hmarks hstep rfl hu.locations rfl rfl rfl (h.requests c e _ hget)
        (.inl ⟨rfl, by simp⟩) (by simp)
  | dupCheck e hget =>
    refine h.put hmarks hstep rfl rfl rfl rfl rfl (h.requests c e _ hget)
      (.inl ⟨rfl, ?_⟩) ?_ <;>
    · unfold dupCheck
      split_ifs <;> simp
  | journal e pc hget _ hpc =>
    rcases hpc with rfl | ⟨err, rfl⟩ <;>
      exact h.put hmarks hstep rfl rfl rfl rfl rfl (h.requests c e _ hget) (.inr rfl) (by simp)
  | journalLost e err hget =>
    exact h.put hmarks hstep rfl rfl rfl rfl rfl (h.requests c e _ hget)
      (.inl ⟨rfl, by simp⟩) (by simp)
  | mark e hget =>
    exact h.put hmarks hstep rfl rfl rfl rfl rfl (h.requests c e _ hget)
      (.inl ⟨rfl, fun _ => h.logged c e (.inl hget)⟩) (by simp)
  | cache e hget =>
    exact h.put hmarks hstep (s.cache.insert_warm e.key _) rfl rfl rfl rfl
      (h.requests c e _ hget) (.inl ⟨rfl, by simp⟩) fun _ _ => hget

theorem Inv.fence {f : Nat} {a : FenceAct} (h : Inv s) (hst : stepFence s f a = some t) :
    Inv t := by
  have hfence := stepFence_cases hst
  cases hfence <;>
    exact ⟨h.marks.same rfl rfl rfl rfl rfl, h.warm, h.head, h.pending, h.held, h.logged,
      h.answered, h.requests, h.small⟩

/-- An entry of the batch is stored, so indexing it makes nothing durable that was not. -/
theorem durable_flushStep (h : Inv s) (hst : FlushStep s t) (k : Key) :
    k ∈ durableKeys t ↔ k ∈ durableKeys s := by
  cases hst with
  | drain order hnone hperm => rfl
  | write hpend hsync => rfl
  | index k₀ b rest segId offset length hp hsync hnot =>
    by_cases hk : k = k₀
    · refine iff_of_true ((mem_durableKeys _ _).mpr (.inr (.inl ?_))) (h.held k (h.pending k ?_))
      · simp [hk, FjallIndex.getLocation_insert]
      · exact (WalGc.pending_index s.entryIndex hp hnot).mpr (.inl hk)
    · rw [mem_durableKeys, mem_durableKeys]
      unfold Indexed
      rw [FjallIndex.getLocation_insert, if_neg hk]
  | unlink k₀ b rest hp hindexed =>
    rw [mem_durableKeys, mem_durableKeys]
    by_cases hk : k = k₀
    · subst hk
      have hhead := h.head hindexed k b rest hp
      exact iff_of_true (.inr (.inl hhead)) (.inr (.inl hhead))
    · unfold Indexed
      rw [FjallIndex.getLocation_delete, if_neg hk]
  | evict hnone => rfl
  | stop => rfl

theorem Inv.flush {a : FlushAct} (h : Inv s) (hst : stepFlush s a = some t) : Inv t := by
  have hnode : Node.step plainEnv s (.flush a) = some t := hst
  have hmarks := markInv_step h.marks h.warm h.head hnode
  obtain ⟨-, hflush⟩ := stepFlush_cases hst
  have hheld (k : Key) : Held t k ↔ Held s k := held_flushStep h.warm h.head h.pending hflush
  have hdur := durable_flushStep h hflush
  have hpend (k : Key) (hk : WalGc.Pending t k) : Held t k :=
    (hheld k).mpr (pending_flushStep h.pending hflush hk)
  have hadds : t.adds = s.adds := by cases hflush <;> rfl
  refine ⟨hmarks, h.warm.flush hflush, headIndexed_flush h.head hflush, hpend,
    fun k hk => (hdur k).mpr (h.held k ((hheld k).mp hk)), ?_, ?_, ?_,
    fun k hk => h.small k ((hdur k).mp hk)⟩
  · rw [hadds]
    exact fun c e hget => (hdur _).mpr (h.logged c e hget)
  · rw [hadds]
    exact fun c e ack hget => (hheld _).mpr (h.answered c e ack hget)
  · rw [hadds]
    exact h.requests

theorem Inv.started (hadds : s.adds = .empty) (hhi : s.hiEntry = .empty)
    (hwarm : s.cache.warm = .empty) (hpending : s.flush.pending = [])
    (hcached : ∀ k, Cached s k → Indexed s k) (hheld : ∀ k, Held s k → k ∈ durableKeys s)
    (hsmall : ∀ k ∈ durableKeys s, k.2 + 1 < 2 ^ 64) : Inv s where
  marks := ⟨by simp [hadds], by simp [hhi], fun k hk => .inr (hcached k hk)⟩
  warm k hk := by simp [hwarm] at hk
  head := headIndexed_of_idle hpending
  pending k hk := absurd hk (WalGc.not_pending_of_nil hpending)
  held := hheld
  logged := by simp [hadds]
  answered := by simp [hadds]
  requests := by simp [hadds]
  small := hsmall

theorem Inv.reboot {r : Recovered} (h : Inv s) (hr : r.Complete s) : Inv (reboot s r) := by
  have hdur : ∀ k, k ∈ durableKeys (FenceMark.reboot s r) ↔ k ∈ durableKeys s := fun k => by
    have hi : Indexed (FenceMark.reboot s r) k ↔ k ∈ r.located := indexed_iff _ k
    have hboth : k ∈ r.located ↔ k ∈ durableKeys s := ⟨hr.2.1 k, hr.1 k⟩
    rw [mem_durableKeys, hi, hboth]
    refine ⟨fun hk => ?_, .inr⟩
    rcases hk with hk | hk
    · exact (mem_durableKeys s k).mpr (.inl hk)
    · exact hk
  have hcached : ∀ k, Cached (FenceMark.reboot s r) k → Indexed (FenceMark.reboot s r) k :=
    fun k hk => by
      have hheld := (held_reboot hr k).mp ((held_iff _ k).mpr (.inl hk))
      exact (indexed_iff _ k).mpr (hr.1 k hheld)
  exact .started rfl rfl rfl rfl hcached (fun k hk => (hdur k).mpr ((held_reboot hr k).mp hk))
    fun k hk => h.small k ((hdur k).mp hk)

theorem Inv.init (h : Init s) : Inv s := by
  obtain ⟨nodeId, flushThreshold, rfl⟩ := h
  have hheld : ∀ k, ¬Held { newNode with nodeId, cache := .new flushThreshold } k := fun k => by
    simp [Held, isDuplicate, newNode, EntrySegmentCache.new, EntrySegmentCache.contains,
      FjallIndex.getLocation, FjallIndex.empty, Table.get_empty]
  have hdur : durableKeys { newNode with nodeId, cache := .new flushThreshold } = [] := rfl
  refine .started rfl rfl rfl rfl (fun k hk => ?_) (fun k hk => absurd hk (hheld k)) ?_
  · exact absurd ((held_iff _ k).mpr (.inl hk)) (hheld k)
  · simp [hdur]

theorem inv_step {a : Act} (h : Inv s) (hg : belowLast s a) (hst : step env s a = some t) :
    Inv t := by
  cases a with
  | add c a => exact h.add hg hst
  | fence f a => exact h.fence hst
  | flush a => exact h.flush hst
  | crashAndBoot r =>
    simp only [step, Option.ite_none_right_eq_some, Option.some.injEq] at hst
    rw [← hst.2]
    exact h.reboot hst.1

theorem reach_inv (h : Reach (guarded belowLast (step env)) Init s) : Inv s := by
  refine Reach.invariant (fun s hs => .init hs) (fun s a t hs hst => ?_) h
  obtain ⟨hg, hst⟩ := (guarded_eq_some belowLast).mp hst
  exact inv_step hs hg hst

theorem held_step {a : Act} {k : Key} (h : Inv s) (hst : step env s a = some t) (hk : Held s k) :
    Held t k := by
  cases a with
  | add c a => exact (held_addStep (stepAdd_cases env hst) k).mpr (.inl hk)
  | fence f a =>
    have hfence := stepFence_cases hst
    cases hfence <;> exact hk
  | flush a => exact (held_flushStep h.warm h.head h.pending (stepFlush_cases hst).2).mpr hk
  | crashAndBoot r =>
    simp only [step, Option.ite_none_right_eq_some, Option.some.injEq] at hst
    rw [← hst.2, held_reboot hst.1]
    exact h.held k hk

end Invariant

section Fence
variable {env : Env} {s : State}

theorem quiet_settled (h : Inv s) (hq : Quiet s) (ledger : Nat) : Settled s ledger := by
  refine ⟨fun c e hget => ?_, fun id hid => ?_⟩
  · exact absurd (hq _ ((Table.mem_values_iff _ _).mpr ⟨c, hget⟩)) (by simp [answered])
  · exact h.small (ledger, id) ((mem_durableKeys s _).mpr (.inr hid))

theorem run_fenceCall (env : Env) {f : Nat} (ledger : Nat) (hf : s.fenceReqs.get f = none) :
    ∃ t, run (step env) s (fenceCall f ledger) = some t ∧
      t.fenceReqs.get f = some ⟨ledger, .returned (highMark s ledger)⟩ := by
  obtain ⟨reqs, hrun, hret⟩ := run_fenceRequest ledger hf
  exact ⟨_, (run_map (step env) _ s _).trans hrun, hret⟩

/-- Between calls a fence returns the largest id that the node stores of the ledger, and 0 if it
stores none. What is stored has been acknowledged or was durable at a crash, and stays. -/
theorem fence_reports_highest (f ledger : Nat)
    (h : Reach (guarded belowLast (step env)) Init s) (hq : Quiet s)
    (hf : s.fenceReqs.get f = none) :
    (∃ t hi, run (step env) s (fenceCall f ledger) = some t ∧
      t.fenceReqs.get f = some ⟨ledger, .returned hi⟩ ∧ highMarkChecked s ledger = some hi ∧
      IsGreatest ({0} ∪ {id | Held s (ledger, id)}) hi) ∧
    (∀ c e ack, s.adds.get c = some ⟨e, .returned (.written ack)⟩ → Held s e.key) ∧
    ∀ a t, step env s a = some t → ∀ k, Held s k → Held t k := by
  have hinv := reach_inv h
  have hsettled := quiet_settled hinv hq ledger
  obtain ⟨hle, hmem⟩ := highMark_spec hinv.marks hsettled
  obtain ⟨t, hrun, hret⟩ := run_fenceCall env ledger hf
  refine ⟨⟨t, highMark s ledger, hrun, hret, highMarkChecked_eq hsettled.bound, ?_, ?_⟩,
    hinv.answered, fun a t hst k hk => held_step hinv hst hk⟩
  · by_cases hzero : highMark s ledger = 0
    · exact .inl hzero
    · exact .inr (hmem hzero)
  · rintro id (rfl | hid)
    · exact Nat.zero_le _
    · exact hle id hid

def addCall (c : Nat) (e : Entry) : List Act :=
  [.add c (.invoke e), .add c .fenceCheck, .add c .register, .add c .dupCheck,
    .add c (.journal .ok), .add c .mark, .add c .cache]

def walOnly (ids : List Nat) : Recovered :=
  ⟨.empty, ids.foldl (fun x id => x.put (1, id) ⟨0, 0, 24⟩) .empty,
    ids.foldl (fun x id => x.put (1, id) []) .empty⟩

theorem newNode_init : Init newNode := ⟨"n1", 4194304, rfl⟩

/-- Ids 7 and 3 in this order, a crash, and a fence of the ledger. -/
theorem highest_after_boot :
    ∃ s, Reach (guarded belowLast (step plainEnv)) Init s ∧ Quiet s ∧ Held s (1, 7) ∧
      s.hiEntry.get 1 = none ∧ ∃ t hi, run (step plainEnv) s (fenceCall 0 1) = some t ∧
        t.fenceReqs.get 0 = some ⟨1, .returned hi⟩ ∧
        IsGreatest ({0} ∪ {id | Held s (1, id)}) hi := by
  obtain ⟨s, hreach, hq, hf, hheld, hhi⟩ :=
    reach_check (guarded belowLast (step plainEnv)) newNode_init
      (fun s => Quiet s ∧ s.fenceReqs.get 0 = none ∧ isDuplicate s (1, 7) = true ∧
        s.hiEntry.get 1 = none)
      (addCall 0 (emptyEntry 7) ++ addCall 1 (emptyEntry 3) ++ [.crashAndBoot (walOnly [7, 3])])
      (by decide +kernel)
  obtain ⟨⟨t, hi, hrun, hret, -, hgreatest⟩, -⟩ := fence_reports_highest 0 1 hreach hq hf
  exact ⟨s, hreach, hq, hheld, hhi, t, hi, hrun, hret, hgreatest⟩

/-- The last `u64` is accepted as an entry id. After a boot `eid + 1` wraps to 0 and the fence
reports 0. -/
theorem last_id_reported_as_zero :
    ∃ s, Reach (step plainEnv) Init s ∧ Quiet s ∧ Held s (1, 2 ^ 64 - 1) ∧
      highMarkChecked s 1 = none ∧ ∃ t, run (step plainEnv) s (fenceCall 0 1) = some t ∧
        t.fenceReqs.get 0 = some ⟨1, .returned 0⟩ ∧
        ¬IsGreatest ({0} ∪ {id | Held s (1, id)}) 0 := by
  obtain ⟨s, hreach, hq, hf, hheld, hover, hmark⟩ := reach_check (step plainEnv) newNode_init
    (fun s => Quiet s ∧ s.fenceReqs.get 0 = none ∧ isDuplicate s (1, 2 ^ 64 - 1) = true ∧
      highMarkChecked s 1 = none ∧ highMark s 1 = 0)
    (addCall 0 (emptyEntry (2 ^ 64 - 1)) ++ [.crashAndBoot (walOnly [2 ^ 64 - 1])])
    (by decide +kernel)
  obtain ⟨t, hrun, hret⟩ := run_fenceCall plainEnv 1 hf
  rw [hmark] at hret
  refine ⟨s, hreach, hq, hheld, hover, t, hrun, hret, fun hgreatest => ?_⟩
  exact absurd (hgreatest.2 (.inr hheld)) (by decide)

end Fence
end Folio.FenceMark
