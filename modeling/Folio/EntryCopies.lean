import Folio.Node

/-! The copies of an entry on an LSM-C node: records of the WAL and of the entry segments, the
two tiers of the cache, and the records that the two indices point to. Requests are cut at each
lookup, and a crash keeps any part of what is on disk. There is one crash at most: a row of
`wal_index` that outlives a second one may point to bytes that were written over. -/
namespace Folio.EntryCopies
open KeyedTable Protocol Fjall EntryCache TransitionSystem

abbrev Copy := Key × Bytes

/-- `kept` is a failed append whose record is in the file all the same; a request that a crash
cuts off after the duplicate check is `dead`. -/
inductive AddPc where
  | started
  | cacheMissed
  | entryMissed
  | sent
  | logged
  | kept
  | written
  | duplicate
  | refused
  | dead
  deriving DecidableEq

structure AddReq where
  copy : Copy
  pc : AddPc
  deriving DecidableEq

inductive ReadPc where
  | started
  | cacheMissed
  | entryMissed
  | returned (payload : Bytes)
  | failed
  deriving DecidableEq

structure ReadReq where
  key : Key
  pc : ReadPc
  deriving DecidableEq

inductive Life where
  | running
  | recovering
  | restarted
  deriving DecidableEq

/-- An index row is given by the payload of the record at its location. -/
structure State where
  adds : Table Nat AddReq
  reads : Table Nat ReadReq
  wal : List Copy
  segments : List Copy
  cache : EntrySegmentCache
  entryIndex : Table Key Bytes
  walIndex : Table Key Bytes
  flush : Node.Flush
  life : Life

section AddEntry

inductive Append where
  | ok
  | failedKept
  | failedLost

/-- `refuse` is any error before the duplicate check. -/
inductive AddAct where
  | invoke (copy : Copy)
  | refuse
  | checkCache
  | checkEntry
  | checkWal
  | append (out : Append)
  | cache

def setAdd (s : State) (c : Nat) (copy : Copy) (pc : AddPc) : State :=
  { s with adds := s.adds.put c ⟨copy, pc⟩ }

def stepAdd (s : State) (c : Nat) (a : AddAct) : Option State :=
  match a, s.adds.get c with
  | .invoke copy, none => some (setAdd s c copy .started)
  | .refuse, some ⟨copy, .started⟩ => some (setAdd s c copy .refused)
  | .checkCache, some ⟨copy, .started⟩ =>
    some (setAdd s c copy (if s.cache.contains copy.1 then .duplicate else .cacheMissed))
  | .checkEntry, some ⟨copy, .cacheMissed⟩ =>
    some (setAdd s c copy (if (s.entryIndex.get copy.1).isSome then .duplicate else .entryMissed))
  | .checkWal, some ⟨copy, .entryMissed⟩ =>
    some (setAdd s c copy (if (s.walIndex.get copy.1).isSome then .duplicate else .sent))
  | .append .ok, some ⟨copy, .sent⟩ =>
    some (setAdd { s with wal := s.wal ++ [copy] } c copy .logged)
  | .append .failedKept, some ⟨copy, .sent⟩ =>
    some (setAdd { s with wal := s.wal ++ [copy] } c copy .kept)
  | .append .failedLost, some ⟨copy, .sent⟩ => some (setAdd s c copy .refused)
  | .cache, some ⟨copy, .logged⟩ =>
    some (setAdd { s with cache := s.cache.insert copy.1 copy.2 } c copy .written)
  | _, _ => none

end AddEntry

section ReadEntry

/-- `ok` is whether the file can be read at the location. -/
inductive ReadAct where
  | invoke (k : Key)
  | cache
  | entry (ok : Bool)
  | wal (ok : Bool)

def setRead (s : State) (i : Nat) (k : Key) (pc : ReadPc) : State :=
  { s with reads := s.reads.put i ⟨k, pc⟩ }

def answer (found : Option Bytes) (ok : Bool) (next : ReadPc) : ReadPc :=
  match found with
  | some payload => if ok then .returned payload else .failed
  | none => next

def stepRead (s : State) (i : Nat) (a : ReadAct) : Option State :=
  match a, s.reads.get i with
  | .invoke k, none => some (setRead s i k .started)
  | .cache, some ⟨k, .started⟩ =>
    some (setRead s i k (answer (s.cache.get k) true .cacheMissed))
  | .entry ok, some ⟨k, .cacheMissed⟩ =>
    some (setRead s i k (answer (s.entryIndex.get k) ok .entryMissed))
  | .wal ok, some ⟨k, .entryMissed⟩ =>
    some (setRead s i k (answer (s.walIndex.get k) ok .failed))
  | _, _ => none

end ReadEntry

section FlushLoop

inductive FlushAct where
  | drain (order : List Copy)
  | write
  | writeFails (left : List Copy)
  | index
  | unlink
  | evict
  | stop

def stepFlush (s : State) (a : FlushAct) : Option State :=
  if s.flush.stopped then none
  else match a, s.flush.pending with
    | .drain order, [] =>
      if order.isPerm s.cache.hot.entries then
        some { s with cache := s.cache.drainHotToWarm order, flush := ⟨order, false, false, false⟩ }
      else none
    | .write, pending =>
      if s.flush.synced then none
      else some { s with
        segments := s.segments ++ pending
        flush := { s.flush with synced := true } }
    | .writeFails left, pending =>
      if left ⊆ pending then
        some { s with
          segments := s.segments ++ left
          flush := { s.flush with stopped := true } }
      else none
    | .index, (k, payload) :: _ =>
      if s.flush.synced && !s.flush.indexed then
        some { s with
          entryIndex := s.entryIndex.put k payload
          flush := { s.flush with indexed := true } }
      else none
    | .unlink, (k, _) :: rest =>
      if s.flush.indexed then
        some { s with
          walIndex := s.walIndex.del k
          flush := { s.flush with pending := rest, indexed := false } }
      else none
    | .evict, [] => some { s with cache := s.cache.evictWarm }
    | .stop, _ => some { s with flush := { s.flush with stopped := true } }
    | _, _ => none

end FlushLoop

section Crash

def crashedAdd (r : AddReq) : AddReq :=
  match r.pc with
  | .started | .cacheMissed | .entryMissed => { r with pc := .refused }
  | .sent | .logged => { r with pc := .dead }
  | _ => r

def sentCopies (s : State) : List Copy :=
  (s.adds.values.filter fun r => decide (r.pc = .sent)).map AddReq.copy

inductive RecoverAct where
  | segment (copy : Copy)
  | purgeEntry (k : Key)
  | replay (copy : Copy)
  | purgeWal (k : Key)
  | done

/-- Record handling of `recover_entry_segment` and `replay_wal_segment`, for any record that
the scans may reach, in any order. -/
def stepRecover (s : State) (a : RecoverAct) : Option State :=
  match a with
  | .segment copy =>
    if copy ∈ s.segments then
      some { s with entryIndex :=
          if (s.entryIndex.get copy.1).isNone then s.entryIndex.put copy.1 copy.2
          else s.entryIndex }
    else none
  | .purgeEntry k => some { s with entryIndex := s.entryIndex.del k }
  | .replay copy =>
    if copy ∈ s.wal then
      if (s.entryIndex.get copy.1).isNone then
        some { s with
          walIndex :=
            if (s.walIndex.get copy.1).isNone then s.walIndex.put copy.1 copy.2 else s.walIndex
          cache := s.cache.insert copy.1 copy.2 }
      else some s
    else none
  | .purgeWal k => some { s with walIndex := s.walIndex.del k }
  | .done => some { s with life := .restarted }

/-- The node is gone but for the files and the index rows that survive; a row that was not
persisted may be missing or may be an older one. -/
def crash (s : State) (wal segments : List Copy) (entryIndex walIndex : Table Key Bytes) :
    Option State :=
  if wal ⊆ s.wal ++ sentCopies s ∧ segments ⊆ s.segments ++ s.flush.pending ∧
      entryIndex.entries ⊆ s.segments ++ s.entryIndex.entries ∧
      walIndex.entries ⊆ s.wal ++ s.walIndex.entries then
    some
      { adds := s.adds.map crashedAdd
        reads := s.reads.filter fun e => e.2.pc matches .returned _
        wal, segments, entryIndex, walIndex
        cache := .new s.cache.flushThreshold
        flush := ⟨[], false, false, false⟩
        life := .recovering }
  else none

end Crash

inductive Act where
  | add (c : Nat) (a : AddAct)
  | read (i : Nat) (a : ReadAct)
  | flush (a : FlushAct)
  | crash (wal segments : List Copy) (entryIndex walIndex : Table Key Bytes)
  | recover (a : RecoverAct)

def step (s : State) : Act → Option State
  | .add c a => if s.life = .recovering then none else stepAdd s c a
  | .read i a => if s.life = .recovering then none else stepRead s i a
  | .flush a => if s.life = .recovering then none else stepFlush s a
  | .crash wal segments entryIndex walIndex =>
    if s.life = .running then crash s wal segments entryIndex walIndex else none
  | .recover a => if s.life = .recovering then stepRecover s a else none

def passed : AddPc → Bool
  | .sent | .logged | .kept | .written | .dead => true
  | _ => false

/-- A request that is about to find no duplicate has the payload of every request for its key
that went before it. -/
def solePayload (s : State) : Act → Prop
  | .add c .checkWal =>
    match s.adds.get c with
    | some r => (s.walIndex.get r.copy.1).isSome ∨
        ∀ e ∈ s.adds.entries, e.2.copy.1 = r.copy.1 → passed e.2.pc → e.2.copy = r.copy
    | none => True
  | _ => True

instance (s : State) (a : Act) : Decidable (solePayload s a) := by
  unfold solePayload
  split
  · split <;> infer_instance
  · infer_instance

section Invariant

def leaves : AddPc → Bool
  | .logged | .kept | .written | .dead => true
  | _ => false

def Left (adds : Table Nat AddReq) (x : Copy) : Prop :=
  ∃ c pc, adds.get c = some ⟨x, pc⟩ ∧ leaves pc = true

def Copied (s : State) (x : Copy) : Prop :=
  x ∈ s.wal ∨ x ∈ s.segments ∨ x ∈ s.cache.hot.entries ∨ x ∈ s.cache.warm.entries ∨
    x ∈ s.entryIndex.entries ∨ x ∈ s.walIndex.entries ∨ x ∈ s.flush.pending ∨
    ∃ i, s.reads.get i = some ⟨x.1, .returned x.2⟩

def Agree (adds : Table Nat AddReq) : Prop :=
  ∀ c c' r r', adds.get c = some r → adds.get c' = some r' → passed r.pc → passed r'.pc →
    r.copy.1 = r'.copy.1 → r.copy = r'.copy

structure Inv (s : State) : Prop where
  agree : Agree s.adds
  copies : ∀ x, Copied s x → Left s.adds x

theorem passed_of_leaves {pc : AddPc} (h : leaves pc = true) : passed pc = true := by
  cases pc <;> first | rfl | cases h

theorem Inv.same_payload {s : State} (h : Inv s) {k : Key} {p q : Bytes} (hp : Copied s (k, p))
    (hq : Copied s (k, q)) : p = q := by
  obtain ⟨c, pc, hc, hl⟩ := h.copies _ hp
  obtain ⟨c', pc', hc', hl'⟩ := h.copies _ hq
  have heq := h.agree c c' _ _ hc hc' (passed_of_leaves hl) (passed_of_leaves hl') rfl
  exact congrArg Prod.snd heq

variable {s t : State}

theorem Inv.next (h : Inv s) (hagree : Agree t.adds)
    (hleft : ∀ x, Left s.adds x → Left t.adds x)
    (hcopies : ∀ x, Copied t x → Copied s x ∨ Left t.adds x) : Inv t :=
  ⟨hagree, fun x hx => (hcopies x hx).elim (fun hold => hleft x (h.copies x hold)) id⟩

theorem Inv.frame (h : Inv s) (hadds : t.adds = s.adds)
    (hcopies : ∀ x, Copied t x → Copied s x) : Inv t := by
  refine h.next ?_ ?_ fun x hx => .inl (hcopies x hx)
  · rw [hadds]
    exact h.agree
  · rw [hadds]
    exact fun _ hl => hl

theorem Left.put {adds : Table Nat AddReq} {c : Nat} {copy x : Copy} {pc : AddPc}
    (h : Left adds x)
    (hold : ∀ r, adds.get c = some r → leaves r.pc = true → r.copy = copy ∧ leaves pc = true) :
    Left (adds.put c ⟨copy, pc⟩) x := by
  obtain ⟨c', pc', hget, hl⟩ := h
  by_cases hc : c' = c
  · subst hc
    obtain ⟨rfl, hpc⟩ := hold _ hget hl
    exact ⟨c', pc, Table.get_put_self _ _ _, hpc⟩
  · exact ⟨c', pc', (Table.get_put_ne _ _ hc).trans hget, hl⟩

theorem Agree.put {adds : Table Nat AddReq} {c : Nat} {copy : Copy} {pc : AddPc}
    (h : Agree adds) (hnew : passed pc = true → ∀ c' r', c' ≠ c → adds.get c' = some r' →
      passed r'.pc → r'.copy.1 = copy.1 → r'.copy = copy) :
    Agree (adds.put c ⟨copy, pc⟩) := by
  intro c₁ c₂ r₁ r₂ h₁ h₂ hp₁ hp₂ hk
  rw [Table.get_put] at h₁ h₂
  split_ifs at h₁ h₂ with e₁ e₂ e₂
  · cases h₁
    cases h₂
    rfl
  · cases h₁
    exact (hnew hp₁ c₂ r₂ e₂ h₂ hp₂ hk.symm).symm
  · cases h₂
    exact hnew hp₂ c₁ r₁ e₁ h₁ hp₁ hk
  · exact h c₁ c₂ r₁ r₂ h₁ h₂ hp₁ hp₂ hk

theorem Inv.move (h : Inv s) {c : Nat} {copy : Copy} {pc pc' : AddPc}
    (hget : s.adds.get c = some ⟨copy, pc⟩) (hl : leaves pc = true → leaves pc' = true)
    (hp : passed pc' = true → passed pc = true) (ht : t.adds = s.adds.put c ⟨copy, pc'⟩)
    (hcopies : ∀ x, Copied t x → Copied s x ∨ x = copy ∧ leaves pc' = true) : Inv t := by
  refine h.next ?_ ?_ fun x hx => (hcopies x hx).imp_right ?_
  · rw [ht]
    refine h.agree.put fun hpc c' r' _ hget' hp' hk => ?_
    exact h.agree c' c r' _ hget' hget hp' (hp hpc) hk
  · intro x hx
    rw [ht]
    refine hx.put fun r hr hleaves => ?_
    rw [hget] at hr
    cases hr
    exact ⟨rfl, hl hleaves⟩
  · rintro ⟨rfl, hpc⟩
    rw [ht]
    exact ⟨c, pc', Table.get_put_self _ _ _, hpc⟩

theorem mem_insert_hot {cache : EntrySegmentCache} {k : Key} {b : Bytes} {x : Copy}
    (h : x ∈ (cache.insert k b).hot.entries) : x = (k, b) ∨ x ∈ cache.hot.entries := by
  unfold EntrySegmentCache.insert at h
  split_ifs at h
  · exact .inr h
  · exact Table.mem_put h
  · exact Table.mem_put h

theorem mem_of_get {cache : EntrySegmentCache} {k : Key} {b : Bytes} (h : cache.get k = some b) :
    (k, b) ∈ cache.hot.entries ∨ (k, b) ∈ cache.warm.entries := by
  rw [Table.mem_entries_iff, Table.mem_entries_iff]
  exact EntrySegmentCache.get_cases h

theorem inv_add {c : Nat} {a : AddAct} (h : Inv s) (hg : solePayload s (.add c a))
    (hst : stepAdd s c a = some t) : Inv t := by
  unfold stepAdd at hst
  split at hst
  case h_1 copy hget =>
    cases hst
    refine h.next ?_ (fun x hx => hx.put fun r hr => ?_) fun x hx => .inl hx
    · exact h.agree.put fun hpc => by cases hpc
    · rw [hget] at hr
      cases hr
  case h_2 copy hget =>
    cases hst
    exact h.move hget (fun hl => by cases hl) (fun hp => by cases hp) rfl fun x hx => .inl hx
  case h_3 copy hget =>
    cases hst
    refine h.move hget (fun hl => by cases hl) ?_ rfl fun x hx => .inl hx
    split_ifs <;> nofun
  case h_4 copy hget =>
    cases hst
    refine h.move hget (fun hl => by cases hl) ?_ rfl fun x hx => .inl hx
    split_ifs <;> nofun
  case h_5 copy hget =>
    cases hst
    simp only [solePayload, hget] at hg
    rcases hg with hdup | hsole
    · rw [if_pos hdup]
      exact h.move hget (fun hl => by cases hl) (fun hp => by cases hp) rfl fun x hx => .inl hx
    · refine h.next ?_ (fun x hx => hx.put fun r hr hl => ?_) fun x hx => .inl hx
      · refine h.agree.put fun _ c' r' _ hget' hp' hk => ?_
        exact hsole (c', r') ((s.adds.mem_entries_iff _ _).mpr hget') hk hp'
      · rw [hget] at hr
        cases hr
        cases hl
  case h_6 copy hget =>
    cases hst
    refine h.move hget (fun hl => by cases hl) (fun _ => rfl) rfl fun x hx => ?_
    simp only [Copied, setAdd, leaves, List.mem_append, List.mem_singleton] at hx ⊢
    grind only
  case h_7 copy hget =>
    cases hst
    refine h.move hget (fun hl => by cases hl) (fun _ => rfl) rfl fun x hx => ?_
    simp only [Copied, setAdd, leaves, List.mem_append, List.mem_singleton] at hx ⊢
    grind only
  case h_8 copy hget =>
    cases hst
    exact h.move hget (fun hl => by cases hl) (fun hp => by cases hp) rfl fun x hx => .inl hx
  case h_9 copy hget =>
    cases hst
    refine h.move hget (fun _ => rfl) (fun _ => rfl) rfl fun x hx => ?_
    simp only [Copied, setAdd, leaves, EntrySegmentCache.insert_warm] at hx ⊢
    have hhot := @mem_insert_hot s.cache copy.1 copy.2 x
    grind only
  case h_10 => cases hst

theorem answer_returned {found : Option Bytes} {ok : Bool} {next : ReadPc} {p : Bytes}
    (h : answer found ok next = .returned p) (hnext : next ≠ .returned p) : found = some p := by
  unfold answer at h
  split at h
  · split_ifs at h
    cases h
    rfl
  · exact absurd h hnext

theorem Inv.read (h : Inv s) {i : Nat} {k : Key} {pc : ReadPc}
    (hpc : ∀ p, pc = .returned p → Copied s (k, p)) : Inv (setRead s i k pc) := by
  refine h.frame rfl fun x hx => ?_
  have hreads : (∃ j, (s.reads.put i ⟨k, pc⟩).get j = some ⟨x.1, .returned x.2⟩) →
      Copied s x := by
    rintro ⟨j, hj⟩
    rw [Table.get_put] at hj
    split_ifs at hj
    · cases hj
      exact hpc _ rfl
    · exact .inr (.inr (.inr (.inr (.inr (.inr (.inr ⟨j, hj⟩))))))
  simp only [Copied, setRead] at hx hreads ⊢
  grind only

theorem inv_read {i : Nat} {a : ReadAct} (h : Inv s) (hst : stepRead s i a = some t) : Inv t := by
  unfold stepRead at hst
  split at hst
  case h_1 =>
    cases hst
    exact h.read nofun
  case h_2 k hget =>
    cases hst
    refine h.read fun p hp => ?_
    have hcopy := mem_of_get (answer_returned hp nofun)
    simp only [Copied]
    grind only
  case h_3 k hget =>
    cases hst
    refine h.read fun p hp => ?_
    have hcopy := (s.entryIndex.mem_entries_iff k p).mpr (answer_returned hp nofun)
    simp only [Copied]
    grind only
  case h_4 k hget =>
    cases hst
    refine h.read fun p hp => ?_
    have hcopy := (s.walIndex.mem_entries_iff k p).mpr (answer_returned hp nofun)
    simp only [Copied]
    grind only
  case h_5 => cases hst

theorem inv_flush {a : FlushAct} (h : Inv s) (hst : stepFlush s a = some t) : Inv t := by
  unfold stepFlush at hst
  by_cases hstop : s.flush.stopped = true
  · rw [if_pos hstop] at hst
    cases hst
  rw [if_neg hstop] at hst
  split at hst
  case h_1 order hpend =>
    split_ifs at hst with hperm
    cases hst
    have hperm := List.isPerm_iff.mp hperm
    refine h.frame rfl fun x hx => ?_
    have hwarm : x ∈ (s.cache.drainHotToWarm order).warm.entries →
        x ∈ s.cache.hot.entries ∨ x ∈ s.cache.warm.entries := by
      intro hx
      rw [Table.mem_entries_iff, EntrySegmentCache.drain_warm_get hperm] at hx
      exact mem_of_get hx
    have hhot : x ∉ (s.cache.drainHotToWarm order).hot.entries := List.not_mem_nil
    have hpending := hperm.mem_iff (a := x)
    simp only [Copied] at hx ⊢
    grind only
  case h_2 =>
    split_ifs at hst with hsync
    cases hst
    refine h.frame rfl fun x hx => ?_
    simp only [Copied, List.mem_append] at hx ⊢
    grind only
  case h_3 left _ =>
    split_ifs at hst with hleft
    cases hst
    refine h.frame rfl fun x hx => ?_
    have hsub := @hleft x
    simp only [Copied, List.mem_append] at hx ⊢
    grind only
  case h_4 k payload rest hpend =>
    split_ifs at hst with hsync
    cases hst
    refine h.frame rfl fun x hx => ?_
    have hentry := @Table.mem_put _ _ _ s.entryIndex k payload x
    simp only [Copied, hpend, List.mem_cons] at hx ⊢
    grind only
  case h_5 k payload rest hpend =>
    split_ifs at hst with hindexed
    cases hst
    refine h.frame rfl fun x hx => ?_
    have hwal := @Table.mem_del _ _ _ s.walIndex k x
    simp only [Copied, hpend, List.mem_cons] at hx ⊢
    grind only
  case h_6 hpend =>
    cases hst
    refine h.frame rfl fun x hx => ?_
    have hwarm : x ∉ s.cache.evictWarm.warm.entries := List.not_mem_nil
    have hhot : s.cache.evictWarm.hot = s.cache.hot := rfl
    simp only [Copied, hhot] at hx ⊢
    grind only
  case h_7 =>
    cases hst
    exact h.frame rfl fun x hx => hx
  case h_8 => cases hst

theorem crashedAdd_copy (r : AddReq) : (crashedAdd r).copy = r.copy := by
  unfold crashedAdd
  split <;> rfl

theorem passed_of_crashed {r : AddReq} (h : passed (crashedAdd r).pc = true) :
    passed r.pc = true := by
  obtain ⟨copy, pc⟩ := r
  cases pc <;> first | rfl | cases h

theorem leaves_crashed {r : AddReq} (h : leaves r.pc = true ∨ r.pc = .sent) :
    leaves (crashedAdd r).pc = true := by
  obtain ⟨copy, pc⟩ := r
  cases pc <;> first | rfl | rcases h with h | h <;> cases h

theorem Left.crash {adds : Table Nat AddReq} {c : Nat} {x : Copy} {pc : AddPc}
    (hget : adds.get c = some ⟨x, pc⟩) (h : leaves pc = true ∨ pc = .sent) :
    Left (adds.map crashedAdd) x := by
  refine ⟨c, (crashedAdd ⟨x, pc⟩).pc, ?_, leaves_crashed h⟩
  have hcopy := crashedAdd_copy ⟨x, pc⟩
  rw [Table.get_map, hget, Option.map_some]
  cases hr : crashedAdd ⟨x, pc⟩
  rw [hr] at hcopy
  cases hcopy
  rfl

theorem mem_sentCopies {x : Copy} (h : x ∈ sentCopies s) :
    ∃ c, s.adds.get c = some ⟨x, .sent⟩ := by
  obtain ⟨⟨copy, pc⟩, hr, rfl⟩ := List.mem_map.mp h
  obtain ⟨hmem, hpc⟩ := List.mem_filter.mp hr
  cases of_decide_eq_true hpc
  exact (s.adds.mem_values_iff _).mp hmem

theorem inv_crash {wal segments : List Copy} {entryIndex walIndex : Table Key Bytes} (h : Inv s)
    (hst : crash s wal segments entryIndex walIndex = some t) : Inv t := by
  unfold crash at hst
  split_ifs at hst with hleft
  obtain ⟨hwal, hseg, hentry, hindex⟩ := hleft
  cases hst
  refine h.next ?_ ?_ fun x hx => ?_
  · intro c c' r r' hr hr' hp hp' hk
    rw [Table.get_map] at hr hr'
    obtain ⟨r₀, hr₀, rfl⟩ := Option.map_eq_some_iff.mp hr
    obtain ⟨r₁, hr₁, rfl⟩ := Option.map_eq_some_iff.mp hr'
    rw [crashedAdd_copy, crashedAdd_copy] at hk ⊢
    exact h.agree c c' r₀ r₁ hr₀ hr₁ (passed_of_crashed hp) (passed_of_crashed hp') hk
  · rintro x ⟨c, pc, hget, hl⟩
    exact .crash hget (.inl hl)
  · have hlogged : x ∈ wal → x ∈ s.wal ∨ Left (s.adds.map crashedAdd) x := by
      intro hx
      refine (List.mem_append.mp (hwal hx)).imp_right fun hsent => ?_
      obtain ⟨c, hget⟩ := mem_sentCopies hsent
      exact .crash hget (.inr rfl)
    have hflushed : x ∈ segments → x ∈ s.segments ∨ x ∈ s.flush.pending :=
      fun hx => List.mem_append.mp (hseg hx)
    have hrow : x ∈ entryIndex.entries → x ∈ s.segments ∨ x ∈ s.entryIndex.entries :=
      fun hx => List.mem_append.mp (hentry hx)
    have hwalRow : x ∈ walIndex.entries → x ∈ s.wal ∨ x ∈ s.walIndex.entries :=
      fun hx => List.mem_append.mp (hindex hx)
    have hreads : (∃ i, (s.reads.filter fun e => e.2.pc matches .returned _).get i =
        some ⟨x.1, .returned x.2⟩) → ∃ i, s.reads.get i = some ⟨x.1, .returned x.2⟩ := by
      rintro ⟨i, hi⟩
      rw [Table.get_filter] at hi
      exact ⟨i, (Option.filter_eq_some_iff.mp hi).1⟩
    simp only [Copied, EntrySegmentCache.new, Table.empty, List.not_mem_nil] at hx ⊢
    grind only

theorem mem_ite_put {rows : Table Key Bytes} {copy x : Copy}
    (h : x ∈ (if (rows.get copy.1).isNone then rows.put copy.1 copy.2 else rows).entries) :
    x = copy ∨ x ∈ rows.entries := by
  split_ifs at h
  · exact Table.mem_put h
  · exact .inr h

theorem inv_recover {a : RecoverAct} (h : Inv s) (hst : stepRecover s a = some t) : Inv t := by
  cases a with
  | segment copy =>
    obtain ⟨hmem, hst⟩ := Option.ite_none_right_eq_some.mp hst
    cases hst
    refine h.frame rfl fun x hx => ?_
    have hentry := @mem_ite_put s.entryIndex copy x
    have hseg : x = copy → x ∈ s.segments := fun heq => heq ▸ hmem
    simp only [Copied] at hx ⊢
    grind only
  | purgeEntry k =>
    cases hst
    refine h.frame rfl fun x hx => ?_
    have hentry := @Table.mem_del _ _ _ s.entryIndex k x
    simp only [Copied] at hx ⊢
    grind only
  | replay copy =>
    obtain ⟨hmem, hst⟩ := Option.ite_none_right_eq_some.mp hst
    by_cases hnew : (s.entryIndex.get copy.1).isNone
    · rw [if_pos hnew] at hst
      cases hst
      refine h.frame rfl fun x hx => ?_
      have hindex := @mem_ite_put s.walIndex copy x
      have hhot : x ∈ (s.cache.insert copy.1 copy.2).hot.entries →
          x = copy ∨ x ∈ s.cache.hot.entries := mem_insert_hot
      have hwal : x = copy → x ∈ s.wal := fun heq => heq ▸ hmem
      simp only [Copied, EntrySegmentCache.insert_warm] at hx ⊢
      grind only
    · rw [if_neg hnew] at hst
      cases hst
      exact h
  | purgeWal k =>
    cases hst
    refine h.frame rfl fun x hx => ?_
    have hwal := @Table.mem_del _ _ _ s.walIndex k x
    simp only [Copied] at hx ⊢
    grind only
  | done =>
    cases hst
    exact h.frame rfl fun x hx => hx

theorem inv_step {a : Act} (h : Inv s) (hg : solePayload s a) (hst : step s a = some t) :
    Inv t := by
  cases a with
  | add c a => exact inv_add h hg (Option.ite_none_left_eq_some.mp hst).2
  | read i a => exact inv_read h (Option.ite_none_left_eq_some.mp hst).2
  | flush a => exact inv_flush h (Option.ite_none_left_eq_some.mp hst).2
  | crash wal segments entryIndex walIndex =>
    exact inv_crash h (Option.ite_none_right_eq_some.mp hst).2
  | recover a => exact inv_recover h (Option.ite_none_right_eq_some.mp hst).2

end Invariant

section Immutability

def fresh (flushThreshold : Nat) : State where
  adds := .empty
  reads := .empty
  wal := []
  segments := []
  cache := .new flushThreshold
  entryIndex := .empty
  walIndex := .empty
  flush := ⟨[], false, false, false⟩
  life := .running

def Init (s : State) : Prop := ∃ flushThreshold, s = fresh flushThreshold

theorem inv_init {s : State} (h : Init s) : Inv s := by
  obtain ⟨n, rfl⟩ := h
  refine ⟨fun _ _ _ _ hget => by simp [fresh] at hget, fun x hx => ?_⟩
  simp [Copied, fresh, EntrySegmentCache.new, Table.empty, Table.get] at hx

theorem reads_agree {s : State} (h : Reach (guarded solePayload step) Init s) {i j : Nat}
    {k : Key} {p q : Bytes} (hp : s.reads.get i = some ⟨k, .returned p⟩)
    (hq : s.reads.get j = some ⟨k, .returned q⟩) : p = q := by
  have hinv : Inv s := h.invariant (fun _ => inv_init) fun _ _ _ hinv hst =>
    inv_step hinv ((guarded_eq_some solePayload).mp hst).1 ((guarded_eq_some solePayload).mp hst).2
  have hcopied {i : Nat} {p : Bytes} (hget : s.reads.get i = some ⟨k, .returned p⟩) :
      Copied s (k, p) :=
    .inr (.inr (.inr (.inr (.inr (.inr (.inr ⟨i, hget⟩))))))
  exact hinv.same_payload (hcopied hp) (hcopied hq)

/-- The second writer of an acknowledged entry finds a duplicate, and what is read after a
crash and the replay of the WAL is what was read before it. -/
def retryRun : List Act :=
  [.add 0 (.invoke ((1, 0), [1])), .add 0 .checkCache, .add 0 .checkEntry, .add 0 .checkWal,
   .add 0 (.append .ok), .add 0 .cache,
   .read 0 (.invoke (1, 0)), .read 0 .cache,
   .add 1 (.invoke ((1, 0), [2])), .add 1 .checkCache,
   .flush (.drain [((1, 0), [1])]),
   .crash [((1, 0), [1])] [] .empty .empty, .recover (.replay ((1, 0), [1])), .recover .done,
   .read 1 (.invoke (1, 0)), .read 1 .cache]

theorem retry_reads_agree : ∃ s q,
    Reach (guarded solePayload step) Init s ∧
    s.reads.get 0 = some ⟨(1, 0), .returned [1]⟩ ∧
    s.reads.get 1 = some ⟨(1, 0), .returned q⟩ ∧ [1] = q := by
  have hstart : Init (fresh 100) := ⟨100, rfl⟩
  obtain ⟨s, hreach, hfirst, hsecond⟩ := reach_check (guarded solePayload step) hstart
    (fun s => s.reads.get 0 = some ⟨(1, 0), .returned [1]⟩ ∧
      s.reads.get 1 = some ⟨(1, 0), .returned [1]⟩) retryRun (by decide +kernel)
  exact ⟨s, [1], hreach, hfirst, hsecond, reads_agree hreach hfirst hsecond⟩

def overtakenRun : List Act :=
  [.add 0 (.invoke ((1, 0), [1])), .add 1 (.invoke ((1, 0), [2])),
   .add 0 .checkCache, .add 0 .checkEntry, .add 0 .checkWal,
   .add 1 .checkCache, .add 1 .checkEntry, .add 1 .checkWal,
   .add 0 (.append .ok), .add 0 .cache,
   .read 0 (.invoke (1, 0)), .read 0 .cache]

def overtakingRun : List Act :=
  [.add 1 (.append .ok), .add 1 .cache, .read 1 (.invoke (1, 0)), .read 1 .cache]

theorem read_overtaken : ∃ s t,
    run step (fresh 100) overtakenRun = some s ∧ run step s overtakingRun = some t ∧
    s.adds.get 0 = some ⟨((1, 0), [1]), .written⟩ ∧
    s.reads.get 0 = some ⟨(1, 0), .returned [1]⟩ ∧ s.reads.get 1 = none ∧
    t.reads.get 1 = some ⟨(1, 0), .returned [2]⟩ := by
  obtain ⟨s, hs, hread⟩ := run_check step (fresh 100)
    (fun s => decide (s.adds.get 0 = some ⟨((1, 0), [1]), .written⟩ ∧
      s.reads.get 0 = some ⟨(1, 0), .returned [1]⟩ ∧ s.reads.get 1 = none ∧
      (run step s overtakingRun).map (fun t => t.reads.get 1) =
        some (some ⟨(1, 0), .returned [2]⟩))) overtakenRun (by decide +kernel)
  obtain ⟨hadd, hfirst, hnone, hsecond⟩ := of_decide_eq_true hread
  obtain ⟨t, ht, hread'⟩ := Option.map_eq_some_iff.mp hsecond
  exact ⟨s, t, hs, ht, hadd, hfirst, hnone, hread'⟩

end Immutability
end Folio.EntryCopies
