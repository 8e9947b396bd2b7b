import Folio.NodeFence
import Folio.WalGc
import Mathlib.Order.MinMax

/-! The mark a fence returns is the highest entry id the node holds. -/
namespace Folio.NodeMarks
open KeyedTable Protocol Fjall EntryCache TransitionSystem Node NodeFence
open WalGc (WarmFlushed Pending)

def Indexed (s : State) (k : Key) : Prop :=
  (s.entryIndex.getLocation k).isSome ∨ (s.walIndex.getLocation k).isSome

def Cached (s : State) (k : Key) : Prop := s.cache.contains k = true

def Held (s : State) (k : Key) : Prop := isDuplicate s k = true

theorem held_iff (s : State) (k : Key) : Held s k ↔ Cached s k ∨ Indexed s k := by
  simp [Held, isDuplicate, Cached, Indexed, or_assoc]

theorem held_same {s t : State} {k : Key} (hcache : t.cache = s.cache)
    (hentry : t.entryIndex.locations = s.entryIndex.locations) (hwal : t.walIndex = s.walIndex) :
    Held t k ↔ Held s k := by
  unfold Held isDuplicate FjallIndex.getLocation
  rw [hcache, hentry, hwal]

theorem held_cache {env : Env} {s : State} {c : Nat} {k : Key} (e : Entry) (req : AddReq)
    (pc : AddPc) :
    Held (setAdd (cacheEntry env s e).1 c req pc) k ↔ k = e.key ∨ Held s k := by
  have hcached := s.cache.insert_cached e.key k (env.serialize e)
  rw [held_iff, held_iff, ← or_assoc]
  exact or_congr hcached Iff.rfl

structure MarkInv (s : State) : Prop where
  marked : ∀ c e, s.adds.get c = some ⟨e, .marked⟩ → e.entryId ≤ memMark s e.ledgerId
  source : ∀ l n, s.hiEntry.get l = some n →
    Held s (l, n) ∨ ∃ c e, s.adds.get c = some ⟨e, .marked⟩ ∧ e.key = (l, n)
  cached : ∀ k, Cached s k → k.2 ≤ memMark s k.1 ∨ Indexed s k

section AddSteps
variable {env : Env} {s t : State} {c : Nat}

theorem MarkInv.move {req : AddReq} (h : MarkInv s) (hcache : t.cache = s.cache)
    (hhi : t.hiEntry = s.hiEntry) (hentry : t.entryIndex.locations = s.entryIndex.locations)
    (hwal : t.walIndex = s.walIndex) (hadds : t.adds = s.adds.put c req)
    (hold : (s.adds.get c).map AddReq.pc ≠ some .marked) (hnew : req.pc ≠ .marked) :
    MarkInv t := by
  have hmark : memMark t = memMark s := by
    funext l
    unfold memMark
    rw [hhi]
  have hindexed : ∀ k, Indexed t k ↔ Indexed s k := fun k => by
    unfold Indexed FjallIndex.getLocation
    rw [hentry, hwal]
  have hheld : ∀ k, Held t k ↔ Held s k := fun k => held_same hcache hentry hwal
  constructor
  · intro c' e hget
    rw [hadds, Table.get_put] at hget
    split_ifs at hget
    · cases hget
      exact absurd rfl hnew
    · rw [hmark]
      exact h.marked c' e hget
  · intro l n hn
    rw [hhi] at hn
    rw [hheld]
    refine (h.source l n hn).imp_right ?_
    rintro ⟨c', e, hget, hkey⟩
    have hne : c' ≠ c := fun heq => hold (by rw [← heq, hget]; rfl)
    exact ⟨c', e, by rw [hadds, Table.get_put_ne _ _ hne, hget], hkey⟩
  · intro k hk
    unfold Cached at hk
    rw [hcache] at hk
    rw [hmark, hindexed]
    exact h.cached k hk

theorem raise_get {t : Table Nat Nat} {ledger n l m : Nat}
    (h : (raise t ledger n).get l = some m) : t.get l = some m ∨ l = ledger ∧ m = n := by
  unfold raise at h
  rw [Table.get_put] at h
  split_ifs at h with hl
  · subst hl
    cases hold : t.get l with
    | none =>
      rw [hold] at h
      exact .inr ⟨rfl, (Option.some.inj h).symm⟩
    | some old =>
      rw [hold] at h
      have hm : max n old = m := Option.some.inj h
      rcases Nat.le_total n old with hle | hle
      · left
        rw [← hm, max_eq_right hle]
      · exact .inr ⟨rfl, by rw [← hm, max_eq_left hle]⟩
  · exact .inl h

theorem MarkInv.mark {e : Entry} (h : MarkInv s) (hget : s.adds.get c = some ⟨e, .logged⟩) :
    MarkInv (setAdd { s with hiEntry := raise s.hiEntry e.ledgerId e.entryId } c
      ⟨e, .logged⟩ .marked) := by
  have hmark : ∀ l, memMark (setAdd { s with hiEntry := raise s.hiEntry e.ledgerId e.entryId } c
      ⟨e, .logged⟩ .marked) l =
        if l = e.ledgerId then max e.entryId (memMark s l) else memMark s l :=
    memMark_raise s e.ledgerId e.entryId
  have hmono : ∀ l, memMark s l ≤ memMark (setAdd { s with
      hiEntry := raise s.hiEntry e.ledgerId e.entryId } c ⟨e, .logged⟩ .marked) l := fun l => by
    rw [hmark]
    split_ifs <;> omega
  constructor
  · intro c' e' hget'
    dsimp only [setAdd] at hget'
    rw [Table.get_put] at hget'
    split_ifs at hget'
    · cases hget'
      rw [hmark, if_pos rfl]
      exact le_max_left _ _
    · exact (h.marked c' e' hget').trans (hmono _)
  · intro l n hn
    rcases raise_get hn with hold | ⟨rfl, rfl⟩
    · refine (h.source l n hold).imp_right ?_
      rintro ⟨c', e', hget', hkey⟩
      have hne : c' ≠ c := fun heq => by
        rw [heq, hget] at hget'
        cases hget'
      exact ⟨c', e', (Table.get_put_ne _ _ hne).trans hget', hkey⟩
    · exact .inr ⟨c, e, Table.get_put_self _ _ _, rfl⟩
  · intro k hk
    exact (h.cached k hk).imp_left fun hle => hle.trans (hmono _)

theorem MarkInv.cacheInsert {e : Entry} {reply : AddReply} (h : MarkInv s)
    (hget : s.adds.get c = some ⟨e, .marked⟩) :
    MarkInv (setAdd (cacheEntry env s e).1 c ⟨e, .marked⟩ (.returned reply)) := by
  have hcached : ∀ k, Cached (setAdd (cacheEntry env s e).1 c ⟨e, .marked⟩ (.returned reply)) k ↔
      k = e.key ∨ Cached s k := fun k => s.cache.insert_cached e.key k _
  constructor
  · intro c' e' hget'
    dsimp only [setAdd, cacheEntry] at hget'
    rw [Table.get_put] at hget'
    split_ifs at hget'
    · cases hget'
    · exact h.marked c' e' hget'
  · intro l n hn
    have hsource := h.source l n hn
    rw [held_iff] at hsource ⊢
    rw [hcached]
    rcases hsource with (hc | hi) | ⟨c', e', hget', hkey⟩
    · exact .inl (.inl (.inr hc))
    · exact .inl (.inr hi)
    · by_cases hc : c' = c
      · subst hc
        obtain rfl : e' = e := congrArg AddReq.entry (Option.some.inj (hget'.symm.trans hget))
        exact .inl (.inl (.inl hkey.symm))
      · exact .inr ⟨c', e', (Table.get_put_ne _ _ hc).trans hget', hkey⟩
  · intro k hk
    rcases (hcached k).mp hk with rfl | hk
    · exact .inl (h.marked c e hget)
    · exact h.cached k hk

theorem MarkInv.add (h : MarkInv s) (hst : AddStep env s c t) : MarkInv t := by
  cases hst with
  | invoke e hget =>
    exact h.move rfl rfl rfl rfl rfl (by simp [hget]) (by simp)
  | fenceCheck e hget =>
    refine h.move rfl rfl rfl rfl rfl (by simp [hget]) ?_
    dsimp only
    unfold fenceCheck
    split_ifs <;> simp
  | register e u pc hget hu hpc =>
    rw [hu.state]
    exact h.move rfl rfl hu.locations rfl rfl (by simp [hget])
      (by rcases hpc with rfl | ⟨err, rfl⟩ <;> simp)
  | dupCheck e hget =>
    refine h.move rfl rfl rfl rfl rfl (by simp [hget]) ?_
    dsimp only
    unfold dupCheck
    split_ifs <;> simp
  | journal e pc hget hopen hpc =>
    exact h.move rfl rfl rfl rfl rfl (by simp [hget])
      (by rcases hpc with rfl | ⟨err, rfl⟩ <;> simp)
  | journalLost e err hget =>
    exact h.move rfl rfl rfl rfl rfl (by simp [hget]) (by simp)
  | mark e hget => exact h.mark hget
  | cache e hget => exact h.cacheInsert hget

theorem held_addStep (hst : AddStep env s c t) (k : Key) :
    Held t k ↔ Held s k ∨ ∃ e reply, s.adds.get c = some ⟨e, .marked⟩ ∧ e.key = k ∧
      t.adds.get c = some ⟨e, .returned reply⟩ := by
  have hsame : ∀ {e pc}, s.adds.get c = some ⟨e, pc⟩ → pc ≠ .marked → (Held t k ↔ Held s k) →
      (Held t k ↔ Held s k ∨ ∃ e reply, s.adds.get c = some ⟨e, .marked⟩ ∧ e.key = k ∧
        t.adds.get c = some ⟨e, .returned reply⟩) := by
    intro e pc hget hpc hheld
    simp [hheld, hget, hpc]
  cases hst with
  | invoke e hget => simp [hget, Held, isDuplicate]
  | fenceCheck e hget => exact hsame hget (by simp) Iff.rfl
  | register e u pc hget hu _ =>
    refine hsame hget (by simp) ?_
    rw [hu.state]
    exact held_same rfl hu.locations rfl
  | dupCheck e hget => exact hsame hget (by simp) Iff.rfl
  | journal e pc hget _ _ => exact hsame hget (by simp) Iff.rfl
  | journalLost e err hget => exact hsame hget (by simp) Iff.rfl
  | mark e hget => exact hsame hget (by simp) Iff.rfl
  | cache e hget =>
    have hput : (setAdd (cacheEntry env s e).1 c ⟨e, .marked⟩
        (.returned (cacheEntry env s e).2)).adds.get c =
          some ⟨e, .returned (cacheEntry env s e).2⟩ := Table.get_put_self _ _ _
    rw [held_cache, hput, hget, or_comm]
    refine or_congr Iff.rfl ⟨?_, ?_⟩
    · rintro rfl
      exact ⟨e, _, rfl, rfl, rfl⟩
    · rintro ⟨e', reply, he, rfl, -⟩
      cases he
      rfl

end AddSteps

section OtherSteps
variable {env : Env} {s t : State}

theorem MarkInv.moveEntries (h : MarkInv s) (hadds : t.adds = s.adds) (hhi : t.hiEntry = s.hiEntry)
    (hheld : ∀ k, Held s k → Held t k) (hcached : ∀ k, Cached t k → Cached s k ∨ Indexed t k)
    (hindexed : ∀ k, Indexed s k → Indexed t k) : MarkInv t := by
  have hmark : memMark t = memMark s := by
    funext l
    unfold memMark
    rw [hhi]
  constructor
  · rw [hadds, hmark]
    exact h.marked
  · intro l n hn
    rw [hhi] at hn
    rw [hadds]
    exact (h.source l n hn).imp_left (hheld _)
  · intro k hk
    rw [hmark]
    rcases hcached k hk with hk | hk
    · exact (h.cached k hk).imp_right (hindexed k)
    · exact .inr hk

theorem MarkInv.drain {order : List (Key × Bytes)} (h : MarkInv s)
    (hperm : order.Perm s.cache.hot.entries) :
    MarkInv { s with
      cache := s.cache.drainHotToWarm order
      flush := { s.flush with pending := order, synced := false, indexed := false } } := by
  have hcached := EntrySegmentCache.drain_cached hperm
  refine h.moveEntries rfl rfl (fun k hk => ?_) (fun k hk => .inl ?_) fun _ hk => hk
  · rw [held_iff] at hk ⊢
    exact hk.imp_left fun hc => (hcached k).trans hc
  · exact (hcached k).symm.trans hk

theorem MarkInv.reindex {entryIndex walIndex : FjallIndex} {flush : Flush} (h : MarkInv s)
    (hindexed : ∀ k, Indexed s k → Indexed { s with entryIndex, walIndex, flush } k) :
    MarkInv { s with entryIndex, walIndex, flush } := by
  refine h.moveEntries rfl rfl (fun k hk => ?_) (fun _ hk => .inl hk) hindexed
  rw [held_iff] at hk ⊢
  exact hk.imp_right (hindexed k)

theorem indexed_insert {k₀ k : Key} (segId offset length : Nat) (flush : Flush)
    (h : Indexed s k) : Indexed { s with
      entryIndex := s.entryIndex.insertLocation k₀ segId offset length, flush } k :=
  h.imp_left (FjallIndex.located_insert _ k₀ segId offset length)

theorem indexed_unlink {k₀ k : Key} (flush : Flush) (hhead : (s.entryIndex.getLocation k₀).isSome)
    (h : Indexed s k) :
    Indexed { s with walIndex := s.walIndex.deleteLocation k₀, flush } k := by
  by_cases heq : k = k₀
  · exact .inl (heq ▸ hhead)
  · refine h.imp_right fun hwal => ?_
    rw [FjallIndex.getLocation_delete, if_neg heq]
    exact hwal

theorem MarkInv.evict (h : MarkInv s) (hwarm : WarmFlushed s) (hnone : s.flush.pending = []) :
    MarkInv { s with cache := s.cache.evictWarm } := by
  have hcached : ∀ k, Cached { s with cache := s.cache.evictWarm } k ↔
      (s.cache.hot.get k).isSome := fun k => by
    simp [Cached, EntrySegmentCache.contains, EntrySegmentCache.evictWarm, Table.get_empty]
  have hcached' : ∀ k, Cached s k ↔ (s.cache.hot.get k).isSome ∨ (s.cache.warm.get k).isSome :=
    fun k => Bool.or_eq_true_iff
  refine h.moveEntries rfl rfl (fun k hk => ?_) (fun k hk => .inl ?_) fun _ hk => hk
  · rw [held_iff, hcached'] at hk
    rw [held_iff, hcached]
    rcases hk with (hhot | hk) | hi
    · exact .inl hhot
    · exact .inr (.inl ((hwarm k hk).resolve_right (WalGc.not_pending_of_nil hnone)))
    · exact .inr hi
  · exact (hcached' k).mpr (.inl ((hcached k).mp hk))

theorem MarkInv.same (h : MarkInv s) (hadds : t.adds = s.adds) (hhi : t.hiEntry = s.hiEntry)
    (hcache : t.cache = s.cache) (hentry : t.entryIndex.locations = s.entryIndex.locations)
    (hwal : t.walIndex = s.walIndex) : MarkInv t := by
  have hindexed : ∀ k, Indexed t k ↔ Indexed s k := fun k => by
    unfold Indexed FjallIndex.getLocation
    rw [hentry, hwal]
  have hcached : ∀ k, Cached t k ↔ Cached s k := fun k => by
    unfold Cached
    rw [hcache]
  refine h.moveEntries hadds hhi (fun k hk => ?_) (fun k hk => .inl ((hcached k).mp hk))
    fun k hk => (hindexed k).mpr hk
  rw [held_iff] at hk ⊢
  exact hk.imp (hcached k).mpr (hindexed k).mpr

theorem held_flushStep {k : Key} (hwarm : WarmFlushed s) (hhead : HeadIndexed s)
    (hpend : ∀ k, Pending s k → Held s k) (hst : FlushStep s t) : Held t k ↔ Held s k := by
  rw [held_iff, held_iff]
  cases hst with
  | drain order hnone hperm =>
    unfold Cached
    rw [EntrySegmentCache.drain_cached hperm]
    rfl
  | write _ _ => rfl
  | index k₀ b rest segId offset length hp hsync hnot =>
    by_cases hk : k = k₀
    · refine iff_of_true (.inr (.inl ?_)) ((held_iff s k).mp (hpend k ?_))
      · simp [hk, FjallIndex.getLocation_insert]
      · exact (WalGc.pending_index s.entryIndex hp hnot).mpr (.inl hk)
    · unfold Indexed
      rw [FjallIndex.getLocation_insert, if_neg hk]
      rfl
  | unlink k₀ b rest hp hindexed =>
    by_cases hk : k = k₀
    · subst hk
      have hhead := hhead hindexed k b rest hp
      exact iff_of_true (.inr (.inl hhead)) (.inr (.inl hhead))
    · unfold Indexed
      rw [FjallIndex.getLocation_delete, if_neg hk]
      rfl
  | evict hnone =>
    have hflushed : (s.cache.warm.get k).isSome → Indexed s k := fun hk =>
      .inl ((hwarm k hk).resolve_right (WalGc.not_pending_of_nil hnone))
    have hcached : Cached s k ↔ (s.cache.hot.get k).isSome ∨ (s.cache.warm.get k).isSome :=
      Bool.or_eq_true_iff
    have hevicted : Cached { s with cache := s.cache.evictWarm } k ↔
        (s.cache.hot.get k).isSome := by
      simp [Cached, EntrySegmentCache.contains, EntrySegmentCache.evictWarm, Table.get_empty]
    rw [hcached, hevicted]
    refine ⟨fun hk => hk.imp_left .inl, ?_⟩
    rintro ((hhot | hwarm) | hi)
    · exact .inl hhot
    · exact .inr (hflushed hwarm)
    · exact .inr hi
  | stop => rfl

theorem pending_flushStep {k : Key} (hpend : ∀ k, Pending s k → Held s k)
    (hst : FlushStep s t) (hk : Pending t k) : Held s k := by
  cases hst with
  | drain order hnone hperm =>
    have hkey : k ∈ s.cache.hot.keys := (hperm.map Prod.fst).mem_iff.mp hk
    obtain ⟨b, hb⟩ := (Table.mem_keys_iff _ _).mp hkey
    rw [held_iff]
    exact .inl (Bool.or_eq_true_iff.mpr (.inl (by rw [hb]; rfl)))
  | index k₀ b rest segId offset length hp hsync hnot =>
    exact hpend k ((WalGc.pending_index _ hp hnot).mpr (.inr hk))
  | unlink k₀ b rest hp hindexed => exact hpend k ((WalGc.pending_unlink _ hp hindexed).mp hk)
  | write _ _ => exact hpend k hk
  | evict _ => exact hpend k hk
  | stop => exact hpend k hk

theorem markInv_step {a : Act} (h : MarkInv s) (hwarm : WarmFlushed s) (hhead : HeadIndexed s)
    (hst : step env s a = some t) : MarkInv t := by
  rcases step_cases hst with ⟨c, hadd⟩ | ⟨-, hflush⟩ | haside
  · exact h.add hadd
  · cases hflush with
    | drain order hnone hperm => exact h.drain hperm
    | write hpend hsync => exact h.same rfl rfl rfl rfl rfl
    | index k b rest segId offset length hpend hsync hnot =>
      exact h.reindex fun k' => indexed_insert segId offset length _
    | unlink k b rest hpend hindexed =>
      exact h.reindex fun k' => indexed_unlink _ (hhead hindexed k b rest hpend)
    | evict hnone => exact h.evict hwarm hnone
    | stop => exact h.same rfl rfl rfl rfl rfl
  · rw [haside.state]
    exact h.same rfl rfl rfl haside.locations rfl

structure Restarted (s : State) : Prop extends WalGc.Booted s where
  hiEntry : s.hiEntry = .empty
  indexed : ∀ k, Cached s k → Indexed s k

theorem marked_step {a : Act} (h : MarkInv s ∧ WalGc.Inv s ∧ HeadIndexed s)
    (hst : step env s a = some t) : MarkInv t ∧ WalGc.Inv t ∧ HeadIndexed t :=
  ⟨markInv_step h.1 h.2.1.warm h.2.2 hst, WalGc.inv_step h.2.1 hst, headIndexed_step h.2.2 hst⟩

theorem reach_markInv (h : Reach (step env) Restarted s) :
    MarkInv s ∧ WalGc.Inv s ∧ HeadIndexed s := by
  refine h.invariant (P := fun s => MarkInv s ∧ WalGc.Inv s ∧ HeadIndexed s)
    (fun s hs => ⟨?_, ?_, ?_⟩) fun _ _ _ hs => marked_step hs
  · refine ⟨fun c e hget => ?_, fun l n hn => ?_, fun k hk => .inr (hs.indexed k hk)⟩
    · rw [hs.adds] at hget
      cases hget
    · rw [hs.hiEntry] at hn
      cases hn
  · exact WalGc.inv_booted hs.toBooted
  · exact headIndexed_of_idle hs.pending

end OtherSteps

section HighMark
variable {s : State} {ledger : Nat}

theorem nextEntryId_spec (x : FjallIndex) (ledger : Nat)
    (hbound : ∀ id, (x.getLocation (ledger, id)).isSome → id + 1 < 2 ^ 64) :
    (∀ id, (x.getLocation (ledger, id)).isSome → id ≤ x.getNextEntryId ledger - 1) ∧
      (x.getNextEntryId ledger - 1 ≠ 0 →
        (x.getLocation (ledger, x.getNextEntryId ledger - 1)).isSome) := by
  unfold FjallIndex.getNextEntryId
  split
  · rename_i hnone
    refine ⟨fun id hid => ?_, fun hne => absurd rfl hne⟩
    have hmem := (x.mem_indexIds ledger id).mpr hid
    rw [List.max?_eq_none_iff.mp hnone] at hmem
    cases hmem
  · rename_i top htop
    obtain ⟨hmem, hmax⟩ := List.max?_eq_some_iff.mp htop
    have hheld := (x.mem_indexIds ledger top).mp hmem
    rw [Nat.mod_eq_of_lt (hbound top hheld), Nat.add_sub_cancel]
    exact ⟨fun id hid => hmax id ((x.mem_indexIds ledger id).mpr hid), fun _ => hheld⟩

/-- No request of the ledger is between its mark and its cache insert, and no id is the last
`u64`. -/
structure Settled (s : State) (ledger : Nat) : Prop where
  marked : ∀ c e, s.adds.get c = some ⟨e, .marked⟩ → e.ledgerId ≠ ledger
  bound : ∀ id, Indexed s (ledger, id) → id + 1 < 2 ^ 64

theorem highMark_spec (h : MarkInv s) (hs : Settled s ledger) :
    (∀ id, Held s (ledger, id) → id ≤ highMark s ledger) ∧
      (highMark s ledger ≠ 0 → Held s (ledger, highMark s ledger)) := by
  obtain ⟨hle₁, hheld₁⟩ := nextEntryId_spec s.entryIndex ledger
    fun id hid => hs.bound id (.inl hid)
  obtain ⟨hle₂, hheld₂⟩ := nextEntryId_spec s.walIndex ledger
    fun id hid => hs.bound id (.inr hid)
  have hindexed : ∀ id, Indexed s (ledger, id) → id ≤ highMark s ledger := by
    rintro id (hid | hid)
    · exact (hle₁ id hid).trans ((le_max_left _ _).trans (le_max_right _ _))
    · exact (hle₂ id hid).trans ((le_max_right _ _).trans (le_max_right _ _))
  refine ⟨fun id hid => ?_, fun hne => ?_⟩
  · rcases (held_iff s _).mp hid with hc | hi
    · rcases h.cached _ hc with hle | hi
      · exact hle.trans (memMark_le_highMark s ledger)
      · exact hindexed id hi
    · exact hindexed id hi
  · -- the maximum is one of the three values it is taken over
    rcases max_choice (memMark s ledger)
        (max (entryMark s ledger) (walMark s ledger)) with heq | heq
    · have hmark : highMark s ledger = memMark s ledger := heq
      rw [hmark] at hne ⊢
      unfold memMark at hne ⊢
      cases hget : s.hiEntry.get ledger with
      | none =>
        rw [hget] at hne
        exact absurd rfl hne
      | some n =>
        rcases h.source ledger n hget with hheld | ⟨c, e, hadd, hkey⟩
        · exact hheld
        · exact absurd (congrArg Prod.fst hkey) (hs.marked c e hadd)
    · have hmark : highMark s ledger = max (entryMark s ledger) (walMark s ledger) := heq
      rw [hmark] at hne ⊢
      rw [held_iff]
      rcases max_choice (entryMark s ledger) (walMark s ledger) with hmax | hmax <;>
        rw [hmax] at hne ⊢
      · exact .inr (.inl (hheld₁ hne))
      · exact .inr (.inr (hheld₂ hne))

end HighMark
end Folio.NodeMarks
