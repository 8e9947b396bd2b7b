import Folio.ClosedLedger

/-! `open_ledger` calls on one client, whose metadata cache only its own calls fill and
invalidate, among the other parties' calls on the metadata store. -/
namespace Folio.LedgerCache
open KeyedTable Protocol Metadata LedgerClient TransitionSystem
open Recovery (World)
open ClosedLedger (Evolves Seen seen_of_row row fallbackOpen twoNodeWorld
  twoNodeWorld_started idle)

section Client

inductive Pc where
  | lookup
  | fetch
  | insert (m : LedgerMetadata)
  | done (r : Except FolioError LedgerHandle)

def Pc.left : Pc → Nat
  | .lookup => 3
  | .fetch => 2
  | .insert _ => 1
  | .done _ => 0

structure Call where
  ledgerId : Nat
  pc : Pc
  started : Option LedgerMetadata

def Call.opened (call : Call) : Option LedgerMetadata :=
  match call.pc with
  | .done (.ok handle) => some handle.metadata
  | _ => none

structure State where
  system : ClosedLedger.State
  cache : Table Nat LedgerMetadata
  calls : Table Nat Call

inductive Act where
  | other (a : ClosedLedger.Act)
  | openLedger (c ledgerId : Nat)
  | advance (c : Nat)
  | sealLedger (c ledgerId finalLac : Nat)
  | evict (ledgerId : Nat)

def State.setPc (s : State) (c : Nat) (call : Call) (pc : Pc) : State :=
  { s with calls := s.calls.put c { call with pc } }

/-- Metadata in any state but `Open` is cached. -/
def afterFetch : Except FolioError LedgerMetadata → Pc
  | .error e => .done (.error e)
  | .ok m => if m.state ≠ .Open then .insert m else .done (.ok (.new m))

def advance (s : State) (c : Nat) (call : Call) : Option State :=
  match call.pc with
  | .lookup =>
    match s.cache.get call.ledgerId with
    | some m => some (s.setPc c call (.done (.ok (.new m))))
    | none => some (s.setPc c call .fetch)
  | .fetch =>
    some (s.setPc c call (afterFetch (s.system.world.store.getLedger call.ledgerId)))
  | .insert m =>
    some { s.setPc c call (.done (.ok (.new m))) with cache := s.cache.put call.ledgerId m }
  | .done _ => none

def step (crc32 : Bytes → UInt32) (s : State) : Act → Option State
  | .other a => do
    let system ← ClosedLedger.step crc32 s.system a
    some { s with system }
  | .openLedger c ledgerId =>
    match s.calls.get c with
    | none => some { s with
        calls := s.calls.put c ⟨ledgerId, .lookup, row s.system.world ledgerId⟩ }
    | some _ => none
  | .advance c => do
    let call ← s.calls.get c
    advance s c call
  | .sealLedger c ledgerId finalLac => do
    let system ← ClosedLedger.step crc32 s.system (.invoke c (.sealLedger ledgerId finalLac))
    some { s with system, cache := s.cache.del ledgerId }
  | .evict ledgerId => some { s with cache := s.cache.del ledgerId }

structure Started (s : State) : Prop where
  system : ClosedLedger.Started s.system
  cache : s.cache = .empty
  calls : s.calls = .empty

/-- No `open_ledger` of the ledger reads it between the start of a recovery and the seal, and no
`fence_and_seal` falls back to a closed ledger. -/
def readsSettled (ledgerId : Nat) (s : State) (a : Act) : Prop :=
  match a with
  | .other a => fallbackOpen s.system a
  | .advance c =>
    match s.calls.get c with
    | some ⟨id, .fetch, _⟩ => id = ledgerId → ∀ m ∈ row s.system.world id,
        m.state = .Open ∨ m.state = .Closed
    | _ => True
  | _ => True

instance (ledgerId : Nat) (s : State) (a : Act) : Decidable (readsSettled ledgerId s a) := by
  unfold readsSettled
  split
  · infer_instance
  · split <;> infer_instance
  · infer_instance

end Client

section Copies
variable {w w' : World} {m m' cur : LedgerMetadata} {id : Nat}

structure Final (id : Nat) (m : LedgerMetadata) (w : World) : Prop where
  closed : m.state = .Closed
  id_eq : m.id = id
  seen : Seen m w

theorem Final.evolves (h : Final id m w) (he : Evolves w w') : Final id m w' :=
  ⟨h.closed, h.id_eq, h.seen.evolves he⟩

theorem final_of_row (hk : w.store.WellKeyed) (h : row w id = some m)
    (hclosed : m.state = .Closed) : Final id m w :=
  ⟨hclosed, hk id m h, seen_of_row hk h⟩

theorem Final.row (h : Final id m w) : ∃ cur, row w id = some cur ∧ cur.state = .Closed ∧
    cur.lastEntryId = m.lastEntryId ∧ cur.lastAddConfirmed = m.lastAddConfirmed := by
  obtain ⟨cur, hcur, hlater⟩ := h.seen.row
  rw [h.id_eq] at hcur
  exact ⟨cur, hcur, hlater.closed h.closed⟩

end Copies

section Runs
variable {crc32 : Bytes → UInt32} {id c : Nat} {s t : State} {call : Call} {m : LedgerMetadata}
  {w : World}

structure CallInv (w : World) (call : Call) : Prop where
  started : ∀ cur, call.started = some cur → cur.state = .Closed → Final call.ledgerId cur w
  inserts : ∀ m, call.pc = .insert m → Final call.ledgerId m w
  returns : ∀ r, call.pc = .done r → ∀ cur, call.started = some cur → cur.state = .Closed →
    ∃ m, r = .ok (.new m) ∧ Final call.ledgerId m w

theorem CallInv.evolves {w w' : World} (h : CallInv w call) (he : Evolves w w') :
    CallInv w' call where
  started cur hcur hclosed := (h.started cur hcur hclosed).evolves he
  inserts m hm := (h.inserts m hm).evolves he
  returns r hr cur hcur hclosed := by
    obtain ⟨m, hm, hfinal⟩ := h.returns r hr cur hcur hclosed
    exact ⟨m, hm, hfinal.evolves he⟩

structure Inv (crc32 : Bytes → UInt32) (id : Nat) (s : State) : Prop where
  system : ClosedLedger.Inv crc32 s.system
  cache : ∀ m, s.cache.get id = some m → Final id m s.system.world
  calls : ∀ c call, s.calls.get c = some call → call.ledgerId = id →
    CallInv s.system.world call

theorem Inv.evolves {system : ClosedLedger.State} (h : Inv crc32 id s)
    (hev : Evolves s.system.world system.world) (hsystem : ClosedLedger.Inv crc32 system) :
    Inv crc32 id { s with system } where
  system := hsystem
  cache m hm := (h.cache m hm).evolves hev
  calls c call hc hid := (h.calls c call hc hid).evolves hev

theorem Inv.putCall (h : Inv crc32 id s) (hnew : call.ledgerId = id → CallInv s.system.world call) :
    Inv crc32 id { s with calls := s.calls.put c call } where
  system := h.system
  cache := h.cache
  calls := by
    intro c' call' hc hid
    dsimp only at hc
    rw [Table.get_put] at hc
    split_ifs at hc
    · cases hc
      exact hnew hid
    · exact h.calls c' call' hc hid

theorem Inv.del (h : Inv crc32 id s) (key : Nat) :
    Inv crc32 id { s with cache := s.cache.del key } where
  system := h.system
  cache := by
    intro m hm
    dsimp only at hm
    rw [Table.get_del] at hm
    split_ifs at hm
    exact h.cache m hm
  calls := h.calls

theorem Inv.insert {key : Nat} (h : Inv crc32 id s) (hm : key = id → Final id m s.system.world) :
    Inv crc32 id { s with cache := s.cache.put key m } where
  system := h.system
  cache := by
    intro m' hm'
    dsimp only at hm'
    rw [Table.get_put] at hm'
    split_ifs at hm' with hkey
    · cases hm'
      exact hm hkey.symm
    · exact h.cache m' hm'
  calls := h.calls

theorem afterFetch_insert {r : Except FolioError LedgerMetadata} :
    afterFetch r = .insert m ↔ r = .ok m ∧ m.state ≠ .Open := by
  cases r with
  | error e => simp [afterFetch]
  | ok m' =>
    by_cases hopen : m'.state = .Open
    · simp only [afterFetch, hopen, ne_eq, not_true_eq_false, if_false, reduceCtorEq, false_iff]
      rintro ⟨⟨⟩, hne⟩
      exact hne hopen
    · simp only [afterFetch, hopen, ne_eq, not_false_eq_true, if_true, Pc.insert.injEq,
        Except.ok.injEq]
      constructor
      · rintro rfl
        exact ⟨rfl, hopen⟩
      · exact And.left

/-- A fetch that finds the ledger open or closed; it is closed if the call has started so. -/
theorem CallInv.fetch (h : CallInv w call) (hk : w.store.WellKeyed)
    (hsettled : ∀ m ∈ row w call.ledgerId, m.state = .Open ∨ m.state = .Closed) :
    CallInv w { call with pc := afterFetch (w.store.getLedger call.ledgerId) } where
  started := h.started
  inserts := by
    intro m hm
    obtain ⟨hget, hopen⟩ := afterFetch_insert.mp hm
    have hrow := Store.getLedger_ok hget
    exact final_of_row hk hrow ((hsettled m hrow).resolve_left hopen)
  returns := by
    intro r hr cur hcur hclosed
    obtain ⟨cur', hrow, hclosed', -⟩ := (h.started cur hcur hclosed).row
    have hget : w.store.getLedger call.ledgerId = .ok cur' := by
      unfold Store.getLedger
      rw [show w.store.ledgers.get call.ledgerId = some cur' from hrow]
    have hinsert : afterFetch (w.store.getLedger call.ledgerId) = .insert cur' :=
      afterFetch_insert.mpr ⟨hget, by rw [hclosed']; decide⟩
    cases hinsert.symm.trans hr

theorem CallInv.answer (h : CallInv w call)
    (hm : Final call.ledgerId m w) : CallInv w { call with pc := .done (.ok (.new m)) } where
  started := h.started
  inserts := by
    intro m' hm'
    cases hm'
  returns := by
    intro r hr _ _ _
    cases hr
    exact ⟨m, rfl, hm⟩

theorem callInv_waiting {pc : Pc} (hpc : pc = .lookup ∨ pc = .fetch)
    (hstarted : ∀ cur, call.started = some cur → cur.state = .Closed →
      Final call.ledgerId cur w) : CallInv w { call with pc } where
  started := hstarted
  inserts := by
    rintro m ⟨⟩
    simp at hpc
  returns := by
    rintro r ⟨⟩
    simp at hpc

theorem inv_advance (h : Inv crc32 id s) (hc : s.calls.get c = some call)
    (hg : readsSettled id s (.advance c)) (hst : advance s c call = some t) : Inv crc32 id t := by
  have hcall := h.calls c call hc
  unfold advance at hst
  split at hst
  case h_1 hpc =>
    split at hst
    case h_1 m hm =>
      cases hst
      exact h.putCall fun hid => (hcall hid).answer (hid ▸ h.cache m (hid ▸ hm))
    case h_2 =>
      cases hst
      exact h.putCall fun hid => callInv_waiting (.inr rfl) (hcall hid).started
  case h_2 hpc =>
    cases hst
    refine h.putCall fun hid => (hcall hid).fetch h.system.keyed ?_
    obtain ⟨ledgerId, pc, started⟩ := call
    cases hpc
    simp only [readsSettled, hc] at hg
    exact hg hid
  case h_3 m hpc =>
    cases hst
    have hm (hid : call.ledgerId = id) := (hcall hid).inserts m hpc
    refine Inv.insert (h.putCall fun hid => (hcall hid).answer (hm hid)) fun hid => ?_
    exact hid ▸ hm hid
  case h_4 => cases hst

theorem inv_step {a : Act} (h : Inv crc32 id s) (hg : readsSettled id s a)
    (hst : step crc32 s a = some t) : Inv crc32 id t := by
  cases a with
  | other a =>
    simp only [step, Option.bind_eq_bind, Option.bind_eq_some_iff] at hst
    obtain ⟨system, hsystem, ⟨⟩⟩ := hst
    obtain ⟨hev, hinv⟩ := ClosedLedger.inv_step h.system hg hsystem
    exact h.evolves hev hinv
  | openLedger c ledgerId =>
    simp only [step] at hst
    split at hst
    · cases hst
      refine h.putCall fun _ => @callInv_waiting ⟨ledgerId, .lookup, _⟩ _ _ (.inl rfl) ?_
      exact fun cur hcur => final_of_row h.system.keyed hcur
    · cases hst
  | advance c =>
    simp only [step, Option.bind_eq_bind, Option.bind_eq_some_iff] at hst
    obtain ⟨call, hc, hst⟩ := hst
    exact inv_advance h hc hg hst
  | sealLedger c ledgerId finalLac =>
    simp only [step, Option.bind_eq_bind, Option.bind_eq_some_iff] at hst
    obtain ⟨system, hsystem, ⟨⟩⟩ := hst
    obtain ⟨hev, hinv⟩ := ClosedLedger.inv_step (a := .invoke c _) h.system trivial hsystem
    exact (h.evolves hev hinv).del ledgerId
  | evict ledgerId =>
    cases hst
    exact h.del ledgerId

theorem inv_started (h : Started s) : Inv crc32 id s where
  system := ClosedLedger.inv_started h.system
  cache := by
    intro m hm
    rw [h.cache] at hm
    cases hm
  calls := by
    intro c call hc
    rw [h.calls] at hc
    cases hc

theorem inv_of_reach (h : Reach (guarded (readsSettled id) (step crc32)) Started s) :
    Inv crc32 id s := by
  refine h.invariant (fun _ => inv_started) fun s a t hs hst => ?_
  obtain ⟨hg, hst⟩ := (guarded_eq_some _).mp hst
  exact inv_step hs hg hst

theorem afterFetch_left (r : Except FolioError LedgerMetadata) : (afterFetch r).left ≤ 1 := by
  cases r with
  | error e => exact Nat.zero_le 1
  | ok m =>
    dsimp only [afterFetch]
    split_ifs
    · exact Nat.le_refl 1
    · exact Nat.zero_le 1

theorem advance_left (crc32 : Bytes → UInt32) (hc : s.calls.get c = some call)
    (hpc : ∀ r, call.pc ≠ .done r) :
    ∃ t call', step crc32 s (.advance c) = some t ∧ t.calls.get c = some call' ∧
      call'.pc.left < call.pc.left := by
  have hstep : step crc32 s (.advance c) = advance s c call := by
    simp [step, hc]
  rw [hstep]
  unfold advance
  cases hcall : call.pc with
  | lookup =>
    dsimp only
    split <;> exact ⟨_, _, rfl, Table.get_put_self _ _ _, by simp [Pc.left]⟩
  | fetch =>
    exact ⟨_, _, rfl, Table.get_put_self _ _ _, Nat.lt_succ_of_le (afterFetch_left _)⟩
  | insert m => exact ⟨_, _, rfl, Table.get_put_self _ _ _, by simp [Pc.left]⟩
  | done r => exact absurd hcall (hpc r)

/-- If no call reads the ledger while it is in recovery, and no `fence_and_seal` falls back to a
closed ledger, then a call that starts on the closed ledger returns its end. -/
theorem open_ledger_sees_seal (h : Reach (guarded (readsSettled id) (step crc32)) Started s)
    (hc : s.calls.get c = some call) (hid : call.ledgerId = id) {cur : LedgerMetadata}
    (hstarted : call.started = some cur) (hclosed : cur.state = .Closed) :
    (∃ t call', step crc32 s (.advance c) = some t ∧ t.calls.get c = some call' ∧
      call'.pc.left < call.pc.left) ∨
    ∃ handle stored, call.pc = .done (.ok handle) ∧ row s.system.world id = some stored ∧
      handle.metadata.state = .Closed ∧ handle.metadata.lastEntryId = stored.lastEntryId ∧
      handle.metadata.lastAddConfirmed = stored.lastAddConfirmed ∧
      handle.lac = stored.lastAddConfirmed ∧
      stored.lastEntryId = cur.lastEntryId ∧ stored.lastAddConfirmed = cur.lastAddConfirmed := by
  by_cases hdone : ∃ r, call.pc = .done r
  · obtain ⟨r, hr⟩ := hdone
    have hcall := (inv_of_reach h).calls c call hc hid
    obtain ⟨m, rfl, hm⟩ := hcall.returns r hr cur hstarted hclosed
    obtain ⟨stored, hrow, -, hlast, hlac⟩ := hm.row
    obtain ⟨stored', hrow', -, hlast', hlac'⟩ := (hcall.started cur hstarted hclosed).row
    cases hrow.symm.trans hrow'
    rw [hid] at hrow
    exact .inr ⟨_, stored, hr, hrow, hm.closed, hlast.symm, hlac.symm, hlac.symm, hlast', hlac'⟩
  · exact .inl (advance_left crc32 hc fun r hr => hdone ⟨r, hr⟩)

def newClient (w : World) : State := ⟨idle w, .empty, .empty⟩

theorem newClient_started : Started (newClient twoNodeWorld) := ⟨twoNodeWorld_started, rfl, rfl⟩

def sealOf (m : LedgerMetadata) : LedgerState × Option Nat × Nat :=
  (m.state, m.lastEntryId, m.lastAddConfirmed)

def openActs (c : Nat) : List Act := [.openLedger c 1, .advance c, .advance c, .advance c]

def requests (n : Nat) : List Act := List.replicate n (.other (.request 0 .delivered))

/-- The second call finds in the cache what the first one has read. -/
theorem seal_found_in_cache :
    ∃ s call handle stored, Reach (guarded (readsSettled 1) (step Crc32.crc32)) Started s ∧
      s.calls.get 1 = some call ∧ call.pc = .done (.ok handle) ∧
      row s.system.world 1 = some stored ∧ handle.metadata.state = .Closed ∧
      handle.metadata.lastEntryId = stored.lastEntryId ∧
      handle.metadata.lastAddConfirmed = stored.lastAddConfirmed := by
  obtain ⟨s, hreach, hid, hstarted, hstuck⟩ := reach_check
    (guarded (readsSettled 1) (step Crc32.crc32)) newClient_started
    (fun s => (s.calls.get 1).map Call.ledgerId = some 1 ∧
      (s.calls.get 1).bind (fun call => call.started.map LedgerMetadata.state) = some .Closed ∧
      (step Crc32.crc32 s (.advance 1)).isNone)
    (.sealLedger 0 1 5 :: requests 2 ++ openActs 0 ++ [.openLedger 1 1, .advance 1])
    (by decide +kernel)
  obtain ⟨call, hc, hid⟩ := Option.map_eq_some_iff.mp hid
  rw [hc] at hstarted
  obtain ⟨cur, hcur, hclosed⟩ := Option.map_eq_some_iff.mp hstarted
  rcases open_ledger_sees_seal hreach hc hid hcur hclosed with ⟨t, -, ht, -⟩ | hopened
  · rw [ht] at hstuck
    cases hstuck
  · obtain ⟨handle, stored, hpc, hrow, hstate, hlast, hlac, -⟩ := hopened
    exact ⟨s, call, handle, stored, hreach, hc, hpc, hrow, hstate, hlast, hlac⟩

def appends (data : Bytes) : List Act :=
  (Cluster.appendCall data [.delivered]).map fun a => .other (.writer 0 a)

def calls (c : Nat) (o : ClosedLedger.Operation) (n : Nat) : List Act :=
  (ClosedLedger.callActs c o n).map .other

/-- The ledger is cached during its recovery; or it is sealed again after it has been cached. -/
theorem stale_metadata_returned :
    (∃ s, Reach (step Crc32.crc32) Started s ∧
      (row s.system.world 1).map sealOf = some (.Closed, some 0, 1) ∧
      ((s.calls.get 1).bind Call.started).map sealOf = some (.Closed, some 0, 1) ∧
      ((s.calls.get 1).bind Call.opened).map sealOf = some (.InRecovery, none, 0)) ∧
    ∃ s, Reach (step Crc32.crc32) Started s ∧
      (row s.system.world 1).map sealOf = some (.Closed, none, 0) ∧
      ((s.calls.get 1).bind Call.started).map sealOf = some (.Closed, none, 0) ∧
      ((s.calls.get 1).bind Call.opened).map sealOf = some (.Closed, some 5, 5) := by
  constructor
  · exact reach_check _ newClient_started _
      (.other (.openLedger 0 1) :: appends [1] ++ appends [2] ++ calls 0 (.fenceAndSeal 1) 1 ++
        openActs 0 ++ requests 5 ++ [.openLedger 1 1, .advance 1])
      (by decide +kernel)
  · exact reach_check _ newClient_started _
      (calls 1 (.sealLedger 1 5) 2 ++ openActs 0 ++ calls 0 (.fenceAndSeal 1) 7 ++
        [.openLedger 1 1, .advance 1])
      (by decide +kernel)

end Runs
end Folio.LedgerCache
