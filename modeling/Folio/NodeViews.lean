import Folio.EntryCopies
import Folio.FenceMark
import Folio.FlushLoop
import Folio.LacWaiters
import Folio.LedgerDurability
import Folio.OffloadSteps

/-! The models of a part of a node against the whole of it: what they do is what `Node.step` does
to that part, in every interleaving. -/
namespace Folio.NodeViews
open KeyedTable Protocol Fjall EntryCache TransitionSystem Node
variable {env : Env} {s t u : State} {c : Nat} {e : Entry} {p pc : AddPc}

section Fences

def nodeAct : FenceMark.Act → Option Act
  | .add c a => some (.add c a)
  | .fence f a => some (.fence f a)
  | .flush a => some (.flush a)
  | .crashAndBoot _ => none

theorem fenceMark_step {a : FenceMark.Act} {b : Act} (h : nodeAct a = some b) :
    FenceMark.step env s a = step env s b := by
  cases a <;> cases h <;> rfl

end Fences

section Copies
variable {x y : EntryCopies.State}

def copiesPc : AddPc → EntryCopies.AddPc
  | .started | .checked | .registered => .started
  | .sent => .sent
  | .logged | .marked => .logged
  | .kept _ => .kept
  | .returned (.duplicate _) => .duplicate
  | .returned (.written _) => .written
  | .returned (.failed _) => .refused

def copyOf (env : Env) (e : Entry) : EntryCopies.Copy := (e.key, env.serialize e)

structure Copies (env : Env) (s : State) (x : EntryCopies.State) : Prop where
  adds : Table.Agree (fun r => some ⟨copyOf env r.entry, copiesPc r.pc⟩) some s.adds x.adds
  cache : x.cache = s.cache
  flush : x.flush = s.flush
  entry : Table.Agree (fun _ => some ()) (fun _ => some ()) s.entryIndex.locations x.entryIndex
  wal : Table.Agree (fun _ => some ()) (fun _ => some ()) s.walIndex.locations x.walIndex
  life : x.life = .running

theorem Copies.get (h : Copies env s x) (c : Nat) :
    x.adds.get c = (s.adds.get c).map fun r => ⟨copyOf env r.entry, copiesPc r.pc⟩ := by
  rw [← Option.bind_fun_some (x.adds.get c), ← h.adds, Option.map_eq_bind]
  rfl

theorem Copies.set (h : Copies env s x) (c : Nat) (e : Entry) (p pc : AddPc) :
    Copies env (setAdd s c ⟨e, p⟩ pc) (EntryCopies.setAdd x c (copyOf env e) (copiesPc pc)) :=
  ⟨h.adds.put rfl, h.cache, h.flush, h.entry, h.wal, h.life⟩

theorem Copies.act {a : EntryCopies.AddAct} (h : Copies env s x) (hy : Copies env u y)
    (hst : EntryCopies.stepAdd x c a =
      some (EntryCopies.setAdd y c (copyOf env e) (copiesPc pc))) :
    ∃ bs z, run EntryCopies.step x bs = some z ∧ Copies env (setAdd u c ⟨e, p⟩ pc) z :=
  ⟨[.add c a], _, by simp [run, EntryCopies.step, h.life, hst], hy.set c e p pc⟩

theorem Copies.keep (h : Copies env s x) (hget : s.adds.get c = some ⟨e, p⟩)
    (hpc : copiesPc pc = copiesPc p) :
    ∃ bs z, run EntryCopies.step x bs = some z ∧ Copies env (setAdd s c ⟨e, p⟩ pc) z :=
  ⟨[], x, rfl, { h with adds := h.adds.put_left (by simp [hget, hpc]) }⟩

theorem copiesPc_dupCheck (s : State) (e : Entry) :
    copiesPc (dupCheck s e) = if isDuplicate s e.key then .duplicate else .sent := by
  unfold dupCheck
  split_ifs <;> rfl

/-- The duplicate check of a node is up to three lookups. -/
theorem Copies.dupCheck (h : Copies env s x) (hget : s.adds.get c = some ⟨e, .registered⟩) :
    ∃ bs, run EntryCopies.step x bs =
      some (EntryCopies.setAdd x c (copyOf env e) (copiesPc (dupCheck s e))) := by
  have hx := h.get c
  rw [copiesPc_dupCheck, isDuplicate, ← h.cache]
  have hentry := h.entry.isSome e.key
  have hwal := h.wal.isSome e.key
  rw [FjallIndex.getLocation, FjallIndex.getLocation, ← hentry, ← hwal]
  cases hc : x.cache.contains e.key with
  | true =>
    refine ⟨[.add c .checkCache], ?_⟩
    simp [run, EntryCopies.step, EntryCopies.stepAdd, hx, hget, h.life, hc, copiesPc, copyOf]
  | false =>
    cases he : (x.entryIndex.get e.key).isSome with
    | true =>
      refine ⟨[.add c .checkCache, .add c .checkEntry], ?_⟩
      simp [run, EntryCopies.step, EntryCopies.stepAdd, EntryCopies.setAdd, Table.put_put, hx,
        hget, h.life, hc, he, copiesPc, copyOf]
    | false =>
      refine ⟨[.add c .checkCache, .add c .checkEntry, .add c .checkWal], ?_⟩
      simp [run, EntryCopies.step, EntryCopies.stepAdd, EntryCopies.setAdd, Table.put_put, hx,
        hget, h.life, hc, he, copiesPc, copyOf]

theorem Copies.add (h : Copies env s x) (hst : AddStep env s c t) :
    ∃ bs z, run EntryCopies.step x bs = some z ∧ Copies env t z := by
  have hx := h.get c
  cases hst with
  | invoke e hget =>
    exact h.act (a := .invoke (copyOf env e)) (p := .started) h
      (by simp [EntryCopies.stepAdd, hx, hget, copiesPc])
  | fenceCheck e hget =>
    unfold fenceCheck
    split_ifs
    · exact h.act (a := .refuse) h (by simp [EntryCopies.stepAdd, hx, hget, copiesPc])
    · exact h.act (a := .refuse) h (by simp [EntryCopies.stepAdd, hx, hget, copiesPc])
    · exact h.keep hget rfl
  | register e u pc hget hu hpc =>
    have hy : Copies env u x := by
      rw [hu.state]
      exact { h with entry := hu.locations.symm ▸ h.entry }
    rcases hpc with rfl | ⟨err, rfl⟩
    · exact hy.keep (by rw [hu.state]; exact hget) rfl
    · exact h.act (a := .refuse) hy (by simp [EntryCopies.stepAdd, hx, hget, copiesPc])
  | dupCheck e hget =>
    obtain ⟨bs, hrun⟩ := h.dupCheck hget
    exact ⟨bs, _, hrun, h.set c e .registered _⟩
  | journal e pc hget hopen hpc =>
    have hy : Copies env (logRecord s e.key) { x with wal := x.wal ++ [copyOf env e] } :=
      ⟨h.adds, h.cache, h.flush, h.entry, h.wal, h.life⟩
    rcases hpc with rfl | ⟨err, rfl⟩
    · exact h.act (a := .append .ok) hy (by simp [EntryCopies.stepAdd, hx, hget, copiesPc])
    · exact h.act (a := .append .failedKept) hy
        (by simp [EntryCopies.stepAdd, hx, hget, copiesPc])
  | journalLost e err hget =>
    exact h.act (a := .append .failedLost) h (by simp [EntryCopies.stepAdd, hx, hget, copiesPc])
  | mark e hget =>
    have hy : Copies env { s with hiEntry := raise s.hiEntry e.ledgerId e.entryId } x :=
      ⟨h.adds, h.cache, h.flush, h.entry, h.wal, h.life⟩
    exact hy.keep hget rfl
  | cache e hget =>
    have hy : Copies env (cacheEntry env s e).1
        { x with cache := x.cache.insert e.key (env.serialize e) } :=
      ⟨h.adds, by rw [h.cache]; rfl, h.flush, h.entry, h.wal, h.life⟩
    exact h.act (a := .cache) hy
      (by simp [EntryCopies.stepAdd, hx, hget, copiesPc, copyOf, cacheEntry])

theorem Copies.flushes (h : Copies env s x) (hrun : s.flush.stopped = false)
    (hst : FlushStep s t) : ∃ b y, EntryCopies.stepFlush x b = some y ∧ Copies env t y := by
  obtain ⟨hadds, hcache, hflush, hentry, hwal, hlife⟩ := h
  cases hst with
  | drain order hpend hperm =>
    refine ⟨.drain order, ?_⟩
    simp only [EntryCopies.stepFlush, hflush, hrun, hpend, hcache, List.isPerm_iff.mpr hperm]
    exact ⟨_, rfl, hadds, rfl, rfl, hentry, hwal, hlife⟩
  | write hpend hsync =>
    refine ⟨.write, ?_⟩
    simp only [EntryCopies.stepFlush, hflush, hrun, hsync]
    exact ⟨_, rfl, hadds, hcache, rfl, hentry, hwal, hlife⟩
  | index k b rest segId offset length hpend hsync hind =>
    refine ⟨.index, ?_⟩
    simp only [EntryCopies.stepFlush, hflush, hrun, hsync, hind, hpend]
    exact ⟨_, rfl, hadds, hcache, rfl, hentry.put rfl, hwal, hlife⟩
  | unlink k b rest hpend hind =>
    refine ⟨.unlink, ?_⟩
    simp only [EntryCopies.stepFlush, hflush, hrun, hind, hpend]
    exact ⟨_, rfl, hadds, hcache, rfl, hentry, hwal.del, hlife⟩
  | evict hpend =>
    refine ⟨.evict, ?_⟩
    simp only [EntryCopies.stepFlush, hflush, hrun, hpend, hcache]
    exact ⟨_, rfl, hadds, rfl, rfl, hentry, hwal, hlife⟩
  | stop =>
    refine ⟨.stop, ?_⟩
    simp only [EntryCopies.stepFlush, hflush, hrun]
    exact ⟨_, rfl, hadds, hcache, rfl, hentry, hwal, hlife⟩

theorem copies_step {a : Act} (h : Copies env s x) (hst : step env s a = some t) :
    ∃ bs y, run EntryCopies.step x bs = some y ∧ Copies env t y := by
  rcases step_cases hst with ⟨c, hadd⟩ | ⟨hrun, hflush⟩ | haside
  · exact h.add hadd
  · obtain ⟨b, y, hb, hy⟩ := h.flushes hrun hflush
    exact ⟨[.flush b], y, by simp [run, EntryCopies.step, h.life, hb], hy⟩
  · rw [haside.state]
    exact ⟨[], x, rfl, { h with entry := haside.locations.symm ▸ h.entry }⟩

/-- Until it crashes, a node is in no state that the model of the copies does not reach. -/
theorem copies_reached (h : Reach (step env) FenceMark.Init s) :
    ∃ x, Reach EntryCopies.step EntryCopies.Init x ∧ Copies env s x := by
  refine h.simulated (fun s hs => ?_) fun s x a t => copies_step
  obtain ⟨nodeId, flushThreshold, rfl⟩ := hs
  exact ⟨_, ⟨flushThreshold, rfl⟩, fun _ => rfl, rfl, rfl, fun _ => rfl, fun _ => rfl, rfl⟩

end Copies

section Lac
variable {N T : Type} {notify : LacWaiters.Notify N T} {x : LacWaiters.State N T}

def lacPc : AddPc → Option LacWaiters.AddPc
  | .returned (.duplicate ack) => some (.duplicate ack.localLac)
  | .returned (.written ack) => some (.returned ack.localLac)
  | _ => none

def lacOf (r : AddReq) : Option (Nat × Nat × LacWaiters.AddPc) :=
  (lacPc r.pc).map fun pc => (r.entry.ledgerId, r.entry.lac, pc)

structure Lacs (s : State) (x : LacWaiters.State N T) : Prop where
  lac : x.lac = s.lac
  adds : Table.Agree lacOf (fun a => some (a.ledger, a.lac, a.pc)) s.adds x.adds

theorem Lacs.quiet (h : Lacs s x) (hlac : u.lac = s.lac) (hadds : u.adds = s.adds)
    (hget : s.adds.get c = some ⟨e, p⟩) (hold : lacPc p = none) (hpc : lacPc pc = none) :
    ∃ bs y, run (LacWaiters.step notify) x bs = some y ∧ Lacs (setAdd u c ⟨e, p⟩ pc) y := by
  refine ⟨[], x, rfl, h.lac.trans hlac.symm, ?_⟩
  rw [setAdd, hadds]
  exact h.adds.put_left (by simp [hget, lacOf, hold, hpc])

theorem Lacs.free (h : Lacs s x) (hget : s.adds.get c = some ⟨e, p⟩) (hold : lacPc p = none) :
    x.adds.get c = none := by
  have hc := h.adds c
  rw [hget] at hc
  cases hx : x.adds.get c with
  | none => rfl
  | some a =>
    rw [hx] at hc
    simp [lacOf, hold] at hc

theorem Lacs.add (h : Lacs s x) (hst : AddStep env s c t) :
    ∃ bs y, run (LacWaiters.step notify) x bs = some y ∧ Lacs t y := by
  cases hst with
  | invoke e hget => exact ⟨[], x, rfl, h.lac, h.adds.put_left (by rw [hget]; rfl)⟩
  | fenceCheck e hget =>
    refine h.quiet rfl rfl hget rfl ?_
    unfold fenceCheck
    split_ifs <;> rfl
  | register e u pc hget hu hpc =>
    rw [hu.state]
    exact h.quiet rfl rfl hget rfl (by rcases hpc with rfl | ⟨err, rfl⟩ <;> rfl)
  | journal e pc hget _ hpc =>
    exact h.quiet rfl rfl hget rfl (by rcases hpc with rfl | ⟨err, rfl⟩ <;> rfl)
  | journalLost e err hget => exact h.quiet rfl rfl hget rfl rfl
  | mark e hget => exact h.quiet rfl rfl hget rfl rfl
  | dupCheck e hget =>
    have hx := h.free hget rfl
    unfold dupCheck
    split_ifs
    · refine ⟨[.addEntry c e.ledgerId e.lac, .answerDuplicate c], x.setAdd c
        ⟨e.ledgerId, e.lac, x.lacOf e.ledgerId, .duplicate (x.lacOf e.ledgerId)⟩, ?_, h.lac,
        h.adds.put ?_⟩
      · simp [run, LacWaiters.step, LacWaiters.stepAdd, LacWaiters.State.setAdd, Table.put_put, hx]
        rfl
      · simp [lacOf, lacPc, ackOf, LacWaiters.State.lacOf, h.lac]
    · exact h.quiet rfl rfl hget rfl rfl
  | cache e hget =>
    have hx := h.free hget rfl
    refine ⟨[.addEntry c e.ledgerId e.lac, .raiseLac c, .fetchNotifier c, .notifyWaiters c], ?_⟩
    simp [run, LacWaiters.step, LacWaiters.stepAdd, LacWaiters.State.setAdd, Table.put_put, hx,
      h.lac]
    exact ⟨rfl, h.adds.put rfl⟩

theorem lac_step {a : Act} (h : Lacs s x) (hst : step env s a = some t) :
    ∃ bs y, run (LacWaiters.step notify) x bs = some y ∧ Lacs t y := by
  rcases step_cases hst with ⟨c, hadd⟩ | ⟨-, hflush⟩ | haside
  · exact h.add hadd
  · cases hflush <;> exact ⟨[], x, rfl, h.lac, h.adds⟩
  · rw [haside.state]
    exact ⟨[], x, rfl, h.lac, h.adds⟩

/-- The waiters are on the other side only; a node answers without them. -/
theorem lac_reached (h : Reach (step env) FenceMark.Init s) :
    ∃ x, Reach (LacWaiters.step notify) (· = LacWaiters.fresh) x ∧ Lacs s x := by
  refine h.simulated (fun s hs => ?_) fun s x a t => lac_step
  obtain ⟨nodeId, flushThreshold, rfl⟩ := hs
  exact ⟨_, rfl, rfl, fun _ => rfl⟩

end Lac

section Ledgers
variable {x : LedgerDurability.State} {f l : Nat}

def Rows (s : State) (x : LedgerDurability.State) : Prop :=
  x.log.contents = s.entryIndex.ledgers ∧ x.fences = s.fences ∧ x.knownLedgers = s.knownLedgers

theorem stepAdd_register (hget : s.adds.get c = some ⟨e, .checked⟩)
    (hst : step env s (.add c .register) = some t) :
    ∃ pc, t = setAdd (registerLedger env s e).1 c ⟨e, .checked⟩ pc := by
  simp only [step, stepAdd, hget] at hst
  split at hst <;> rename_i hreg <;> cases hst <;> rw [hreg] <;> exact ⟨_, rfl⟩

/-- A first write with a key is the one registration that waits for a `persist`. -/
theorem register_rows (h : Rows s x) (hpc : x.pc = .checked e)
    (hget : s.adds.get c = some ⟨e, .checked⟩) (hst : step env s (.add c .register) = some t) :
    ∃ bs y, run (LedgerDurability.step env) x bs = some y ∧ Rows t y := by
  obtain ⟨pc, rfl⟩ := stepAdd_register hget hst
  obtain ⟨hrows, hfences, hknown⟩ := h
  have hstate : x.index.getLedgerState e.ledgerId = s.entryIndex.getLedgerState e.ledgerId :=
    congrArg (Table.get · e.ledgerId) hrows
  by_cases hwait : e.ledgerId ∉ s.knownLedgers ∧ e.masterKey.isSome ∧
    ∃ st, FjallIndex.ensureVerdict e.ledgerId (s.entryIndex.getLedgerState e.ledgerId) e.masterKey =
      .write st
  · obtain ⟨hnew, hkey, st, hv⟩ := hwait
    refine ⟨[.register, .persistKey true], { x with
      log := (x.log.insert e.ledgerId st).sync
      knownLedgers := e.ledgerId :: x.knownLedgers, pc := .registered e }, ?_, ?_⟩
    · simp [run, LedgerDurability.step, LedgerDurability.register, hpc, hstate, hv, hknown, hnew,
        hkey]
    · simp [Rows, setAdd, registerLedger, recordLedger, FjallIndex.ensureLedgerKnown, Except.map,
        hv, hnew, hrows, hfences, hknown]
  · refine ⟨[.register], LedgerDurability.register x e, ?_, ?_⟩
    · simp [run, LedgerDurability.step, hpc]
    · cases hv : FjallIndex.ensureVerdict e.ledgerId (s.entryIndex.getLedgerState e.ledgerId)
        e.masterKey <;>
      by_cases hknows : e.ledgerId ∈ s.knownLedgers <;> cases hkey : e.masterKey.isSome <;>
      simp_all [Rows, setAdd, registerLedger, recordLedger, FjallIndex.ensureLedgerKnown,
        Except.map, LedgerDurability.register]

theorem fence_rows (h : Rows s x) (hpc : x.pc = .idle)
    (hget : s.fenceReqs.get f = some ⟨l, .started⟩) :
    ∃ t y, run (step env) s [.fence f .durable, .fence f .inSet] = some t ∧
      run (LedgerDurability.step env) x [.fence l, .persistFence true] = some y ∧ Rows t y := by
  obtain ⟨hrows, hfences, hknown⟩ := h
  have hstate : x.index.getLedgerState l = s.entryIndex.getLedgerState l :=
    congrArg (Table.get · l) hrows
  simp [run, step, stepFence, hget, setFence, LedgerDurability.step, hpc, Rows, hstate, hrows,
    hfences, hknown, FjallIndex.fenceLedger]

end Ledgers

section Flushing
variable {crc32 : Bytes → UInt32} {threshold : Nat} {x y : FlushLoop.State} {f : Flush}

/-- The pass of the flush loop that is under way. -/
def Batch (f : Flush) (pending : List (Key × Bytes)) (synced indexed : Bool) : Prop :=
  f.pending = pending ∧ (pending ≠ [] → f.synced = synced) ∧ f.indexed = indexed ∧ f.stopped = false

def cachedOf (todo : List (Segment.Rec × Nat × Nat)) : List (Key × Bytes) :=
  (todo.map Prod.fst).map FlushLoop.cached

def FlushPc (f : Flush) : FlushLoop.Pc → Prop
  | .drained _ batch => Batch f (batch.map FlushLoop.cached) false false
  | .written _ todo => Batch f (cachedOf todo) false false
  | .indexing _ todo => Batch f (cachedOf todo) true false
  | .located _ k todo => ∃ b, Batch f ((k, b) :: cachedOf todo) true true
  | .stopped => f.stopped = true
  | _ => Batch f [] false false

structure Flushing (x : FlushLoop.State) (s : State) : Prop where
  cache : x.cache = s.cache
  entry : x.entryIndex.locations = s.entryIndex.locations
  wal : x.walIndex.locations = s.walIndex.locations
  flush : FlushPc s.flush x.pc

theorem FlushPc.running {pc : FlushLoop.Pc} (h : FlushPc f pc) (hpc : pc ≠ .stopped) :
    f.stopped = false := by
  cases pc with
  | stopped => exact absurd rfl hpc
  | located w k todo => exact h.choose_spec.2.2.2
  | _ => exact h.2.2.2

def Followed (env : Env) (s : State) (y : FlushLoop.State) : Prop :=
  ∃ (bs : List FlushAct) (t : State), run (step env) s (bs.map .flush) = some t ∧ Flushing y t

theorem Flushing.act {b : FlushAct} (h : Flushing y t) (hst : stepFlush s b = some t) :
    Followed env s y :=
  ⟨[b], t, by simp [run, step, hst], h⟩

/-- Offsets, files and rows are the flush loop's own. That a deletion from `wal_index` fails is
left out of a node. -/
theorem flush_step {a : FlushLoop.FlushAct} (h : Flushing x s) (ha : a ≠ .deleteLocation false)
    (hst : FlushLoop.stepFlush crc32 threshold x a = some y) : Followed env s y := by
  obtain ⟨hcache, hentry, hwal, hflush⟩ := h
  have hstill {pc : FlushLoop.Pc} {registry : SegmentRegistry} {files : EntrySegment.Files}
      (hpc : FlushPc s.flush pc) : Followed env s { x with pc, registry, files } :=
    ⟨[], s, rfl, hcache, hentry, hwal, hpc⟩
  have hstop {files : EntrySegment.Files} (hpc : x.pc ≠ .stopped) :
      Followed env s { x with pc := .stopped, files } := by
    refine Flushing.act (t := { s with flush := { s.flush with stopped := true } }) (b := .stop)
      ⟨hcache, hentry, hwal, rfl⟩ ?_
    simp [stepFlush, hflush.running hpc]
  unfold FlushLoop.stepFlush at hst
  split at hst
  case h_3 order w hpc =>
    obtain ⟨hperm, ht⟩ := Option.ite_none_right_eq_some.mp hst
    cases ht
    rw [hpc] at hflush
    obtain ⟨hpend, -, -, hrun⟩ := hflush
    refine Flushing.act (b := .drain (order.map FlushLoop.cached)) (t := { s with
      cache := s.cache.drainHotToWarm (order.map FlushLoop.cached)
      flush := ⟨order.map FlushLoop.cached, false, false, false⟩ }) ⟨?_, hentry, hwal, ?_⟩ ?_
    · rw [hcache]
    · cases order <;> exact ⟨rfl, fun _ => rfl, rfl, rfl⟩
    · rw [hcache] at hperm
      simp [stepFlush, hrun, hpend, hperm]
  case h_4 w batch hpc =>
    obtain ⟨data, -, rfl⟩ := Option.map_eq_some_iff.mp hst
    rw [hpc] at hflush
    refine hstill ?_
    change Batch _ (cachedOf _) _ _
    rw [cachedOf, EntrySegment.zip_perEntry_fst]
    exact hflush
  case h_5 left w batch hpc =>
    obtain ⟨data, -, rfl⟩ := Option.map_eq_some_iff.mp hst
    exact hstop (by rw [hpc]; simp)
  case h_6 w todo hpc =>
    cases hst
    rw [hpc] at hflush
    obtain ⟨hpend, hsync, hind, hrun⟩ := hflush
    cases todo with
    | nil => exact hstill ⟨hpend, fun hne => absurd rfl hne, hind, hrun⟩
    | cons p todo =>
      refine Flushing.act (b := .write) (t := { s with flush := { s.flush with synced := true } })
        ⟨hcache, hentry, hwal, hpend, fun _ => rfl, hind, hrun⟩ ?_
      simp [stepFlush, hrun, hpend, hsync, cachedOf]
  case h_7 w r offset length todo hpc =>
    cases hst
    rw [hpc] at hflush
    obtain ⟨hpend, hsync, hind, hrun⟩ := hflush
    refine Flushing.act (b := .index w.id offset length) (t := { s with
      entryIndex := s.entryIndex.insertLocation r.key w.id offset length
      flush := { s.flush with indexed := true } })
      ⟨hcache, ?_, hwal, r.payload, hpend, hsync, rfl, hrun⟩ ?_
    · exact congrArg (Table.put · r.key _) hentry
    · simp [stepFlush, hrun, hpend, hsync, hind, cachedOf, FlushLoop.cached]
  case h_8 deleted w k todo hpc =>
    cases hst
    cases deleted with
    | false => exact absurd rfl ha
    | true =>
    rw [hpc] at hflush
    obtain ⟨b, hpend, hsync, hind, hrun⟩ := hflush
    refine Flushing.act (b := .unlink) (t := { s with
      walIndex := s.walIndex.deleteLocation k
      flush := { s.flush with pending := cachedOf todo, indexed := false } })
      ⟨hcache, hentry, ?_, rfl, fun _ => hsync (List.cons_ne_nil _ _), rfl, hrun⟩ ?_
    · exact congrArg (Table.del · k) hwal
    · simp [stepFlush, hrun, hpend, hind]
  case h_9 w hpc =>
    cases hst
    rw [hpc] at hflush
    exact hstill ⟨hflush.1, fun hne => absurd rfl hne, hflush.2.2⟩
  case h_10 w hpc =>
    rw [hpc] at hflush
    split_ifs at hst <;> cases hst <;> exact hstill hflush
  case h_11 w hpc =>
    cases hst
    rw [hpc] at hflush
    refine Flushing.act (b := .evict) (t := { s with cache := s.cache.evictWarm })
      ⟨by rw [hcache], hentry, hwal, hflush⟩ ?_
    simp [stepFlush, hflush.2.2.2, hflush.1]
  case h_13 => cases hst
  case h_14 =>
    cases hst
    exact hstop (by assumption)
  case h_15 => cases hst
  all_goals
    rename_i hpc
    cases hst
    rw [hpc] at hflush
    exact hstill hflush

/-- On the other side an entry is added when the node caches it. -/
theorem Flushing.add (h : Flushing x s) (hst : AddStep env s c t) :
    Flushing x t ∨ ∃ e, ∀ r, FlushLoop.cached r = (e.key, env.serialize e) →
      ∃ y, FlushLoop.step crc32 threshold x (.add r) = some y ∧ Flushing y t := by
  obtain ⟨hcache, hentry, hwal, hflush⟩ := h
  cases hst with
  | register e u pc _ hu _ =>
    rw [hu.state]
    exact .inl ⟨hcache, hentry.trans hu.locations.symm, hwal, hflush⟩
  | cache e _ =>
    refine .inr ⟨e, fun r hr => ⟨_, rfl, ?_, hentry, hwal, hflush⟩⟩
    obtain ⟨hkey, hpayload⟩ := Prod.mk.inj hr
    rw [hkey, hpayload, hcache]
    rfl
  | _ => exact .inl ⟨hcache, hentry, hwal, hflush⟩

theorem Flushing.aside (h : Flushing x s) (hst : Aside s t) : Flushing x t := by
  rw [hst.state]
  exact ⟨h.cache, h.entry.trans hst.locations.symm, h.wal, h.flush⟩

end Flushing
end Folio.NodeViews

namespace Folio.Offloader
open KeyedTable Protocol Fjall EntrySegment TransitionSystem
variable {crc32 : Bytes → UInt32} {threshold : Nat} {x y : FlushLoop.State} {s : State}
  {id : SegmentId}

def flushPc (flushed : Bool) : FlushLoop.Pc → FlushPc
  | .starting => .starting
  | .created w => .created w.id
  | .waiting w | .drained w _ => .writing w.id flushed
  | .written w _ | .indexing w _ | .located w _ _ => .synced w.id
  | .recorded w => .writing w.id true
  | .sealedSeg w | .evicted w => .opening (w.id + 1)
  | .stopped => .stopped

/-- The flush loop with its cache and its indices, and what the offloader sees of it. -/
structure Flushing (x : FlushLoop.State) (s : State) : Prop where
  rows : s.rows = x.registry
  files : s.files.keys = x.files.keys
  flush : ∃ flushed, s.flush = flushPc flushed x.pc

theorem Flushing.file {data : Bytes} (h : Flushing x s) (hdata : x.files.get id = some data) :
    ∃ rs, s.files.get id = some rs := by
  rw [← Table.mem_keys_iff, h.files, Table.mem_keys_iff]
  exact ⟨data, hdata⟩

theorem cas_fst (r : SegmentRegistry) (id : SegmentId) (op : SegmentRegistry.CasOp) :
    (r.cas id op).1 = (casGet r id op).elim r fun m => r.upsert (op.write m) := by
  unfold SegmentRegistry.cas casGet
  cases r.get id with
  | none => rfl
  | some m => by_cases hm : m.status = op.expected <;> simp [Option.filter, hm]

theorem seal_run (h : s.flush = .writing id true) :
    ∃ bs t, run stepFlush s bs = some t ∧ t.rows = (s.rows.cas id sealOp).1 ∧
      t.files = s.files ∧ t.flush = .opening (id + 1) := by
  rw [cas_fst]
  unfold State.rows
  cases hseen : casGet s.registry.contents id sealOp with
  | none =>
    refine ⟨[.seal, .get], s.setFlush (.opening (id + 1)), ?_, rfl, rfl, rfl⟩
    simp [run, stepFlush, h, hseen, State.setFlush, State.rows]
  | some m =>
    refine ⟨[.seal, .get, .upsert], (s.upsert (sealOp.write m)).setFlush (.opening (id + 1)),
      ?_, ?_, rfl, rfl⟩
    · simp [run, stepFlush, h, hseen, State.setFlush, State.rows, State.upsert]
    · simp [State.setFlush, State.upsert, SegmentRegistry.upsert]

theorem flushLoop_step {a : FlushLoop.FlushAct} (h : Flushing x s)
    (hst : FlushLoop.stepFlush crc32 threshold x a = some y) :
    ∃ bs t, run stepFlush s bs = some t ∧ Flushing y t := by
  have hfile {id : SegmentId} {data : Bytes} (hdata : x.files.get id = some data) := h.file hdata
  obtain ⟨hrows, hfiles, flushed, hflush⟩ := h
  have hnext : nextEntrySegId s.files s.rows = nextEntrySegId x.files x.registry := by
    simp only [nextEntrySegId, scanNextEntrySegId, hrows, hfiles]
  have hupsert (m : SegmentMeta) (pc : FlushPc) :
      ((s.upsert m).setFlush pc).rows = x.registry.upsert m := by
    rw [← hrows]
    exact rows_upsert
  unfold FlushLoop.stepFlush at hst
  split at hst
  case h_14 =>
    cases hst
    refine ⟨[.stop], s.setFlush .stopped, ?_, hrows, hfiles, false, rfl⟩
    cases hx : x.pc <;> simp [run, stepFlush, hflush, hx, flushPc]
  case h_13 | h_15 => cases hst
  all_goals
    rename_i hpc
    rw [hpc] at hflush
  case h_1 =>
    cases hst
    refine ⟨[.next, .create], ?_⟩
    simp [run, stepFlush, hflush, flushPc, State.setFlush, hnext]
    exact ⟨hrows, by simp [FlushLoop.create, Table.keys_put, hfiles], false, rfl⟩
  case h_2 w =>
    cases hst
    refine ⟨[.register], ?_⟩
    simp [run, stepFlush, hflush, flushPc]
    exact ⟨hupsert _ _, hfiles, false, rfl⟩
  case h_3 order w =>
    obtain ⟨-, ht⟩ := Option.ite_none_right_eq_some.mp hst
    cases ht
    exact ⟨[], s, rfl, hrows, hfiles, flushed, by cases order <;> exact hflush⟩
  case h_4 w batch =>
    obtain ⟨data, hdata, rfl⟩ := Option.map_eq_some_iff.mp hst
    obtain ⟨rs, hrs⟩ := hfile hdata
    refine ⟨[.batch (batch.map FlushLoop.cached)], ?_⟩
    simp [run, stepFlush, hflush, flushPc, appendFile, wrote, hrs]
    exact ⟨hrows, by simp [State.setFlush, Table.keys_put, hfiles], false, rfl⟩
  case h_5 left w batch =>
    obtain ⟨data, hdata, rfl⟩ := Option.map_eq_some_iff.mp hst
    obtain ⟨rs, hrs⟩ := hfile hdata
    refine ⟨[.batchFails []], ?_⟩
    simp [run, stepFlush, hflush, flushPc, appendFile, hrs]
    exact ⟨hrows, by simp [State.setFlush, Table.keys_put, hfiles], false, rfl⟩
  case h_9 w =>
    cases hst
    refine ⟨[.update w.fileOffset], ?_⟩
    simp [run, stepFlush, hflush, flushPc]
    exact ⟨hupsert _ _, hfiles, false, rfl⟩
  case h_10 w =>
    split_ifs at hst
    · cases hst
      obtain ⟨bs, t, hrun, ht, htfiles, htflush⟩ := seal_run hflush
      exact ⟨bs, t, hrun, by rw [ht, hrows]; rfl, by rw [htfiles, hfiles], false, htflush⟩
    · cases hst
      exact ⟨[], s, rfl, hrows, hfiles, true, hflush⟩
  case h_12 w =>
    cases hst
    refine ⟨[.create], ?_⟩
    simp [run, stepFlush, hflush, flushPc, State.setFlush]
    exact ⟨hrows, by simp [FlushLoop.create, Table.keys_put, hfiles], false, rfl⟩
  all_goals
    cases hst
    exact ⟨[], s, rfl, hrows, hfiles, flushed, hflush⟩

end Folio.Offloader
