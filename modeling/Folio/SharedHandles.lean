import Folio.AppendAvailability
import Folio.ClosedLedger

/-! Any number of handles of one open ledger. Each is made of the same metadata and takes itself
for the only one, so all of them append under the same ids. -/
namespace Folio.SharedHandles
open KeyedTable Protocol Metadata LedgerClient TransitionSystem Cluster AppendIntegrity
open ClosedLedger (focus)
open AppendAnswers (Sent Position position Told asked isAppend reached told_deliver not_fenced
  deliver_fences)
open AppendAvailability (Whole)
open Recovery (World)
variable {crc32 : Bytes → UInt32} {up : NodeId → Prop} {m : LedgerMetadata}

section OneHandle
variable [DecidablePred up] {nodes : List NodeInfo} {f : Fragment} {st : Store} {s t : State}
  {a : Attempt}

def openedBy (m : LedgerMetadata) : Writer := ⟨.new m, .idle, false, []⟩

def firstId (m : LedgerMetadata) : Nat := (LedgerHandle.new m).nextEntryId

/-- While all members of its last fragment are up, a handle made of `m` never writes to the
metadata store. -/
structure Steady (crc32 : Bytes → UInt32) (up : NodeId → Prop) [DecidablePred up]
    (m : LedgerMetadata) (st : Store) (s : State) : Prop
    extends AppendAnswers.Current up st.listNodes m.id s where
  store : s.store = st
  fragments : s.writer.handle.metadata.fragments = m.fragments
  nextId : s.writer.handle.nextEntryId = firstId m + s.writer.replies.length
  pc : s.writer.pc = .idle ∨ ∃ a, s.writer.pc = .sending a ∧
    Sent crc32 up st.listNodes (position s.writer.handle) s.writer.handle a
  results : (s.writer.replies.map Reply.result).reverse =
    (List.range s.writer.replies.length).map fun i => .ok (firstId m + i)

theorem steady_opened (hget : s.store.ledgers.get m.id = some m) (hopen : m.state = .Open)
    (hunfenced : ∀ n, up n → m.id ∉ (s.replica n).fences) (hw : s.writer = openedBy m) :
    Steady crc32 up m s.store s where
  listed := rfl
  id := by rw [hw]; rfl
  isOpen := by rw [hw]; exact hopen
  stored := by rw [hget, hw]; rfl
  unfenced := hunfenced
  store := rfl
  fragments := by rw [hw]; rfl
  nextId := by rw [hw]; rfl
  pc := .inl (by rw [hw]; rfl)
  results := by rw [hw]; rfl

theorem startAppend_whole {w : Writer} (hopen : w.handle.metadata.state = .Open)
    (hlast : w.handle.metadata.fragments.getLast? = some f) (data : Bytes) (afterSeal : Bool) :
    ∃ a, startAppend crc32 w data afterSeal = { w with afterSeal, pc := .sending a } ∧
      Sent crc32 up nodes (position w.handle) w.handle a ∧ ∀ slot ∈ a.slots, slot.2 = none := by
  unfold startAppend
  rw [if_neg (by simp [hopen])]
  unfold startAttempt
  dsimp only
  rw [hlast]
  have hnone : ∀ slot ∈ (asked f).map fun n => ((n, none) : AppendAnswers.Slot),
      slot.2 = none := by
    intro slot hslot
    obtain ⟨n, -, rfl⟩ := List.mem_map.mp hslot
    rfl
  refine ⟨_, rfl, ?_, hnone⟩
  exact {
    trying := .first
    next := rfl
    last := hlast
    asked := by simp [asked, Function.comp_def]
    told := by
      intro slot hslot r hr
      rw [hnone slot hslot] at hr
      cases hr
    ledger := rfl
    entryId := rfl
    digest := by simp [Entry.new, Entry.validateDigest] }

def acknowledged (w : Writer) (a : Attempt) : Writer :=
  reply { w with handle := w.handle.commit a.acks a.entry.entryId } a.entry.data
    (.ok a.entry.entryId)

/-- Every member has acknowledged, so there is nothing to replace. -/
theorem decideAttempt_whole {p : Position} {w : Writer} (hs : Sent crc32 up nodes p w.handle a)
    (hover : a.isOver = true) (hwhole : Whole up a.fragment) :
    decideAttempt w a = acknowledged w a := by
  have hfailed : ¬a.failed ≠ [] := by
    rw [hs.failed hover, hwhole.downs_eq]
    exact fun h => h rfl
  have hquorum : a.fragment.ackQuorum ≤ a.acks.length := by
    rw [hs.acks hover]
    exact hwhole.quorum
  unfold decideAttempt
  rw [if_neg (by simp [Attempt.fenced, not_fenced (hs.all_told hover)]), if_pos hquorum]
  dsimp only
  rw [if_neg hfailed]
  rfl

theorem Steady.fragment (h : Steady crc32 up m st s) (hlast : m.fragments.getLast? = some f)
    (hs : Sent crc32 up st.listNodes (position s.writer.handle) s.writer.handle a) :
    a.fragment = f := by
  have hf := hs.last
  rw [h.fragments, hlast] at hf
  exact (Option.some.inj hf).symm

inductive SteadyStep (crc32 : Bytes → UInt32) (up : NodeId → Prop) [DecidablePred up]
    (m : LedgerMetadata) (st : Store) (s : State) : State → Prop
  | append (a : Attempt) (afterSeal : Bool) : s.writer.pc = .idle →
      Sent crc32 up st.listNodes (position s.writer.handle) s.writer.handle a →
      (∀ slot ∈ a.slots, slot.2 = none) →
      SteadyStep crc32 up m st s { s with writer := { s.writer with afterSeal, pc := .sending a } }
  | deliver (i : Nat) (d : Delivery) (a : Attempt) (n : NodeId) :
      s.writer.pc = .sending a → a.slots[i]? = some (n, none) →
      Sent crc32 up st.listNodes (position s.writer.handle) s.writer.handle a →
      Told up n (deliverAdd crc32 s n a.entry d).2 →
      SteadyStep crc32 up m st s (afterDeliver crc32 s n a.entry d { s.writer with
        pc := .sending (a.fill i n (deliverAdd crc32 s n a.entry d).2) })
  | decide (a : Attempt) : s.writer.pc = .sending a → a.isOver = true →
      Sent crc32 up st.listNodes (position s.writer.handle) s.writer.handle a →
      SteadyStep crc32 up m st s { s with writer := acknowledged s.writer a }

theorem Steady.cases {a : Act} (h : Steady crc32 up m st s)
    (hlast : m.fragments.getLast? = some f) (hwhole : Whole up f) (hg : AppendAnswers.calm up s a)
    (hst : step crc32 s a = some t) : SteadyStep crc32 up m st s t := by
  cases a with
  | fencer c a => exact hg.elim
  | register n => exact hg.elim
  | expire n => exact hg.elim
  | writer a =>
    have hcases : WriterStep crc32 s a t := stepWriter_cases crc32 hst
    cases hcases with
    | append data hpc =>
      obtain ⟨a, ha, hs, hnone⟩ : ∃ a, startAppend crc32 s.writer data _ = _ ∧
          Sent crc32 up st.listNodes (position s.writer.handle) s.writer.handle a ∧ _ :=
        startAppend_whole h.isOpen (h.fragments ▸ hlast) data (s.fencers.values.any isSealed)
      rw [ha]
      exact .append a _ hpc hs hnone
    | deliver i d a n hpc hslot =>
      obtain ⟨a', hpc', hs⟩ := h.pc.resolve_left (by rw [hpc]; nofun)
      cases hpc.symm.trans hpc'
      have hd : reached up n d := hg (n, none) (by rw [hpc]; exact hslot)
      refine .deliver i d a n hpc hslot hs (told_deliver hd hs.digest fun hn => ?_)
      rw [hs.ledger, h.id]
      exact h.unfenced n hn
    | decide a hpc hover =>
      obtain ⟨a', hpc', hs⟩ := h.pc.resolve_left (by rw [hpc]; nofun)
      cases hpc.symm.trans hpc'
      rw [decideAttempt_whole hs hover (h.fragment hlast hs ▸ hwhole)]
      exact .decide a hpc hover hs
    | listNodes d a after ns hpc hns =>
      rcases h.pc with hpc' | ⟨a', hpc', -⟩ <;> cases hpc.symm.trans hpc'
    | putOk d a after store m hpc hput =>
      rcases h.pc with hpc' | ⟨a', hpc', -⟩ <;> cases hpc.symm.trans hpc'
    | putErr d a after store e hpc hput =>
      rcases h.pc with hpc' | ⟨a', hpc', -⟩ <;> cases hpc.symm.trans hpc'

theorem Steady.after (h : Steady crc32 up m st s) (hst : SteadyStep crc32 up m st s t) :
    Steady crc32 up m st t := by
  cases hst with
  | append a afterSeal hpc hs hnone =>
    have hcur := h.toCurrent.next (w := { s.writer with afterSeal })
      (t := { s with writer := { s.writer with afterSeal, pc := .sending a } })
      ⟨rfl, rfl, rfl, rfl⟩ rfl rfl fun _ => rfl
    exact { hcur with
      store := h.store
      fragments := h.fragments
      nextId := h.nextId
      pc := .inr ⟨a, rfl, hs⟩
      results := h.results }
  | deliver i d a n hpc hslot hs htold =>
    have hcur := h.toCurrent.next (w := s.writer) (t := afterDeliver crc32 s n a.entry d
      { s.writer with pc := .sending (a.fill i n (deliverAdd crc32 s n a.entry d).2) })
      ⟨rfl, rfl, rfl, rfl⟩ rfl rfl (deliver_fences s n · a.entry d _)
    exact { hcur with
      store := h.store
      fragments := h.fragments
      nextId := h.nextId
      pc := .inr ⟨_, rfl, hs.fill hslot htold⟩
      results := h.results }
  | decide a hpc hover hs =>
    have hcur := h.toCurrent.next (w := s.writer)
      (t := { s with writer := acknowledged s.writer a }) ⟨rfl, rfl, rfl, rfl⟩ rfl rfl fun _ => rfl
    exact { hcur with
      store := h.store
      fragments := h.fragments
      nextId := by
        change s.writer.handle.nextEntryId + 1 = firstId m + (s.writer.replies.length + 1)
        rw [h.nextId, Nat.add_assoc]
      pc := .inl rfl
      results := by
        change (Except.ok a.entry.entryId :: s.writer.replies.map Reply.result).reverse =
          (List.range (s.writer.replies.length + 1)).map _
        rw [List.reverse_cons, h.results, List.range_succ, List.map_append, hs.entryId]
        change _ ++ [Except.ok s.writer.handle.nextEntryId] = _
        rw [h.nextId]
        rfl }

theorem Steady.key (h : Steady crc32 up m st s)
    (hs : Sent crc32 up st.listNodes (position s.writer.handle) s.writer.handle a) :
    a.entry.key = (m.id, firstId m + s.writer.replies.length) := by
  refine Prod.ext (hs.ledger.trans h.id) ?_
  exact hs.entryId.trans h.nextId

def Has (s : State) (m : LedgerMetadata) (n : NodeId) (i : Nat) : Prop :=
  ∃ d, dataAt s.replica m.id n (firstId m + i) = some d

/-- The members hold every id that has been acknowledged, and whoever has answered the append
at hand holds its id. -/
structure Stored (f : Fragment) (m : LedgerMetadata) (s : State) : Prop where
  done : ∀ n ∈ asked f, ∀ i < s.writer.replies.length, Has s m n i
  told : ∀ a, s.writer.pc = .sending a → ∀ n ack, (n, some (.ok ack)) ∈ a.slots →
    Has s m n s.writer.replies.length

theorem Has.deliver {n n' : NodeId} {i : Nat} (h : Has s m n' i) (e : Entry) (d : Delivery)
    (w : Writer) : Has (afterDeliver crc32 s n e d w) m n' i := by
  obtain ⟨b, hb⟩ := h
  rcases deliver_dataAt crc32 s n n' e d w (m.id, firstId m + i) with hsame | ⟨-, -, hnew⟩
  · exact ⟨b, hsame.trans hb⟩
  · exact ⟨_, hnew⟩

theorem Stored.after (h : Stored f m s) (hsteady : Steady crc32 up m st s)
    (hlast : m.fragments.getLast? = some f) (hwhole : Whole up f)
    (hst : SteadyStep crc32 up m st s t) : Stored f m t := by
  cases hst with
  | append a afterSeal hpc hs hnone =>
    refine ⟨h.done, fun a' ha n ack hmem => ?_⟩
    cases ha
    cases hnone _ hmem
  | deliver i d a n hpc hslot hs htold =>
    refine ⟨fun n' hn' j hj => (h.done n' hn' j hj).deliver _ _ _, fun a' ha n' ack hmem => ?_⟩
    cases ha
    rcases List.mem_or_eq_of_mem_set hmem with hold | hnew
    · exact (h.told a hpc n' ack hold).deliver _ _ _
    · obtain ⟨rfl, hreply⟩ := Prod.mk.inj hnew
      obtain ⟨b, hb⟩ := deliver_held crc32 { s.writer with
        pc := .sending (a.fill i n' (deliverAdd crc32 s n' a.entry d).2) }
        (Option.some.inj hreply).symm
      rw [hsteady.key hs] at hb
      exact ⟨b, hb⟩
  | decide a hpc hover hs =>
    refine ⟨fun n hn j hj => ?_, fun a' ha => (by cases ha)⟩
    rcases Nat.lt_succ_iff_lt_or_eq.mp hj with hj | rfl
    · exact h.done n hn j hj
    · have hasked := hs.asked
      rw [hsteady.fragment hlast hs] at hasked
      rw [← hasked] at hn
      obtain ⟨⟨n', r⟩, hmem, rfl⟩ := List.mem_map.mp hn
      obtain ⟨r', hr, htold⟩ := hs.all_told hover _ hmem
      cases hr
      have hup : up n' := hwhole.members n' (List.mem_of_mem_take (hasked ▸ hn))
      cases r' with
      | ok ack => exact h.told a hpc n' ack hmem
      | error e => exact absurd hup htold.1

/-- The first entry that a node has under an id stays. -/
theorem SteadyStep.keeps {n : NodeId} {id : Nat} {d : Bytes} (hst : SteadyStep crc32 up m st s t)
    (hd : dataAt s.replica m.id n id = some d) : dataAt t.replica m.id n id = some d := by
  cases hst with
  | append a afterSeal hpc hs hnone => exact hd
  | decide a hpc hover hs => exact hd
  | deliver i del a n' hpc hslot hs htold =>
    rcases deliver_dataAt crc32 s n' n a.entry del { s.writer with
      pc := .sending (a.fill i n' (deliverAdd crc32 s n' a.entry del).2) } (m.id, id) with
      hsame | ⟨-, hnone, -⟩
    · exact hsame.trans hd
    · cases hnone.symm.trans hd

theorem SteadyStep.fencers (hst : SteadyStep crc32 up m st s t) : t.fencers = s.fencers := by
  cases hst <;> rfl

theorem Steady.inv (h : Steady crc32 up m st s) :
    AppendAnswers.Inv crc32 up st.listNodes m.id (position s.writer.handle) s.writer.replies s := by
  refine { h.toCurrent with replies := ⟨[], rfl, rfl, ?_⟩ }
  rcases h.pc with hpc | ⟨a, hpc, hs⟩
  · rw [hpc]
    rfl
  · rw [hpc]
    exact hs

end OneHandle

section Handles
variable [DecidablePred up] {f : Fragment} {st : Store} {s t : ClosedLedger.State} {c : Nat}

/-- Clients open the ledger and append; nobody else is at work, the metadata store answers, and
no node comes or goes. -/
def calm (up : NodeId → Prop) (ledger : Nat) (s : ClosedLedger.State) : ClosedLedger.Act → Prop
  | .openLedger _ id => id = ledger
  | .writer c a => ∀ w ∈ s.writers.get c, AppendAnswers.calm up (focus s.world w) (.writer a)
  | _ => False

instance (ledger : Nat) (s : ClosedLedger.State) :
    (a : ClosedLedger.Act) → Decidable (calm up ledger s a)
  | .openLedger _ id => inferInstanceAs (Decidable (id = ledger))
  | .writer c a => inferInstanceAs
      (Decidable (∀ w ∈ s.writers.get c, AppendAnswers.calm up (focus s.world w) (.writer a)))
  | .invoke _ _ | .request _ _ | .register _ | .expire _ | .resolver _ =>
    inferInstanceAs (Decidable False)

abbrev calmStep (crc32 : Bytes → UInt32) (up : NodeId → Prop) [DecidablePred up] (ledger : Nat) :
    ClosedLedger.State → ClosedLedger.Act → Option ClosedLedger.State :=
  guarded (calm up ledger) (ClosedLedger.step crc32)

/-- The ledger is as it was, and every handle is as if it were alone. -/
structure Shared (crc32 : Bytes → UInt32) (up : NodeId → Prop) [DecidablePred up] (f : Fragment)
    (m : LedgerMetadata) (st : Store) (s : ClosedLedger.State) : Prop where
  store : s.world.store = st
  unfenced : ∀ n, up n → m.id ∉ (s.world.replica n).fences
  handles : ∀ c w, s.writers.get c = some w →
    Steady crc32 up m st (focus s.world w) ∧ Stored f m (focus s.world w)

/-- What a step of one handle leaves to the others. -/
theorem others_keep {w w' : Writer} {world : World} (h : Steady crc32 up m st (focus world w'))
    (hstored : Stored f m (focus world w')) {u : State}
    (hst : SteadyStep crc32 up m st (focus world w) u) (hu : Steady crc32 up m st u) :
    Steady crc32 up m st { u with writer := w' } ∧ Stored f m { u with writer := w' } := by
  have hstore : u.store = world.store := hu.store.trans h.store.symm
  refine ⟨{ h with
    listed := hu.listed
    stored := by
      have hver := h.stored
      rw [← show u.store = (focus world w').store from hstore] at hver
      exact hver
    unfenced := hu.unfenced
    store := hu.store }, fun n hn i hi => ?_, fun a ha n ack hmem => ?_⟩
  · exact (hstored.done n hn i hi).imp fun _ => hst.keeps
  · exact (hstored.told a ha n ack hmem).imp fun _ => hst.keeps

/-- A step of a handle, seen as one of its own cluster. -/
theorem writer_step {a : WriterAct} (hst : ClosedLedger.step crc32 s (.writer c a) = some t) :
    ∃ w u, s.writers.get c = some w ∧ step crc32 (focus s.world w) (.writer a) = some u ∧
      t = { s with
        world := { s.world with store := u.store, replicas := u.replicas }
        writers := s.writers.put c u.writer } := by
  obtain ⟨w, hw, hrest⟩ := Option.bind_eq_some_iff.mp hst
  obtain ⟨u, hu, ht⟩ := Option.bind_eq_some_iff.mp hrest
  exact ⟨w, u, hw, hu, (Option.some.inj ht).symm⟩

theorem Shared.writer {a : WriterAct} (h : Shared crc32 up f m st s)
    (hlast : m.fragments.getLast? = some f) (hwhole : Whole up f)
    (hg : calm up m.id s (.writer c a)) (hst : ClosedLedger.step crc32 s (.writer c a) = some t) :
    Shared crc32 up f m st t ∧ ∀ n id d, dataAt s.world.replica m.id n id = some d →
      dataAt t.world.replica m.id n id = some d := by
  obtain ⟨w, u, hw, hu, rfl⟩ := writer_step hst
  obtain ⟨hsteady, hstored⟩ := h.handles c w hw
  have hcases := hsteady.cases hlast hwhole (hg w hw) hu
  have hafter := hsteady.after hcases
  refine ⟨⟨hafter.store, hafter.unfenced, fun c' w' hget => ?_⟩,
    fun n id d hd => hcases.keeps hd⟩
  have hfocus (w' : Writer) : focus { s.world with store := u.store, replicas := u.replicas } w' =
      { u with writer := w' } := by
    rw [focus, show u.fencers = .empty from hcases.fencers]
  rw [hfocus]
  rw [Table.get_put] at hget
  split_ifs at hget with hc
  · cases hget
    exact ⟨hafter, hstored.after hsteady hlast hwhole hcases⟩
  · obtain ⟨hother, hheld⟩ := h.handles c' w' hget
    exact others_keep hother hheld hcases hafter

theorem Shared.step {a : ClosedLedger.Act} (h : Shared crc32 up f m st s)
    (hget : st.getLedger m.id = .ok m) (hopen : m.state = .Open)
    (hlast : m.fragments.getLast? = some f) (hwhole : Whole up f) (hg : calm up m.id s a)
    (hst : ClosedLedger.step crc32 s a = some t) :
    Shared crc32 up f m st t ∧ ∀ n id d, dataAt s.world.replica m.id n id = some d →
      dataAt t.world.replica m.id n id = some d := by
  cases a with
  | writer c a => exact h.writer hlast hwhole hg hst
  | openLedger c id =>
    obtain rfl : id = m.id := hg
    rw [← h.store] at hget
    simp only [ClosedLedger.step, hget] at hst
    split at hst
    · rename_i hnone hm
      cases hm
      cases hst
      refine ⟨⟨h.store, h.unfenced, fun c' w hw => ?_⟩, fun _ _ _ hd => hd⟩
      rw [Table.get_put] at hw
      split_ifs at hw
      · cases hw
        have hsteady : Steady crc32 up m _ _ := steady_opened (s := focus s.world (openedBy m))
          (Store.getLedger_ok hget) hopen h.unfenced rfl
        rw [show (focus s.world (openedBy m)).store = st from h.store] at hsteady
        refine ⟨hsteady, fun _ _ _ hi => absurd hi (Nat.not_lt_zero _), fun a ha => ?_⟩
        cases ha
      · exact h.handles c' w hw
    · cases hst
  | invoke _ _ | request _ _ | register _ | expire _ | resolver _ => exact hg.elim

theorem Shared.reach (h : Shared crc32 up f m st s) (hget : st.getLedger m.id = .ok m)
    (hopen : m.state = .Open) (hlast : m.fragments.getLast? = some f) (hwhole : Whole up f)
    (ht : Reach (calmStep crc32 up m.id) (· = s) t) :
    Shared crc32 up f m st t ∧ ∀ n id d, dataAt s.world.replica m.id n id = some d →
      dataAt t.world.replica m.id n id = some d := by
  refine Reach.invariant (P := fun t => Shared crc32 up f m st t ∧ ∀ n id d,
    dataAt s.world.replica m.id n id = some d → dataAt t.world.replica m.id n id = some d)
    (fun t ht => ?_) (fun t a u ht hst => ?_) ht
  · rw [ht]
    exact ⟨h, fun _ _ _ hd => hd⟩
  · obtain ⟨hg, hst⟩ := (guarded_eq_some (calm up m.id)).mp hst
    obtain ⟨hnext, hkeeps⟩ := ht.1.step hget hopen hlast hwhole hg hst
    exact ⟨hnext, fun n id d hd => hkeeps n id d (ht.2 n id d hd)⟩

/-- What a handle can do alone it can do among the others. -/
theorem run_lift (as : List Act) {w : Writer} {u : State} (hw : s.writers.get c = some w)
    (hrun : run (guarded (AppendAnswers.calm up) (step crc32)) (focus s.world w) as = some u) :
    ∃ bs t, (∀ b ∈ bs, ∃ a, b = .writer c a ∧ .writer a ∈ as) ∧
      run (calmStep crc32 up m.id) s bs = some t ∧
      t.writers.get c = some u.writer := by
  induction as generalizing s w with
  | nil =>
    cases hrun
    exact ⟨[], s, nofun, rfl, hw⟩
  | cons a as ih =>
    obtain ⟨v, hv, hrest⟩ := Option.bind_eq_some_iff.mp hrun
    obtain ⟨hg, hstep⟩ := (guarded_eq_some (AppendAnswers.calm up)).mp hv
    cases a with
    | fencer _ _ | register _ | expire _ => exact hg.elim
    | writer a =>
      let t : ClosedLedger.State := { s with
        world := { s.world with store := v.store, replicas := v.replicas }
        writers := s.writers.put c v.writer }
      have hst : ClosedLedger.step crc32 s (.writer c a) = some t := by
        rw [show step crc32 (focus s.world w) (.writer a) = stepWriter crc32 (focus s.world w) a
          from rfl] at hstep
        simp [ClosedLedger.step, hw, hstep, t]
      have hfencers : v.fencers = .empty := by
        have hcases := stepWriter_cases crc32 hstep
        cases hcases <;> rfl
      have hfocus : focus t.world v.writer = v := by rw [focus, ← hfencers]
      obtain ⟨bs, u', hbs, hrun', hu'⟩ := ih (s := t) (w := v.writer) (Table.get_put_self _ _ _)
        (by rw [hfocus]; exact hrest)
      refine ⟨.writer c a :: bs, u', fun b hb => ?_, run_cons ?_ hrun', hu'⟩
      · rcases List.mem_cons.mp hb with rfl | hb
        · exact ⟨a, rfl, List.mem_cons_self⟩
        · obtain ⟨a', rfl, ha'⟩ := hbs b hb
          exact ⟨a', rfl, List.mem_cons_of_mem _ ha'⟩
      · refine (guarded_eq_some (calm up m.id)).mpr ⟨fun w' hw' => ?_, hst⟩
        cases hw.symm.trans hw'
        exact hg

def threeUp : ClosedLedger.State :=
  ⟨⟨⟨1, Table.empty.put 1 threeNodes, .empty⟩, .empty, []⟩, .empty, .empty⟩

def appends (c : Nat) (data : Bytes) : List ClosedLedger.Act :=
  (appendCall data (List.replicate 3 .delivered)).map (.writer c)

end Handles
end Folio.SharedHandles
