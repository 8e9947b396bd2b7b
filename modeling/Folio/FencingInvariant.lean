import Folio.ClusterSteps

/-! What `fence_and_seal` means for a writer that goes on appending. -/
namespace Folio.FencingSafety
open KeyedTable Protocol Metadata LedgerClient Cluster
variable {crc32 : Bytes → UInt32} {cur : LedgerMetadata}

/-- Every `put_ledger` of the writer's `change_fragment` is accepted: it reaches the store,
its reply arrives, and the store still has the handle's version. -/
def putAccepted (s : State) (a : Act) : Prop :=
  match a with
  | .writer (.putLedger d) => d = .delivered ∧
    (s.store.ledgers.get s.ledger).map LedgerMetadata.version =
      some s.writer.handle.metadata.version
  | _ => True

instance (s : State) (a : Act) : Decidable (putAccepted s a) := by
  unfold putAccepted
  split <;> infer_instance

structure Opened (s : State) : Prop where
  stored : s.store.ledgers.get s.ledger = some s.writer.handle.metadata
  quorum : ∀ f, s.writer.handle.metadata.fragments.getLast? = some f → 1 ≤ f.ackQuorum
  idle : s.writer.pc = .idle ∧ s.writer.afterSeal = false ∧ s.writer.replies = []
  fencers : s.fencers = .empty

section Invariant
variable (ledger : Nat) (fenced : NodeId → Prop) (cur : LedgerMetadata)

structure SealedPast (version : Nat) : Prop where
  version : version < cur.version
  ensemble : ∀ f, cur.fragments.getLast? = some f → ∀ n ∈ f.ensemble, fenced n

structure Fencing (m : LedgerMetadata) (todo : List NodeId) : Prop where
  id : m.id = ledger
  version : m.version ≤ cur.version
  fragments : m.version = cur.version → m.fragments = cur.fragments
  ensemble : ∃ f done, m.fragments.getLast? = some f ∧ f.ensemble = done ++ todo ∧
    ∀ n ∈ done, fenced n

def FencerInv (version : Nat) : FencerPc → Prop
  | .fencing m todo _ => Fencing ledger fenced cur m todo
  | .returned (.ok _) => SealedPast fenced cur version
  | _ => True

structure Sending (w : Writer) (a : Attempt) : Prop where
  last : w.handle.metadata.fragments.getLast? = some a.fragment
  ledger : a.entry.ledgerId = ledger
  nodes : ∀ slot ∈ a.slots, slot.1 ∈ a.fragment.ensemble
  unacked : w.afterSeal = true → ∀ n ack, (n, some (.ok ack)) ∉ a.slots

def PcInv (w : Writer) : Prop :=
  match w.pc with
  | .idle => w.handle.metadata.fragments = cur.fragments
  | .sending a => w.handle.metadata.fragments = cur.fragments ∧ Sending ledger w a
  | .listing _ after =>
    w.handle.metadata.fragments = cur.fragments ∧ (w.afterSeal = true → after = .retry)
  | .putting _ after =>
    (∃ f, w.handle.metadata.fragments = cur.fragments ++ [f] ∧ 1 ≤ f.ackQuorum) ∧
      (w.afterSeal = true → after = .retry)

structure Base (w : Writer) : Prop where
  id : w.handle.metadata.id = ledger
  version : w.handle.metadata.version ≤ cur.version
  replies : ∀ r ∈ w.replies, r.afterSeal = true → ∀ id, r.result ≠ .ok id

end Invariant

structure InvAt (s : State) (cur : LedgerMetadata) : Prop where
  stored : s.store.ledgers.get s.ledger = some cur
  id : cur.id = s.ledger
  quorum : ∀ f, cur.fragments.getLast? = some f → 1 ≤ f.ackQuorum
  fencers : ∀ c f, s.fencers.get c = some f →
    FencerInv s.ledger (fencedIn s) cur s.writer.handle.metadata.version f.pc
  base : Base s.ledger cur s.writer
  pc : PcInv s.ledger cur s.writer
  afterSeal : s.writer.afterSeal = true → ∃ c f, s.fencers.get c = some f ∧ isSealed f = true

section Writer
variable {ledger : Nat} {w : Writer} {a : Attempt} {after : AfterChange}

theorem PcInv.of_fragments {m : LedgerMetadata} (h : PcInv ledger cur w)
    (hf : m.fragments = cur.fragments) : PcInv ledger m w := by
  unfold PcInv at h ⊢
  rw [hf]
  exact h

theorem Base.reply (h : Base ledger cur w) (hf : w.handle.metadata.fragments = cur.fragments)
    {data : Bytes} {result : Except FolioError Nat}
    (hr : w.afterSeal = true → ∀ id, result ≠ .ok id) :
    Base ledger cur (reply w data result) ∧ PcInv ledger cur (reply w data result) := by
  refine ⟨⟨h.id, h.version, fun r hmem => ?_⟩, hf⟩
  rcases List.mem_cons.mp hmem with rfl | hmem
  · exact hr
  · exact h.replies r hmem

theorem Base.startAttempt (h : Base ledger cur w)
    (hf : w.handle.metadata.fragments = cur.fragments) (number : Nat) (data : Bytes) :
    Base ledger cur (startAttempt crc32 w number data) ∧
      PcInv ledger cur (startAttempt crc32 w number data) := by
  unfold Cluster.startAttempt
  split
  · exact h.reply hf fun _ _ => nofun
  · rename_i fragment hlast
    refine ⟨⟨h.id, h.version, h.replies⟩, hf, hlast, h.id, fun slot hslot => ?_, ?_⟩
    · obtain ⟨n, hn, rfl⟩ := List.mem_map.mp hslot
      exact List.mem_of_mem_take hn
    · intro _ n ack hmem
      obtain ⟨n', -, heq⟩ := List.mem_map.mp hmem
      cases heq

theorem acks_eq_nil (h : ∀ n ack, (n, some (.ok ack)) ∉ a.slots) : a.acks = [] := by
  refine List.filterMap_eq_nil_iff.mpr fun slot hmem => ?_
  obtain ⟨n, outcome⟩ := slot
  match outcome with
  | none | some (.error _) => rfl
  | some (.ok ack) => exact absurd hmem (h n ack)

theorem Base.decide (h : Base ledger cur w) (hf : w.handle.metadata.fragments = cur.fragments)
    (hs : Sending ledger w a) (hq : 1 ≤ a.fragment.ackQuorum) :
    Base ledger cur (decideAttempt w a) ∧ PcInv ledger cur (decideAttempt w a) := by
  unfold decideAttempt
  split
  · exact h.reply hf fun _ _ => nofun
  split
  · rename_i hacks
    -- a late append has no acknowledgement, and the quorum asks for one
    have hearly : w.afterSeal ≠ true := fun hseal => by
      rw [acks_eq_nil (hs.unacked hseal)] at hacks
      exact absurd hacks (Nat.not_le_of_lt hq)
    have hbase : Base ledger cur { w with handle := w.handle.commit a.acks a.entry.entryId } :=
      ⟨h.id, h.version, h.replies⟩
    dsimp only
    split
    · exact ⟨⟨h.id, h.version, h.replies⟩, hf, fun hseal => absurd hseal hearly⟩
    · exact hbase.reply hf fun hseal => absurd hseal hearly
  split
  · exact ⟨⟨h.id, h.version, h.replies⟩, hf, fun _ => rfl⟩
  · exact h.reply hf fun _ _ => nofun

theorem Base.endChange (h : Base ledger cur w) (hf : w.handle.metadata.fragments = cur.fragments)
    (hafter : w.afterSeal = true → after = .retry) (ok : Bool) :
    Base ledger cur (endChange crc32 w a after ok) ∧
      PcInv ledger cur (endChange crc32 w a after ok) := by
  unfold Cluster.endChange
  split
  · exact h.reply hf fun hseal => nomatch hafter hseal
  · exact h.startAttempt hf _ _
  · exact h.reply hf fun _ _ => nofun

theorem Base.pushFragment (h : Base ledger cur w) (hf : w.handle.metadata.fragments = cur.fragments)
    (hq : ∀ f, cur.fragments.getLast? = some f → 1 ≤ f.ackQuorum)
    (hafter : w.afterSeal = true → after = .retry) (nodes : Except FolioError (List NodeInfo)) :
    Base ledger cur (pushFragment crc32 w a after nodes) ∧
      PcInv ledger cur (pushFragment crc32 w a after nodes) := by
  unfold Cluster.pushFragment
  split
  · exact h.endChange hf hafter false
  · rename_i f hnew
    refine ⟨⟨h.id, h.version, h.replies⟩, ⟨f, ?_, ?_⟩, hafter⟩
    · change w.handle.metadata.fragments ++ [f] = _
      rw [hf]
    · cases nodes with
      | error e => cases hnew
      | ok ns =>
        obtain ⟨-, current, hcur, hack, -⟩ := newFragment_ok hnew
        rw [hf] at hcur
        rw [hack]
        exact hq current hcur

end Writer

section Frames
variable {ledger : Nat} {fenced fenced' : NodeId → Prop} {cur cur' : LedgerMetadata} {version : Nat}
  {pc : FencerPc} {m : LedgerMetadata}

theorem FencerInv.mono (h : FencerInv ledger fenced cur version pc)
    (hf : ∀ n, fenced n → fenced' n) : FencerInv ledger fenced' cur version pc := by
  unfold FencerInv at h ⊢
  split at h
  · obtain ⟨hid, hv, hfrags, f, done, hlast, hsplit, hdone⟩ := h
    exact ⟨hid, hv, hfrags, f, done, hlast, hsplit, fun n hn => hf n (hdone n hn)⟩
  · exact ⟨h.version, fun f hlast n hn => hf n (h.ensemble f hlast n hn)⟩
  · trivial

theorem Fencing.later {todo : List NodeId} (h : Fencing ledger fenced cur m todo)
    (hv : cur.version < cur'.version) : Fencing ledger fenced cur' m todo :=
  have hlt := Nat.lt_of_le_of_lt h.version hv
  ⟨h.id, Nat.le_of_lt hlt, fun heq => absurd heq (Nat.ne_of_lt hlt), h.ensemble⟩

theorem Fencing.all_fenced (h : Fencing ledger fenced cur m []) :
    ∀ f, m.fragments.getLast? = some f → ∀ n ∈ f.ensemble, fenced n := by
  obtain ⟨f, done, hlast, hsplit, hdone⟩ := h.ensemble
  intro g hg n hn
  obtain rfl : f = g := Option.some.inj (hlast.symm.trans hg)
  rw [hsplit, List.append_nil] at hn
  exact hdone n hn

theorem FencerInv.advance (h : FencerInv ledger fenced cur version pc)
    (hv : cur.version < cur'.version) (hf : cur'.fragments = cur.fragments) :
    FencerInv ledger fenced cur' version pc := by
  unfold FencerInv at h ⊢
  split at h
  · exact h.later hv
  · exact ⟨Nat.lt_trans h.version hv, by rw [hf]; exact h.ensemble⟩
  · trivial

theorem FencerInv.unsealed (h : FencerInv ledger fenced cur version pc)
    (heq : cur.version = version) (hv : cur.version < cur'.version) (version' : Nat) :
    FencerInv ledger fenced cur' version' pc := by
  unfold FencerInv at h ⊢
  split at h
  · exact h.later hv
  · exact absurd h.version (by rw [heq]; exact Nat.lt_irrefl _)
  · trivial

end Frames

section Steps
variable {s t : State} {store : Store} {d : Delivery} {w : Writer}

theorem InvAt.of_writer
    (hstored : store.ledgers.get s.ledger = some cur) (hid : cur.id = s.ledger)
    (hquorum : ∀ f, cur.fragments.getLast? = some f → 1 ≤ f.ackQuorum)
    (hfencers : ∀ c f, s.fencers.get c = some f →
      FencerInv s.ledger (fencedIn s) cur w.handle.metadata.version f.pc)
    (hw : Base s.ledger cur w ∧ PcInv s.ledger cur w)
    (hseal : w.afterSeal = true → ∃ c f, s.fencers.get c = some f ∧ isSealed f = true) :
    InvAt { s with store, writer := w } cur := by
  have hl : ({ s with store, writer := w } : State).ledger = s.ledger := hw.1.id
  have hfenced : fencedIn { s with store, writer := w } = fencedIn s := by
    funext n
    unfold fencedIn
    rw [hl]
    rfl
  constructor
  · rw [hl]
    exact hstored
  · rw [hl]
    exact hid
  · exact hquorum
  · rw [hl, hfenced]
    exact hfencers
  · rw [hl]
    exact hw.1
  · rw [hl]
    exact hw.2
  · exact hseal

theorem InvAt.withWriter (h : InvAt s cur) (hw : Base s.ledger cur w ∧ PcInv s.ledger cur w)
    (hv : w.handle.metadata.version = s.writer.handle.metadata.version)
    (hseal : w.afterSeal = true → ∃ c f, s.fencers.get c = some f ∧ isSealed f = true) :
    InvAt { s with writer := w } cur :=
  .of_writer h.stored h.id h.quorum (by rw [hv]; exact h.fencers) hw hseal

theorem InvAt.local_step (h : InvAt s cur) (hw : Base s.ledger cur w ∧ PcInv s.ledger cur w)
    (hsame : SameTerm s.writer w) : InvAt { s with writer := w } cur :=
  h.withWriter hw hsame.version (by rw [hsame.afterSeal]; exact h.afterSeal)

theorem InvAt.withReplicas {replicas : Table NodeId Replica} (h : InvAt s cur)
    (hf : ∀ n, fencedIn s n → fencedIn { s with replicas } n) : InvAt { s with replicas } cur :=
  ⟨h.stored, h.id, h.quorum, fun c f hget => (h.fencers c f hget).mono hf, h.base, h.pc,
    h.afterSeal⟩

theorem InvAt.sealed_fenced (h : InvAt s cur) (hseal : s.writer.afterSeal = true) :
    ∀ f, cur.fragments.getLast? = some f → ∀ n ∈ f.ensemble, fencedIn s n := by
  obtain ⟨c, fencer, hget, hsealed⟩ := h.afterSeal hseal
  have hinv := h.fencers c fencer hget
  unfold isSealed at hsealed
  split at hsealed
  · rename_i m hpc
    rw [hpc] at hinv
    exact hinv.ensemble
  · cases hsealed

theorem InvAt.deliver {i : Nat} {a : Attempt} {n : NodeId} (h : InvAt s cur)
    (hpc : s.writer.pc = .sending a) (hslot : a.slots[i]? = some (n, none)) :
    InvAt (afterDeliver crc32 s n a.entry d { s.writer with
      pc := .sending (a.fill i n (deliverAdd crc32 s n a.entry d).2) }) cur := by
  have hinv := h.pc
  unfold PcInv at hinv
  rw [hpc] at hinv
  obtain ⟨hfrags, hs⟩ := hinv
  have hmem : n ∈ a.fragment.ensemble := hs.nodes _ (List.mem_of_getElem? hslot)
  -- a fenced node acknowledges nothing
  have hrefused : s.writer.afterSeal = true →
      ∀ ack, (deliverAdd crc32 s n a.entry d).2 ≠ .ok ack := by
    intro hseal ack hok
    have hfence := h.sealed_fenced hseal a.fragment (hfrags ▸ hs.last) n hmem
    have hfree : a.entry.ledgerId ∉ (s.replica n).fences := by
      rcases deliverAdd_cases crc32 s n a.entry d with ⟨-, hack⟩ | ⟨hfree, -⟩
      · exact (hack ack hok).1
      · exact hfree
    rw [hs.ledger] at hfree
    exact hfree hfence
  refine (h.withReplicas fun n' => deliver_fencedIn crc32 n').withWriter
    ⟨⟨h.base.id, h.base.version, h.base.replies⟩, hfrags, hs.last, hs.ledger, ?_, ?_⟩ rfl
    h.afterSeal
  · intro slot hslot'
    rcases List.mem_or_eq_of_mem_set hslot' with hold | rfl
    · exact hs.nodes slot hold
    · exact hmem
  · intro hseal n' ack hmem'
    rcases List.mem_or_eq_of_mem_set hmem' with hold | hnew
    · exact hs.unacked hseal n' ack hold
    · exact hrefused hseal ack (Option.some.inj (Prod.mk.inj hnew).2).symm

theorem InvAt.putOk {a : Attempt} {after : AfterChange} {m : LedgerMetadata} (h : InvAt s cur)
    (hg : putAccepted s (.writer (.putLedger d))) (hpc : s.writer.pc = .putting a after)
    (hput : d.send (s.store.putLedger s.writer.handle.metadata) s.store = (store, .ok m)) :
    InvAt { s with store, writer := endChange crc32 (withMetadata s.writer m) a after true } m := by
  have hversion : cur.version = s.writer.handle.metadata.version := by
    have hv := hg.2
    rw [h.stored] at hv
    exact Option.some.inj hv
  have hinv := h.pc
  unfold PcInv at hinv
  rw [hpc] at hinv
  obtain ⟨⟨f, hfrags, hack⟩, hafter⟩ := hinv
  obtain ⟨rfl, hm⟩ := putLedger_accepted hput
  have hnew : m = { s.writer.handle.metadata with
    version := s.writer.handle.metadata.version + 1 } := hm
  have hlt : cur.version < m.version := by
    rw [hnew, hversion]
    exact Nat.lt_succ_self _
  have hbase : Base s.ledger m (withMetadata s.writer m) := by
    refine ⟨?_, Nat.le_refl _, h.base.replies⟩
    rw [hnew]
    rfl
  have hsame := endChange_sameTerm crc32 (withMetadata s.writer m) a after true
  refine .of_writer ?_ ?_ (fun g hlast => ?_) (fun c fencer hget => ?_)
    (hbase.endChange rfl hafter true) ?_
  · rw [hm]
    exact Table.get_put_self _ _ _
  · rw [hnew]
    rfl
  · have hlast' : (cur.fragments ++ [f]).getLast? = some g := by
      rw [← hfrags, ← hlast, hnew]
    rw [List.getLast?_concat] at hlast'
    rw [← Option.some.inj hlast']
    exact hack
  · exact (h.fencers c fencer hget).unsealed hversion hlt _
  · rw [hsame.afterSeal]
    exact h.afterSeal

theorem put_not_refused {e : FolioError} (h : InvAt s cur)
    (hg : putAccepted s (.writer (.putLedger d))) :
    d.send (s.store.putLedger s.writer.handle.metadata) s.store ≠ (store, .error e) := by
  obtain ⟨rfl, hv⟩ := hg
  rw [h.stored] at hv
  have hstored : s.store.ledgers.get s.writer.handle.metadata.id = some cur := h.stored
  simp [Delivery.send, Store.putLedger, hstored, Option.some.inj hv]

theorem InvAt.append {data : Bytes} (h : InvAt s cur) (hpc : s.writer.pc = .idle) :
    InvAt { s with
      writer := startAppend crc32 s.writer data (s.fencers.values.any isSealed) } cur := by
  have hfrags : s.writer.handle.metadata.fragments = cur.fragments := by
    have hinv := h.pc
    unfold PcInv at hinv
    rw [hpc] at hinv
    exact hinv
  generalize hseal : s.fencers.values.any isSealed = sealed
  have hbase : Base s.ledger cur { s.writer with afterSeal := sealed } :=
    ⟨h.base.id, h.base.version, h.base.replies⟩
  have hfound : sealed = true → ∃ c f, s.fencers.get c = some f ∧ isSealed f = true := by
    rintro rfl
    obtain ⟨f, hmem, hf⟩ := List.any_eq_true.mp hseal
    obtain ⟨c, hget⟩ := (Table.mem_values_iff _ _).mp hmem
    exact ⟨c, f, hget, hf⟩
  unfold startAppend
  dsimp only
  split
  · exact h.withWriter (hbase.reply hfrags fun _ _ => nofun) rfl hfound
  · have hsame := startAttempt_sameTerm crc32 { s.writer with afterSeal := sealed } 0 data
    refine h.withWriter (hbase.startAttempt hfrags 0 data) hsame.version ?_
    rw [hsame.afterSeal]
    exact hfound

theorem writer_step {a : WriterAct} (h : InvAt s cur) (hg : putAccepted s (.writer a))
    (hst : WriterStep crc32 s a t) : ∃ cur', InvAt t cur' := by
  have hinv := h.pc
  unfold PcInv at hinv
  cases hst with
  | append data hpc => exact ⟨cur, h.append hpc⟩
  | deliver i d a n hpc hslot => exact ⟨cur, h.deliver hpc hslot⟩
  | decide a hpc hover =>
    rw [hpc] at hinv
    have hq := h.quorum a.fragment (hinv.1 ▸ hinv.2.last)
    exact ⟨cur, h.local_step (h.base.decide hinv.1 hinv.2 hq) (decideAttempt_sameTerm _ _)⟩
  | listNodes d a after nodes hpc hnodes =>
    rw [hpc] at hinv
    exact ⟨cur, h.local_step (h.base.pushFragment hinv.1 h.quorum hinv.2 nodes)
      (pushFragment_sameTerm _ _ _ _ _)⟩
  | putOk d a after store m hpc hput => exact ⟨m, h.putOk hg hpc hput⟩
  | putErr d a after store e hpc hput => exact absurd hput (put_not_refused h hg)

end Steps

end Folio.FencingSafety
