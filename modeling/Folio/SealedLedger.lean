import Folio.ClusterSteps
import Folio.Crc32

/-! What the metadata `fence_and_seal` writes says about the entries of the ledger. -/
namespace Folio.SealedLedger
open KeyedTable Protocol LedgerClient TransitionSystem Cluster
variable {m : LedgerMetadata} {s t : State} {crc32 : Bytes → UInt32}

def Holds (s : State) (n : NodeId) (id : Nat) : Prop :=
  ((s.replica n).entries.get (s.ledger, id)).isSome

/-- `acked` are the ids appends had returned before the call. -/
structure SealedRight (s : State) (acked : List Nat) (m : LedgerMetadata) (f : Fragment) :
    Prop where
  complete : ∀ id ∈ acked, id ≤ m.lastAddConfirmed ∧ ∃ l, m.lastEntryId = some l ∧ id ≤ l
  held : ∀ l, m.lastEntryId = some l → ∃ n ∈ f.ensemble, Holds s n l
  -- `seal_ledger` writes its final id into both, and handles count on that
  same : ∀ l, m.lastEntryId = some l → m.lastAddConfirmed = l
  empty : m.lastEntryId = none ↔ ∀ n ∈ f.ensemble, ∀ id, ¬Holds s n id

def Sealable (s : State) (acked : List Nat) (f : Fragment) : Prop :=
  acked = [] ∧ ∀ n ∈ f.ensemble, ∀ id, ¬Holds s n id

/-- Nothing has been called yet; all else is arbitrary. -/
def NoCalls (s : State) : Prop :=
  s.writer.pc = .idle ∧ s.writer.replies = [] ∧ s.fencers = .empty

section Sealed
variable {s : State} {acked : List Nat} {f : Fragment}

def marks (s : State) (ns : List NodeId) : List Nat :=
  ns.map fun n => (s.replica n).highMark s.ledger

theorem marks_eq_zero (hnone : ∀ n ∈ f.ensemble, ∀ id, ¬Holds s n id) :
    (marks s f.ensemble).max?.getD 0 = 0 := by
  by_contra hne
  have hnil : marks s f.ensemble ≠ [] := fun h => hne (by rw [h]; rfl)
  obtain ⟨n, hn, htop⟩ := List.mem_map.mp (maxD_mem hnil)
  exact hne (htop.symm.trans (highMark_eq_zero fun id => hnone n hn id))

theorem sealedRight_empty (hnone : ∀ n ∈ f.ensemble, ∀ id, ¬Holds s n id)
    (hlast : m.lastEntryId = none) : SealedRight s acked m f ↔ acked = [] := by
  constructor
  · intro h
    refine List.eq_nil_iff_forall_not_mem.mpr fun id hid => ?_
    obtain ⟨-, l, hl, -⟩ := h.complete id hid
    rw [hlast] at hl
    cases hl
  · rintro rfl
    have hno : ∀ l, m.lastEntryId ≠ some l := by simp [hlast]
    exact ⟨nofun, fun l hl => absurd hl (hno l), fun l hl => absurd hl (hno l),
      fun _ => hnone, fun _ => hlast⟩

theorem not_sealedRight_held {n : NodeId} {id : Nat} (hn : n ∈ f.ensemble) (hid : Holds s n id)
    (hlast : m.lastEntryId =
      if m.lastAddConfirmed = 0 then none else some (m.lastAddConfirmed - 1)) :
    ¬SealedRight s acked m f := by
  intro h
  by_cases hzero : m.lastAddConfirmed = 0
  · rw [if_pos hzero] at hlast
    exact h.empty.mp hlast n hn id hid
  · rw [if_neg hzero] at hlast
    have hsame := h.same _ hlast
    omega

theorem sealedRight_iff (hlac : m.lastAddConfirmed = (marks s f.ensemble).max?.getD 0)
    (hlast : m.lastEntryId =
      if m.lastAddConfirmed = 0 then none else some (m.lastAddConfirmed - 1)) :
    SealedRight s acked m f ↔ Sealable s acked f := by
  by_cases hnone : ∀ n ∈ f.ensemble, ∀ id, ¬Holds s n id
  · rw [if_pos (hlac.trans (marks_eq_zero hnone))] at hlast
    rw [sealedRight_empty hnone hlast, Sealable, and_iff_left hnone]
  · have hheld := hnone
    push Not at hheld
    obtain ⟨n, hn, id, hid⟩ := hheld
    exact iff_of_false (not_sealedRight_held hn hid hlast) fun h => hnone h.2

end Sealed

section Invariant

def FencerInv (s : State) : FencerPc → Prop
  | .fencing m todo lacs => ∃ f done, m.fragments.getLast? = some f ∧
      f.ensemble = done ++ todo ∧ (∀ n ∈ done, fencedIn s n) ∧ lacs = marks s done
  | .returned (.ok m) => ∃ f, m.fragments.getLast? = some f ∧
      (∀ n ∈ f.ensemble, fencedIn s n) ∧
      m.lastAddConfirmed = (marks s f.ensemble).max?.getD 0 ∧
      m.lastEntryId = if m.lastAddConfirmed = 0 then none else some (m.lastAddConfirmed - 1)
  | _ => True

def Inv (s : State) : Prop := ∀ c f, s.fencers.get c = some f → FencerInv s f.pc

structure Frozen (s t : State) : Prop where
  fenced : ∀ n, fencedIn s n → fencedIn t n
  marks : ∀ n, fencedIn s n → (t.replica n).highMark t.ledger = (s.replica n).highMark s.ledger

theorem Frozen.marks_eq (h : Frozen s t) {ns : List NodeId} (hns : ∀ n ∈ ns, fencedIn s n) :
    SealedLedger.marks t ns = SealedLedger.marks s ns :=
  List.map_congr_left fun n hn => h.marks n (hns n hn)

theorem FencerInv.frozen {pc : FencerPc} (h : FencerInv s pc) (hf : Frozen s t) :
    FencerInv t pc := by
  unfold FencerInv at h ⊢
  split at h
  · obtain ⟨f, done, hlast, hsplit, hdone, hlacs⟩ := h
    exact ⟨f, done, hlast, hsplit, fun n hn => hf.fenced n (hdone n hn),
      hlacs.trans (hf.marks_eq hdone).symm⟩
  · obtain ⟨f, hlast, hall, hlac, hid⟩ := h
    refine ⟨f, hlast, fun n hn => hf.fenced n (hall n hn), ?_, hid⟩
    rw [hf.marks_eq hall]
    exact hlac
  · trivial

theorem Inv.frozen (h : Inv s) (hf : Frozen s t) (hfencers : t.fencers = s.fencers) : Inv t := by
  intro c f hget
  rw [hfencers] at hget
  exact (h c f hget).frozen hf

theorem frozen_local (hl : t.ledger = s.ledger) (hr : t.replicas = s.replicas) : Frozen s t := by
  have hrep : t.replica = s.replica := by
    funext n
    unfold State.replica
    rw [hr]
  constructor
  · intro n hn
    unfold fencedIn
    rw [hl, hrep]
    exact hn
  · intro n _
    rw [hl, hrep]

end Invariant

section Steps
variable {c : Nat} {d : Delivery} {n : NodeId} {lacs : List Nat}

theorem frozen_deliver {e : Entry} {w : Writer}
    (hw : w.handle.metadata.id = s.ledger) : Frozen s (afterDeliver crc32 s n e d w) := by
  have hl : (afterDeliver crc32 s n e d w).ledger = s.ledger := hw
  constructor
  · intro n' hn'
    unfold fencedIn
    rw [hl]
    exact deliver_fencedIn crc32 n' hn'
  · intro n' hn'
    rw [hl, afterDeliver_replica]
    split_ifs with heq
    · subst heq
      rcases deliverAdd_cases crc32 s n' e d with ⟨hsame, -⟩ | ⟨hfree, -, hput, -⟩
      · rw [hsame]
      · -- the entry stored belongs to another ledger
        refine highMark_congr fun id => ?_
        rw [hput]
        refine Table.get_put_ne _ _ fun hkey => hfree ?_
        rw [← show s.ledger = e.ledgerId from congrArg Prod.fst hkey]
        exact hn'
    · rfl

theorem writer_frozen {a : WriterAct} (hst : WriterStep crc32 s a t) :
    Frozen s t ∧ t.fencers = s.fencers := by
  cases hst with
  | append data hpc =>
    refine ⟨frozen_local ?_ rfl, rfl⟩
    change (startAppend _ _ _ _).handle.metadata.id = s.ledger
    unfold startAppend
    dsimp only
    split
    · rfl
    · exact (startAttempt_sameTerm crc32 _ 0 data).id
  | deliver i d a n hpc hslot => exact ⟨frozen_deliver rfl, rfl⟩
  | decide a hpc hover => exact ⟨frozen_local (decideAttempt_sameTerm _ a).id rfl, rfl⟩
  | listNodes d a after nodes hpc hnodes =>
    exact ⟨frozen_local (pushFragment_sameTerm crc32 _ a after nodes).id rfl, rfl⟩
  | putOk d a after store m hpc hput =>
    refine ⟨frozen_local ?_ rfl, rfl⟩
    refine (endChange_sameTerm crc32 (withMetadata s.writer m) a after true).id.trans ?_
    rw [(putLedger_accepted hput).2]
    rfl
  | putErr d a after store e hpc hput =>
    exact ⟨frozen_local (endChange_sameTerm crc32 _ a after false).id rfl, rfl⟩

theorem Inv.put {f : Fencer} (h : Inv s) (hf : FencerInv t f.pc) (hfrozen : Frozen s t)
    (hfencers : t.fencers = s.fencers.put c f) : Inv t := by
  intro c' f' hget
  rw [hfencers, Table.get_put] at hget
  split_ifs at hget
  · cases hget
    exact hf
  · exact (h c' f' hget).frozen hfrozen

theorem startFencing_inv (m : LedgerMetadata) : FencerInv s (startFencing m) := by
  unfold startFencing
  split
  · trivial
  · rename_i f hlast
    exact ⟨f, [], hlast, rfl, nofun, rfl⟩

theorem fence_highMark (fencers : Table Nat Fencer) (n' : NodeId) :
    (State.replica { s with
      replicas := s.replicas.put n (deliverFence s n d).1, fencers } n').highMark s.ledger =
      (s.replica n').highMark s.ledger := by
  rw [replica_put]
  split_ifs with heq
  · subst heq
    exact highMark_congr fun id => by rw [(deliverFence_frame ..).1]
  · rfl

theorem frozen_fence (fencers : Table Nat Fencer) :
    Frozen s { s with replicas := s.replicas.put n (deliverFence s n d).1, fencers } := by
  refine ⟨fun n' hn' => ?_, fun n' _ => fence_highMark fencers n'⟩
  unfold fencedIn at hn' ⊢
  rw [replica_put]
  split_ifs with heq
  · subst heq
    cases d with
    | lostRequest e => exact hn'
    | delivered => exact List.mem_cons_of_mem _ hn'
    | lostReply e => exact List.mem_cons_of_mem _ hn'
  · exact hn'

theorem fence_reply {lac : Nat} (fencers : Table Nat Fencer)
    (h : (deliverFence s n d).2 = .ok lac) :
    fencedIn { s with replicas := s.replicas.put n (deliverFence s n d).1, fencers } n ∧
      lac = (s.replica n).highMark s.ledger := by
  cases d <;> cases h
  refine ⟨?_, rfl⟩
  unfold fencedIn
  rw [replica_put, if_pos rfl]
  exact List.mem_cons_self

theorem fencing_inv {todo : List NodeId} {lac : Nat} (fencers : Table Nat Fencer)
    (h : FencerInv s (.fencing m (n :: todo) lacs)) (hok : (deliverFence s n d).2 = .ok lac) :
    FencerInv { s with replicas := s.replicas.put n (deliverFence s n d).1, fencers }
      (.fencing m todo (lacs ++ [lac])) := by
  obtain ⟨f, done, hlast, hsplit, hdone, hlacs⟩ := h
  obtain ⟨hfenced, hmark⟩ := fence_reply fencers hok
  refine ⟨f, done ++ [n], hlast, by rw [hsplit]; simp, fun n' hn' => ?_, ?_⟩
  · rcases List.mem_append.mp hn' with hn' | hn'
    · exact (frozen_fence fencers).fenced n' (hdone n' hn')
    · obtain rfl := List.mem_singleton.mp hn'
      exact hfenced
  · rw [hlacs, hmark]
    unfold SealedLedger.marks
    rw [List.map_append]
    congr 1
    · exact List.map_congr_left fun n' _ => (fence_highMark fencers n').symm
    · exact congrArg (fun x => [x]) (fence_highMark fencers n).symm

theorem sealed_inv (h : FencerInv s (.fencing m [] lacs)) :
    FencerInv s (.returned (d.send (s.store.putLedger (sealedMetadata m lacs)) s.store).2) := by
  generalize hres : (d.send (s.store.putLedger (sealedMetadata m lacs)) s.store).2 = res
  cases res with
  | error e => trivial
  | ok m' =>
    obtain ⟨-, rfl⟩ := putLedger_accepted (Prod.ext rfl hres)
    obtain ⟨f, done, hlast, hsplit, hdone, rfl⟩ := h
    rw [List.append_nil] at hsplit
    rw [← hsplit] at hdone ⊢
    exact ⟨f, hlast, hdone, rfl, rfl⟩

theorem fencer_step {a : FencerAct} (h : Inv s) (hst : stepFencer s c a = some t) : Inv t := by
  unfold stepFencer at hst
  split at hst
  · cases hst
    exact h.put (f := ⟨.started, _⟩) trivial (frozen_local rfl rfl) rfl
  · cases hst
    refine h.put (f := ⟨_, _⟩) ?_ (frozen_local rfl rfl) rfl
    dsimp only
    split
    · exact startFencing_inv _
    · trivial
  · cases hst
    refine h.put (f := ⟨_, _⟩) ?_ (frozen_local rfl rfl) rfl
    dsimp only
    split
    · exact startFencing_inv _
    · trivial
  · rename_i d m n todo lacs acked hget
    cases hst
    refine h.put (f := ⟨_, _⟩) ?_ (frozen_fence _) rfl
    dsimp only
    split
    · exact fencing_inv _ (h c _ hget) ‹_›
    · trivial
  · rename_i d m lacs acked hget
    cases hst
    refine h.put (f := ⟨_, _⟩) ?_ (frozen_local rfl rfl) rfl
    have hsealed := sealed_inv (d := d) (h c _ hget)
    exact hsealed.frozen (frozen_local rfl rfl)
  · cases hst

end Steps

section Runs

theorem inv_step {a : Act} (h : Inv s) (hst : step crc32 s a = some t) : Inv t := by
  cases a with
  | writer a =>
    obtain ⟨hfrozen, hfencers⟩ := writer_frozen (stepWriter_cases crc32 hst)
    exact h.frozen hfrozen hfencers
  | fencer c a => exact fencer_step h hst
  | register n =>
    cases hst
    exact h.frozen (frozen_local rfl rfl) rfl
  | expire n =>
    cases hst
    exact h.frozen (frozen_local rfl rfl) rfl

/-- What a `fence_and_seal` has returned describes the ledger exactly if its fenced ensemble
is `Sealable`. -/
theorem sealed_metadata_right_iff (h : Reach (step crc32) NoCalls s) {c : Nat}
    {m : LedgerMetadata} {acked : List Nat}
    (hret : s.fencers.get c = some ⟨.returned (.ok m), acked⟩) :
    ∃ f, m.fragments.getLast? = some f ∧ (SealedRight s acked m f ↔ Sealable s acked f) := by
  have hinv : Inv s := by
    refine Reach.invariant (P := Inv) (fun s hs c f hget => ?_) (fun s a t hs hst => ?_) h
    · rw [hs.2.2] at hget
      cases hget
    · exact inv_step hs hst
  obtain ⟨f, hlast, -, hlac, hid⟩ := hinv c _ hret
  exact ⟨f, hlast, sealedRight_iff hlac hid⟩

theorem oneNode_noCalls (nodes : Table NodeId NodeStatus) : NoCalls (newCluster oneNode nodes) :=
  ⟨rfl, rfl, rfl⟩

theorem holds_iff (s : State) (n : NodeId) (id : Nat) :
    Holds s n id ↔ (s.ledger, id) ∈ (s.replica n).entries.keys := by
  rw [Table.mem_keys_iff, Holds, Option.isSome_iff_exists]

def sealedOne (lac : Nat) (last : Option Nat) : LedgerMetadata :=
  { oneNode with state := .Closed, lastAddConfirmed := lac, lastEntryId := last, version := 3 }

theorem lost_append_sealed_right :
    ∃ s, Reach (step Crc32.crc32) NoCalls s ∧ s.writer.replies ≠ [] ∧
      s.fencers.get 0 = some ⟨.returned (.ok (sealedOne 0 none)), []⟩ ∧
      SealedRight s [] (sealedOne 0 none) ⟨0, ["n0"], 1, 1⟩ := by
  obtain ⟨s, hreach, hreplied, hret, hkeys⟩ := reach_check (step Crc32.crc32)
    (oneNode_noCalls .empty)
    (fun s => s.writer.replies ≠ [] ∧
      s.fencers.get 0 = some ⟨.returned (.ok (sealedOne 0 none)), []⟩ ∧
      (s.replica "n0").entries.keys = [])
    (appendActs [1] [unreachable] ++
      [.writer (.listNodes .delivered)] ++ sealActs 1)
    (by decide +kernel)
  obtain ⟨f, hlast, hiff⟩ := sealed_metadata_right_iff hreach hret
  cases hlast
  refine ⟨s, hreach, hreplied, hret, hiff.mpr ⟨rfl, fun n hn id hid => ?_⟩⟩
  obtain rfl := List.mem_singleton.mp hn
  rw [holds_iff, hkeys] at hid
  exact List.not_mem_nil hid

/-- Entries 0 and 1 are acknowledged and held, and the sealed ledger ends at entry 0. -/
theorem seal_drops_last_entry :
    ∃ s, Reach (step Crc32.crc32) NoCalls s ∧
      s.fencers.get 0 = some ⟨.returned (.ok (sealedOne 1 (some 0))), [1, 0]⟩ ∧
      Holds s "n0" 1 ∧
      ¬SealedRight s [1, 0] (sealedOne 1 (some 0)) ⟨0, ["n0"], 1, 1⟩ := by
  obtain ⟨s, hreach, hret, hheld⟩ := reach_check (step Crc32.crc32) (oneNode_noCalls .empty)
    (fun s => s.fencers.get 0 = some ⟨.returned (.ok (sealedOne 1 (some 0))), [1, 0]⟩ ∧
      ((s.replica "n0").entries.get (s.ledger, 1)).isSome)
    (appendActs [1] [.delivered] ++ appendActs [2] [.delivered] ++ sealActs 1) (by decide +kernel)
  refine ⟨s, hreach, hret, hheld, fun hright => ?_⟩
  obtain ⟨-, l, hl, hle⟩ := hright.complete 1 List.mem_cons_self
  cases hl
  exact absurd hle (by decide)

end Runs
end Folio.SealedLedger
