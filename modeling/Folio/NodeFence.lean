import Folio.NodeSteps
import Mathlib.Order.Lattice

/-! The cut a node's fence makes among the add requests that run beside it. -/
namespace Folio.NodeFence
open KeyedTable Protocol TransitionSystem Node

def InFlight : AddPc → Prop
  | .checked | .registered | .sent | .logged => True
  | _ => False

instance : DecidablePred InFlight := fun pc => by
  unfold InFlight
  split <;> infer_instance

def Counted : AddPc → Prop
  | .marked | .returned (.written _) => True
  | _ => False

def Closed : FencePc → Prop
  | .inSet | .readHi _ | .readEntry _ _ | .returned _ => True
  | _ => False

def reached : FencePc → Option Nat
  | .readHi memHi | .readEntry memHi _ => some memHi
  | .returned hi => some hi
  | _ => none

def FenceCut (s : State) : Prop :=
  ∀ f ledger h, s.fenceReqs.get f = some ⟨ledger, .returned h⟩ →
    ∀ c e ack, s.adds.get c = some ⟨e, .returned (.written ack)⟩ → e.ledgerId = ledger →
      e.entryId ≤ h

/-- A fence reads `hi_entry` only when no write of its ledger is on its way. -/
def settled (s : State) (a : Act) : Prop :=
  match a with
  | .fence f .readHi =>
    match s.fenceReqs.get f with
    | some fence => ∀ req ∈ s.adds.values, req.entry.ledgerId = fence.ledger → ¬InFlight req.pc
    | none => True
  | _ => True

instance (s : State) (a : Act) : Decidable (settled s a) := by
  unfold settled
  split
  · split <;> infer_instance
  · infer_instance

def NoRequests (s : State) : Prop := s.adds = .empty ∧ s.fenceReqs = .empty

structure Inv (s : State) : Prop where
  counted : ∀ c req, s.adds.get c = some req → Counted req.pc →
    req.entry.entryId ≤ memMark s req.entry.ledgerId
  closed : ∀ f fence, s.fenceReqs.get f = some fence → Closed fence.pc → fence.ledger ∈ s.fences
  cut : ∀ f fence n, s.fenceReqs.get f = some fence → reached fence.pc = some n →
    ∀ c req, s.adds.get c = some req → req.entry.ledgerId = fence.ledger →
      ¬InFlight req.pc ∧ (Counted req.pc → req.entry.entryId ≤ n)

section AddSteps
variable {env : Env} {s t : State} {c : Nat}

theorem memMark_raise (s : State) (ledger n l : Nat) :
    memMark { s with hiEntry := raise s.hiEntry ledger n } l =
      if l = ledger then max n (memMark s l) else memMark s l := by
  unfold memMark raise
  dsimp only
  rw [Table.get_put]
  split_ifs with hl
  · subst hl
    cases s.hiEntry.get l <;> simp
  · rfl

theorem Inv.update {req : AddReq} (h : Inv s) (hf : t.fences = s.fences)
    (hr : t.fenceReqs = s.fenceReqs) (hm : ∀ l, memMark s l ≤ memMark t l)
    (ha : t.adds = s.adds.put c req)
    (hcount : Counted req.pc → req.entry.entryId ≤ memMark t req.entry.ledgerId)
    (hcut : ∀ f fence n, s.fenceReqs.get f = some fence → reached fence.pc = some n →
      req.entry.ledgerId = fence.ledger →
        ¬InFlight req.pc ∧ (Counted req.pc → req.entry.entryId ≤ n)) : Inv t where
  counted := by
    intro c' req' hget hcnt
    rw [ha, Table.get_put] at hget
    split_ifs at hget
    · cases hget
      exact hcount hcnt
    · exact (h.counted c' req' hget hcnt).trans (hm _)
  closed := by
    rw [hf, hr]
    exact h.closed
  cut := by
    intro f fence n hfence hn c' req' hget hl
    rw [hr] at hfence
    rw [ha, Table.get_put] at hget
    split_ifs at hget
    · cases hget
      exact hcut f fence n hfence hn hl
    · exact h.cut f fence n hfence hn c' req' hget hl

theorem Inv.inFlight {e : Entry} {pc : AddPc} (h : Inv s) (hget : s.adds.get c = some ⟨e, pc⟩)
    (hpc : InFlight pc) {f n : Nat} {fence : FenceReq} {P : Prop}
    (hfence : s.fenceReqs.get f = some fence) (hn : reached fence.pc = some n)
    (hl : e.ledgerId = fence.ledger) : P :=
  absurd hpc (h.cut f fence n hfence hn c ⟨e, pc⟩ hget hl).1

theorem closed_of_reached {pc : FencePc} {n : Nat} (h : reached pc = some n) : Closed pc := by
  cases pc with
  | started | durable | inSet => cases h
  | readHi | readEntry | returned => trivial

theorem fenceCheck_outcome (env : Env) (s : State) (e : Entry) :
    ¬Counted (fenceCheck env s e) ∧ (InFlight (fenceCheck env s e) → e.ledgerId ∉ s.fences) := by
  unfold fenceCheck
  split_ifs with hdigest hfence
  · exact ⟨fun hc => hc, fun hp => hp.elim⟩
  · exact ⟨fun hc => hc, fun hp => hp.elim⟩
  · exact ⟨fun hc => hc, fun _ => hfence⟩

theorem dupCheck_not_counted (s : State) (e : Entry) : ¬Counted (dupCheck s e) := by
  unfold dupCheck
  split_ifs <;> simp [Counted]

theorem Inv.add (h : Inv s) (hst : AddStep env s c t) : Inv t := by
  cases hst with
  | invoke e hget =>
    exact h.update rfl rfl (fun _ => le_rfl) rfl (fun hc => hc.elim)
      fun _ _ _ _ _ _ => ⟨fun hp => hp, fun hc => hc.elim⟩
  | fenceCheck e hget =>
    obtain ⟨hnot, hfree⟩ := fenceCheck_outcome env s e
    refine h.update rfl rfl (fun _ => le_rfl) rfl (fun hc => absurd hc hnot) ?_
    intro f fence n hf hn hl
    refine ⟨fun hp => hfree hp ?_, fun hc => absurd hc hnot⟩
    rw [show e.ledgerId = fence.ledger from hl]
    exact h.closed f fence hf (closed_of_reached hn)
  | register e u pc hget hu hpc =>
    rw [hu.state]
    rcases hpc with rfl | ⟨err, rfl⟩ <;>
      exact h.update rfl rfl (fun _ => le_rfl) rfl (fun hc => hc.elim)
        fun _ _ _ hf hn hl => h.inFlight hget trivial hf hn hl
  | dupCheck e hget =>
    exact h.update rfl rfl (fun _ => le_rfl) rfl (fun hc => absurd hc (dupCheck_not_counted s e))
      fun _ _ _ hf hn hl => h.inFlight hget trivial hf hn hl
  | journal e pc hget hopen hpc =>
    rcases hpc with rfl | ⟨err, rfl⟩ <;>
      exact h.update rfl rfl (fun _ => le_rfl) rfl (fun hc => hc.elim)
        fun _ _ _ hf hn hl => h.inFlight hget trivial hf hn hl
  | journalLost e err hget =>
    exact h.update rfl rfl (fun _ => le_rfl) rfl (fun hc => hc.elim)
      fun _ _ _ hf hn hl => h.inFlight hget trivial hf hn hl
  | mark e hget =>
    refine h.update rfl rfl (fun l => ?_) rfl (fun _ => ?_)
      fun _ _ _ hf hn hl => h.inFlight hget trivial hf hn hl
    · refine le_of_le_of_eq ?_ (memMark_raise s e.ledgerId e.entryId l).symm
      split_ifs <;> omega
    · refine le_of_le_of_eq ?_ (memMark_raise s e.ledgerId e.entryId e.ledgerId).symm
      rw [if_pos rfl]
      exact le_max_left _ _
  | cache e hget =>
    -- the mark step before this one has already settled both obligations
    have hold : e.entryId ≤ memMark s e.ledgerId := h.counted c _ hget trivial
    refine h.update rfl rfl (fun _ => le_rfl) rfl (fun _ => hold) fun f fence n hf hn hl => ?_
    exact ⟨fun hp => hp, fun _ => (h.cut f fence n hf hn c _ hget hl).2 trivial⟩

end AddSteps

section FenceSteps
variable {s t : State} {f : Nat}

theorem Inv.fence_update {fence : FenceReq} (h : Inv s) (ha : t.adds = s.adds)
    (hm : t.hiEntry = s.hiEntry) (hfs : ∀ l ∈ s.fences, l ∈ t.fences)
    (hr : t.fenceReqs = s.fenceReqs.put f fence)
    (hclosed : Closed fence.pc → fence.ledger ∈ t.fences)
    (hcut : ∀ n, reached fence.pc = some n → ∀ c req, s.adds.get c = some req →
      req.entry.ledgerId = fence.ledger →
        ¬InFlight req.pc ∧ (Counted req.pc → req.entry.entryId ≤ n)) : Inv t where
  counted := by
    unfold memMark
    rw [ha, hm]
    exact h.counted
  closed := by
    intro f' fence' hget hcl
    rw [hr, Table.get_put] at hget
    split_ifs at hget
    · cases hget
      exact hclosed hcl
    · exact hfs _ (h.closed f' fence' hget hcl)
  cut := by
    intro f' fence' n hget hn
    rw [hr, Table.get_put] at hget
    rw [ha]
    split_ifs at hget
    · cases hget
      exact hcut n hn
    · exact h.cut f' fence' n hget hn

theorem memMark_le_highMark (s : State) (ledger : Nat) : memMark s ledger ≤ highMark s ledger :=
  Nat.le_max_left _ _

theorem Inv.fence {a : FenceAct} (h : Inv s) (hg : settled s (.fence f a))
    (hst : FenceStep s f a t) : Inv t := by
  cases hst with
  | invoke ledger hget =>
    exact h.fence_update rfl rfl (fun _ hl => hl) rfl (fun hc => hc.elim) nofun
  | durable ledger hget =>
    exact h.fence_update rfl rfl (fun _ hl => hl) rfl (fun hc => hc.elim) nofun
  | inSet ledger hget =>
    refine h.fence_update rfl rfl (fun _ hl => List.mem_cons_of_mem _ hl) rfl (fun _ => ?_) nofun
    exact List.mem_cons_self
  | readHi ledger hget =>
    refine h.fence_update rfl rfl (fun _ hl => hl) rfl
      (fun _ => h.closed f ⟨ledger, .inSet⟩ hget trivial) fun n hn c req hreq hl => ?_
    cases hn
    simp only [settled, hget] at hg
    refine ⟨hg req ((Table.mem_values_iff _ _).mpr ⟨c, hreq⟩) hl, fun hc => ?_⟩
    have hle := h.counted c req hreq hc
    rwa [hl] at hle
  | readEntryIndex ledger memHi hget =>
    refine h.fence_update rfl rfl (fun _ hl => hl) rfl
      (fun _ => h.closed f ⟨ledger, .readHi memHi⟩ hget trivial) fun n hn => ?_
    exact h.cut f ⟨ledger, .readHi memHi⟩ n hget hn
  | readWalIndex ledger memHi hiEntry hget =>
    refine h.fence_update rfl rfl (fun _ hl => hl) rfl
      (fun _ => h.closed f ⟨ledger, .readEntry memHi hiEntry⟩ hget trivial)
      fun n hn c req hreq hl => ?_
    cases hn
    obtain ⟨hnot, hle⟩ :=
      h.cut f ⟨ledger, .readEntry memHi hiEntry⟩ memHi hget rfl c req hreq hl
    exact ⟨hnot, fun hc => (hle hc).trans (Nat.le_max_left _ _)⟩

end FenceSteps

section Runs
variable {env : Env} {s t : State}

theorem Inv.frame (h : Inv s) (ha : t.adds = s.adds) (hr : t.fenceReqs = s.fenceReqs)
    (hf : t.fences = s.fences) (hm : t.hiEntry = s.hiEntry) : Inv t := by
  obtain ⟨hcounted, hclosed, hcut⟩ := h
  constructor
  · unfold memMark
    rw [ha, hm]
    exact hcounted
  · rw [hr, hf]
    exact hclosed
  · rw [hr, ha]
    exact hcut

theorem inv_step {a : Act} (h : Inv s) (hg : settled s a) (hst : step env s a = some t) :
    Inv t := by
  cases a with
  | add c a => exact h.add (stepAdd_cases env hst)
  | fence f a => exact h.fence hg (stepFence_cases hst)
  | sealWal a =>
    rw [(stepSeal_wal hst).state]
    exact h.frame rfl rfl rfl rfl
  | flush a =>
    obtain ⟨-, hflush⟩ := stepFlush_cases hst
    cases hflush <;> exact h.frame rfl rfl rfl rfl
  | gc a =>
    rw [(stepGc_wal hst).state]
    exact h.frame rfl rfl rfl rfl

theorem inv_noRequests (h : NoRequests s) : Inv s := by
  obtain ⟨ha, hr⟩ := h
  constructor
  · intro c req hget
    rw [ha] at hget
    cases hget
  · intro f fence hget
    rw [hr] at hget
    cases hget
  · intro f fence n hget
    rw [hr] at hget
    cases hget

/-- If every fence reads `hi_entry` with no write of its ledger in flight, then no write
is ever acknowledged above a mark that was returned. -/
theorem fence_cuts_writes (h : Reach (guarded settled (step env)) NoRequests s) : FenceCut s := by
  have hinv : Inv s := by
    refine Reach.invariant (P := Inv) (fun _ => inv_noRequests) (fun s a t hs hst => ?_) h
    obtain ⟨hg, hst⟩ := (guarded_eq_some settled).mp hst
    exact inv_step hs hg hst
  intro f ledger n hfence c e ack hreq hl
  exact (hinv.cut f ⟨ledger, .returned n⟩ n hfence rfl c _ hreq hl).2 trivial

theorem newNode_noRequests : NoRequests newNode := ⟨rfl, rfl⟩

def fenceRequest (ledger : Nat) : List FenceAct :=
  [.invoke ledger, .durable, .inSet, .readHi, .readEntryIndex, .readWalIndex]

def fenceActs (f ledger : Nat) : List Act := (fenceRequest ledger).map (.fence f)

/-- Undisturbed, a fence answers with the marks of the state it starts in: it writes the
ledgers partition and the fence set only. -/
theorem run_fenceRequest {f : Nat} (ledger : Nat) (hf : s.fenceReqs.get f = none) :
    ∃ reqs, run (fun s a => stepFence s f a) s (fenceRequest ledger) = some { s with
        entryIndex := s.entryIndex.fenceLedger ledger, fences := ledger :: s.fences
        fenceReqs := reqs } ∧
      reqs.get f = some ⟨ledger, .returned (highMark s ledger)⟩ := by
  let s₁ : State := { s with fenceReqs := s.fenceReqs.put f ⟨ledger, .started⟩ }
  let s₂ := setFence { s₁ with entryIndex := s₁.entryIndex.fenceLedger ledger } f
    ⟨ledger, .started⟩ .durable
  let s₃ := setFence { s₂ with fences := ledger :: s₂.fences } f ⟨ledger, .durable⟩ .inSet
  let s₄ := setFence s₃ f ⟨ledger, .inSet⟩ (.readHi (memMark s₃ ledger))
  let s₅ := setFence s₄ f ⟨ledger, .readHi (memMark s₃ ledger)⟩
    (.readEntry (memMark s₃ ledger) (entryMark s₄ ledger))
  have hget (u : State) (req : FenceReq) (pc : FencePc) :
      (setFence u f req pc).fenceReqs.get f = some { req with pc } := Table.get_put_self _ _ _
  have h₁ : stepFence s f (.invoke ledger) = some s₁ := by simp only [stepFence, hf, s₁]
  have h₂ : stepFence s₁ f .durable = some s₂ := by
    simp only [stepFence, s₁, s₂, Table.get_put_self]
  have h₃ : stepFence s₂ f .inSet = some s₃ := by simp only [stepFence, hget, s₂, s₃]
  have h₄ : stepFence s₃ f .readHi = some s₄ := by simp only [stepFence, hget, s₃, s₄]
  have h₅ : stepFence s₄ f .readEntryIndex = some s₅ := by simp only [stepFence, hget, s₄, s₅]
  refine ⟨_, run_cons h₁ (run_cons h₂ (run_cons h₃ (run_cons h₄ (run_cons h₅
    (run_cons (u := setFence s₅ f ⟨ledger, .readEntry (memMark s₃ ledger) (entryMark s₄ ledger)⟩
      (.returned (highMark s ledger))) ?_ rfl))))), hget s₅ _ _⟩
  simp only [stepFence, hget, s₅]
  rfl

theorem finished_write_below_mark :
    ∃ s, Reach (guarded settled (step plainEnv)) NoRequests s ∧
      s.fenceReqs.get 0 = some ⟨1, .returned 5⟩ ∧
      s.adds.get 0 = some ⟨emptyEntry 5, .returned (.written ⟨1, 5, 0, "n1"⟩)⟩ ∧ FenceCut s := by
  obtain ⟨s, hreach, hf, ha⟩ := reach_check (guarded settled (step plainEnv)) newNode_noRequests
    (fun s => s.fenceReqs.get 0 = some ⟨1, .returned 5⟩ ∧
      s.adds.get 0 = some ⟨emptyEntry 5, .returned (.written ⟨1, 5, 0, "n1"⟩)⟩)
    (addActs 0 (emptyEntry 5) ++ fenceActs 0 1) (by decide +kernel)
  exact ⟨s, hreach, hf, ha, fence_cuts_writes hreach⟩

/-- The write passes its fence check, the whole fence runs, and the write is acknowledged
above the mark the fence has returned. -/
theorem write_overtakes_fence :
    ∃ s, Reach (step plainEnv) NoRequests s ∧ s.fenceReqs.get 0 = some ⟨1, .returned 0⟩ ∧
      s.adds.get 0 = some ⟨emptyEntry 5, .returned (.written ⟨1, 5, 0, "n1"⟩)⟩ ∧ ¬FenceCut s := by
  obtain ⟨s, hreach, hf, ha⟩ := reach_check (step plainEnv) newNode_noRequests
    (fun s => s.fenceReqs.get 0 = some ⟨1, .returned 0⟩ ∧
      s.adds.get 0 = some ⟨emptyEntry 5, .returned (.written ⟨1, 5, 0, "n1"⟩)⟩)
    ((addActs 0 (emptyEntry 5)).take 2 ++ fenceActs 0 1 ++ (addActs 0 (emptyEntry 5)).drop 2)
    (by decide +kernel)
  refine ⟨s, hreach, hf, ha, fun hcut => ?_⟩
  exact absurd (hcut 0 1 0 hf 0 _ _ ha rfl) (by decide)

end Runs
end Folio.NodeFence
