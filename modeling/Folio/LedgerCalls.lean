import Folio.Fjall
import Folio.TransitionSystem

/-! Concurrent calls on the `ledgers` partition. Each reads a ledger's state and, where it
writes, inserts a whole new state later; nothing locks the record in between. -/
namespace Folio.LedgerCalls
open KeyedTable Protocol Fjall TransitionSystem

inductive Op where
  | fence
  | ensure (masterKey : Option Key32)
  deriving DecidableEq

inductive Reply where
  | fenced
  | known (written : Bool)
  | failed (e : FolioError)
  deriving DecidableEq

inductive Pc where
  | started
  | hasRead (seen : Option Fjall.LedgerState)
  | returned (reply : Reply)
  deriving DecidableEq

structure Call where
  ledger : Nat
  op : Op
  pc : Pc
  deriving DecidableEq

structure State where
  index : FjallIndex
  calls : Table Nat Call

inductive Act where
  | invoke (c ledger : Nat) (op : Op)
  | read (c : Nat)
  | insert (c : Nat)
  | restart

def afterRead (call : Call) (seen : Option Fjall.LedgerState) : Pc :=
  match call.op with
  | .fence => .hasRead seen
  | .ensure key =>
    match FjallIndex.ensureVerdict call.ledger seen key with
    | .write _ => .hasRead seen
    | .reject e => .returned (.failed e)
    | .keep => .returned (.known false)

def insertion (call : Call) (seen : Option Fjall.LedgerState) :
    Option (Fjall.LedgerState × Reply) :=
  match call.op with
  | .fence => some (FjallIndex.fencedState seen, .fenced)
  | .ensure key =>
    match FjallIndex.ensureVerdict call.ledger seen key with
    | .write state => some (state, .known true)
    | _ => none

def isReturned (e : Nat × Call) : Bool :=
  match e.2.pc with
  | .returned _ => true
  | _ => false

def step (s : State) : Act → Option State
  | .invoke c ledger op =>
    match s.calls.get c with
    | none => some { s with calls := s.calls.put c ⟨ledger, op, .started⟩ }
    | some _ => none
  | .read c => do
    let call ← s.calls.get c
    match call.pc with
    | .started => some { s with calls := s.calls.put c { call with
        pc := afterRead call (s.index.getLedgerState call.ledger) } }
    | _ => none
  | .insert c => do
    let call ← s.calls.get c
    match call.pc with
    | .hasRead seen =>
      (insertion call seen).map fun w =>
        { index := { s.index with ledgers := s.index.ledgers.put call.ledger w.1 }
          calls := s.calls.put c { call with pc := .returned w.2 } }
    | _ => none
  | .restart => some { s with calls := s.calls.filter isReturned }

def NoCalls (s : State) : Prop := s.calls = .empty

theorem fence_alone (x : FjallIndex) (c ledger : Nat) :
    (run step ⟨x, .empty⟩ [.invoke c ledger .fence, .read c, .insert c]).map State.index =
      some (x.fenceLedger ledger) := by
  simp [run, step, afterRead, insertion, FjallIndex.fenceLedger]

theorem ensure_alone (x y : FjallIndex) (c ledger : Nat) (key : Option Key32)
    (h : x.ensureLedgerKnown ledger key = .ok (y, true)) :
    (run step ⟨x, .empty⟩ [.invoke c ledger (.ensure key), .read c, .insert c]).map State.index =
      some y := by
  unfold FjallIndex.ensureLedgerKnown at h
  split at h
  case h_1 state hv =>
    simp only [Except.ok.injEq, Prod.mk.injEq] at h
    simp [run, step, afterRead, insertion, hv, ← h.1]
  case h_2 => cases h
  case h_3 => simp at h

def Honoured (x : FjallIndex) (call : Call) : Prop :=
  (call.pc = .returned .fenced →
    ∃ st, x.getLedgerState call.ledger = some st ∧ st.isFenced = true) ∧
  ∀ k written, call.op = .ensure (some k) → call.pc = .returned (.known written) →
    ∃ st, x.getLedgerState call.ledger = some st ∧ st.masterKey = some k

/-- No other insert has changed the record between a call's read and its insert. -/
def undisturbed (s : State) (a : Act) : Prop :=
  match a with
  | .insert c =>
    match s.calls.get c with
    | some ⟨ledger, _, .hasRead seen⟩ => s.index.getLedgerState ledger = seen
    | _ => True
  | _ => True

instance (s : State) (a : Act) : Decidable (undisturbed s a) := by
  unfold undisturbed
  split
  · split <;> infer_instance
  · infer_instance

section Order

def Grows (old : Option Fjall.LedgerState) (new : Fjall.LedgerState) : Prop :=
  ∀ st, old = some st → (st.isFenced = true → new.isFenced = true) ∧
    ∀ k, st.masterKey = some k → new.masterKey = some k

theorem insertion_grows {call : Call} {seen : Option Fjall.LedgerState}
    {w : Fjall.LedgerState × Reply} (h : insertion call seen = some w) : Grows seen w.1 := by
  rintro st rfl
  unfold insertion at h
  split at h
  · cases h
    simp [FjallIndex.fencedState]
  · split at h
    · rename_i key _ _ state hv
      cases h
      rcases FjallIndex.ensureVerdict_write hv with ⟨hnone, -⟩ | ⟨old, k, hold, hkey, -, rfl⟩
      · cases hnone
      · obtain rfl := Option.some.inj hold
        simp [hkey]
    · cases h

theorem Honoured.grow {x : FjallIndex} {call : Call} {ledger : Nat} {new : Fjall.LedgerState}
    (h : Honoured x call) (hg : Grows (x.getLedgerState ledger) new) :
    Honoured { x with ledgers := x.ledgers.put ledger new } call := by
  have hget : ∀ l, FjallIndex.getLedgerState { x with ledgers := x.ledgers.put ledger new } l =
      if l = ledger then some new else x.getLedgerState l := fun l => Table.get_put _ _ _ _
  unfold Honoured
  rw [hget]
  split_ifs with hl
  · subst hl
    refine ⟨fun hpc => ?_, fun k b hop hpc => ?_⟩
    · obtain ⟨st, hst, hf⟩ := h.1 hpc
      exact ⟨new, rfl, (hg st hst).1 hf⟩
    · obtain ⟨st, hst, hk⟩ := h.2 k b hop hpc
      exact ⟨new, rfl, (hg st hst).2 k hk⟩
  · exact h

end Order

section Runs
variable {s t : State}

def Inv (s : State) : Prop := ∀ c call, s.calls.get c = some call → Honoured s.index call

theorem afterRead_honoured (x : FjallIndex) (call : Call) :
    Honoured x { call with pc := afterRead call (x.getLedgerState call.ledger) } := by
  constructor
  · intro hpc
    dsimp only [afterRead] at hpc
    repeat' split at hpc
    all_goals cases hpc
  · intro k written hop hpc
    dsimp only [afterRead] at hop hpc
    rw [hop] at hpc
    dsimp only at hpc
    split at hpc
    · cases hpc
    · cases hpc
    · rename_i hv
      obtain ⟨old, hold, hkey⟩ := FjallIndex.ensureVerdict_keep hv
      exact ⟨old, hold, hkey k rfl⟩

theorem insertion_honoured (x : FjallIndex) (call : Call) {seen : Option Fjall.LedgerState}
    {w : Fjall.LedgerState × Reply} (h : insertion call seen = some w) :
    Honoured { x with ledgers := x.ledgers.put call.ledger w.1 }
      { call with pc := .returned w.2 } := by
  have hget : FjallIndex.getLedgerState
      { x with ledgers := x.ledgers.put call.ledger w.1 } call.ledger = some w.1 :=
    Table.get_put_self _ _ _
  unfold insertion at h
  split at h
  · rename_i hop
    cases h
    exact ⟨fun _ => ⟨_, hget, rfl⟩, fun k b hop' => by rw [hop] at hop'; cases hop'⟩
  · rename_i key hop
    split at h
    · rename_i state hv
      cases h
      refine ⟨(fun hpc => by cases hpc), fun k b hop' _ => ⟨_, hget, ?_⟩⟩
      rw [hop] at hop'
      cases hop'
      rcases FjallIndex.ensureVerdict_write hv with ⟨-, rfl⟩ | ⟨old, k', -, -, hk, rfl⟩
      · rfl
      · exact hk.symm
    · cases h

theorem inv_put {c : Nat} {call : Call} (h : Inv s) (hc : Honoured s.index call) :
    Inv { s with calls := s.calls.put c call } := by
  intro c' call' hcall'
  dsimp only at hcall'
  rw [Table.get_put] at hcall'
  split_ifs at hcall' with heq
  · cases hcall'
    exact hc
  · exact h c' call' hcall'

theorem inv_step {a : Act} (h : Inv s) (hg : undisturbed s a) (hst : step s a = some t) :
    Inv t := by
  cases a with
  | invoke c ledger op =>
    simp only [step] at hst
    split at hst
    · cases hst
      exact inv_put h ⟨(fun hpc => by cases hpc), fun _ _ _ hpc => by cases hpc⟩
    · cases hst
  | read c =>
    simp only [step, Option.bind_eq_bind, Option.bind_eq_some_iff] at hst
    obtain ⟨call, hcall, hst⟩ := hst
    split at hst
    · cases hst
      exact inv_put h (afterRead_honoured s.index call)
    · cases hst
  | insert c =>
    simp only [step, Option.bind_eq_bind, Option.bind_eq_some_iff] at hst
    obtain ⟨call, hcall, hst⟩ := hst
    split at hst
    · rename_i seen hpc
      obtain ⟨w, hw, rfl⟩ := Option.map_eq_some_iff.mp hst
      -- the record is still the one the call has read, so the insert only adds to it
      have hseen : s.index.getLedgerState call.ledger = seen := by
        obtain ⟨ledger, op, pc⟩ := call
        dsimp only at hpc
        subst hpc
        simpa [undisturbed, hcall] using hg
      have hgrow : Grows (s.index.getLedgerState call.ledger) w.1 := by
        rw [hseen]
        exact insertion_grows hw
      have hothers : Inv ⟨{ s.index with ledgers := s.index.ledgers.put call.ledger w.1 },
          s.calls⟩ := fun c' call' hcall' => (h c' call' hcall').grow hgrow
      exact inv_put hothers (insertion_honoured s.index call hw)
    · cases hst
  | restart =>
    cases hst
    intro c call hcall
    dsimp only at hcall
    rw [Table.get_filter, Option.filter_eq_some_iff] at hcall
    exact h c call hcall.1

/-- If every insert finds the record its call has read, no fence and no registered key is
ever lost, and every fence is found at the next start. -/
theorem ledger_state_never_lost (h : Reach (guarded undisturbed step) NoCalls s) :
    ∀ c call, s.calls.get c = some call → Honoured s.index call ∧
      (call.pc = .returned .fenced → call.ledger ∈ s.index.loadFencedLedgers) := by
  have hinv : Inv s := by
    refine Reach.invariant (P := Inv) (fun s hs c call hc => ?_) (fun s a t hs hst => ?_) h
    · rw [hs] at hc
      cases hc
    · obtain ⟨hg, hst⟩ := (guarded_eq_some undisturbed).mp hst
      exact inv_step hs hg hst
  intro c call hcall
  refine ⟨hinv c call hcall, fun hpc => ?_⟩
  rw [FjallIndex.mem_loadFencedLedgers]
  exact (hinv c call hcall).1 hpc

def idle : State := ⟨.empty, .empty⟩

def someKey : Key32 := ⟨List.replicate 32 0xEE, rfl⟩

theorem idle_noCalls : NoCalls idle := rfl

theorem fence_then_register_kept :
    ∃ s, Reach (guarded undisturbed step) NoCalls s ∧
      s.calls.get 0 = some ⟨7, .fence, .returned .fenced⟩ ∧
      s.calls.get 1 = some ⟨7, .ensure (some someKey), .returned (.known true)⟩ ∧
      s.index.getLedgerState 7 = some ⟨true, some someKey⟩ ∧ 7 ∈ s.index.loadFencedLedgers := by
  obtain ⟨s, hreach, h0, h1, hst⟩ := reach_check (guarded undisturbed step) idle_noCalls
    (fun s => s.calls.get 0 = some ⟨7, .fence, .returned .fenced⟩ ∧
      s.calls.get 1 = some ⟨7, .ensure (some someKey), .returned (.known true)⟩ ∧
      s.index.getLedgerState 7 = some ⟨true, some someKey⟩)
    [.invoke 0 7 .fence, .read 0, .insert 0, .invoke 1 7 (.ensure (some someKey)), .read 1,
      .insert 1, .restart]
    (by decide)
  exact ⟨s, hreach, h0, h1, hst, (ledger_state_never_lost hreach 0 _ h0).2 rfl⟩

/- In the first run the insert of a first append lands on a finished fence, in the second
the insert of a fence lands on a registered key. -/
theorem interleaved_inserts_lose_state :
    (∃ s, Reach step NoCalls s ∧
      s.calls.get 1 = some ⟨7, .fence, .returned .fenced⟩ ∧
      s.index.getLedgerState 7 = some ⟨false, none⟩ ∧ 7 ∉ s.index.loadFencedLedgers) ∧
    ∃ s, Reach step NoCalls s ∧
      s.calls.get 1 = some ⟨7, .ensure (some someKey), .returned (.known true)⟩ ∧
      s.index.getLedgerState 7 = some ⟨true, none⟩ := by
  constructor
  · exact reach_check _ idle_noCalls _
      [.invoke 0 7 (.ensure none), .read 0, .invoke 1 7 .fence, .read 1, .insert 1, .insert 0]
      (by decide)
  · exact reach_check _ idle_noCalls _
      [.invoke 0 7 .fence, .read 0, .invoke 1 7 (.ensure (some someKey)), .read 1, .insert 1,
        .insert 0]
      (by decide)

end Runs
end Folio.LedgerCalls
