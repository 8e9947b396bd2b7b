import Folio.Fjall
import Folio.TransitionSystem

/-! Concurrent `cas_status` and `cas_to_s3` calls. Each reads a row and, where the status is
the expected one, writes the whole row later; nothing locks the row in between. -/
namespace Folio.RegistryCas
open KeyedTable Fjall Fjall.SegmentRegistry TransitionSystem

inductive Pc where
  | started
  | hasRead (seen : SegmentMeta)
  | returned (swapped : Bool)
  | failed
  deriving DecidableEq

structure Call where
  segment : SegmentId
  op : CasOp
  pc : Pc
  deriving DecidableEq

structure State where
  registry : SegmentRegistry
  calls : Table Nat Call

inductive Act where
  | invoke (c : Nat) (segment : SegmentId) (op : CasOp)
  | get (c : Nat)
  | upsert (c : Nat)
  | fail (c : Nat)

def afterGet (op : CasOp) : Option SegmentMeta → Pc
  | none => .returned false
  | some m => if m.status ≠ op.expected then .returned false else .hasRead m

def step (s : State) : Act → Option State
  | .invoke c segment op =>
    match s.calls.get c with
    | none => some { s with calls := s.calls.put c ⟨segment, op, .started⟩ }
    | some _ => none
  | .get c => do
    let call ← s.calls.get c
    match call.pc with
    | .started => some { s with calls := s.calls.put c { call with
        pc := afterGet call.op (s.registry.get call.segment) } }
    | _ => none
  | .upsert c => do
    let call ← s.calls.get c
    match call.pc with
    | .hasRead seen =>
      some ⟨s.registry.upsert (call.op.write seen),
        s.calls.put c { call with pc := .returned true }⟩
    | _ => none
  -- the `get` or the `insert` answers with an error, which the call hands on
  | .fail c => do
    let call ← s.calls.get c
    match call.pc with
    | .started | .hasRead _ => some { s with calls := s.calls.put c { call with pc := .failed } }
    | _ => none

theorem cas_alone (r : SegmentRegistry) (id : SegmentId) (op : CasOp) :
    ∃ acts calls, run step ⟨r, .empty⟩ acts = some ⟨(r.cas id op).1, calls⟩ ∧
      calls.get 0 = some ⟨id, op, .returned (r.cas id op).2⟩ := by
  let invoked : Table Nat Call := Table.put .empty 0 ⟨id, op, .started⟩
  cases hm : r.get id with
  | none =>
    refine ⟨[.invoke 0 id op, .get 0], invoked.put 0 ⟨id, op, .returned false⟩, ?_, ?_⟩
    · simp [run, step, afterGet, cas, hm, invoked]
    · simp [cas, hm]
  | some m =>
    by_cases hst : m.status = op.expected
    · refine ⟨[.invoke 0 id op, .get 0, .upsert 0],
        (invoked.put 0 ⟨id, op, .hasRead m⟩).put 0 ⟨id, op, .returned true⟩, ?_, ?_⟩
      · simp [run, step, afterGet, cas, hm, hst, invoked]
      · simp [cas, hm, hst]
    · refine ⟨[.invoke 0 id op, .get 0], invoked.put 0 ⟨id, op, .returned false⟩, ?_, ?_⟩
      · simp [run, step, afterGet, cas, hm, hst, invoked]
      · simp [cas, hm, hst]

/-- No other call has written the row between a call's `get` and its `upsert`. -/
def undisturbed (s : State) (a : Act) : Prop :=
  match a with
  | .upsert c =>
    match s.calls.get c with
    | some ⟨segment, _, .hasRead seen⟩ => s.registry.get segment = some seen
    | _ => True
  | _ => True

instance (s : State) (a : Act) : Decidable (undisturbed s a) := by
  unfold undisturbed
  split
  · split <;> infer_instance
  · infer_instance

section Order
variable {m m' : SegmentMeta}

inductive Serial : SegmentMeta → List CasOp → SegmentMeta → Prop
  | nil (m : SegmentMeta) : Serial m [] m
  | cons {m m' : SegmentMeta} (op : CasOp) {ops : List CasOp} : m.status = op.expected →
      Serial (op.write m) ops m' → Serial m (op :: ops) m'

theorem Serial.snoc {ops : List CasOp} {op : CasOp} (h : Serial m ops m')
    (hst : m'.status = op.expected) : Serial m (ops ++ [op]) (op.write m') := by
  induction h with
  | nil m => exact .cons op hst (.nil _)
  | cons op' hop _ ih => exact .cons op' hop (ih hst)

theorem Serial.of_append {ops ops' : List CasOp}
    (h : Serial m (ops ++ ops') m') : ∃ mid, Serial mid ops' m' := by
  induction ops generalizing m with
  | nil => exact ⟨m, h⟩
  | cons op ops ih =>
    cases h with
    | cons _ _ hrest => exact ih hrest

theorem Serial.status_left {mid post : List CasOp} {op : CasOp}
    (h : Serial m (mid ++ op :: post) m') (hne : m.status ≠ op.expected) :
    ∃ op' ∈ mid, op'.next = op.expected := by
  induction mid generalizing m with
  | nil =>
    cases h with
    | cons _ hst _ => exact absurd hst hne
  | cons op' mid ih =>
    cases h with
    | cons _ _ hrest =>
      by_cases heq : op'.next = op.expected
      · exact ⟨op', List.mem_cons_self, heq⟩
      · obtain ⟨op'', hmem, hnext⟩ := ih hrest (by rwa [CasOp.write_status])
        exact ⟨op'', List.mem_cons_of_mem _ hmem, hnext⟩

theorem Serial.restored {pre mid post : List CasOp} {op op' : CasOp}
    (h : Serial m (pre ++ op :: (mid ++ op' :: post)) m') (hne : op.next ≠ op.expected)
    (hsame : op'.expected = op.expected) : ∃ op'' ∈ mid, op''.next = op.expected := by
  obtain ⟨_, hafter⟩ := h.of_append
  cases hafter with
  | cons _ _ hrest =>
    obtain ⟨op'', hmem, hnext⟩ := hrest.status_left (by rw [CasOp.write_status, hsame]; exact hne)
    exact ⟨op'', hmem, hnext.trans hsame⟩

end Order

/-- The calls on a segment that have returned `true`, in an order in which they could have
run as wholes from the row `start` to the row `now`. -/
structure Ordered (start now : Option SegmentMeta) (s : State) (id : SegmentId)
    (order : List (Nat × CasOp)) : Prop where
  nodup : (order.map Prod.fst).Nodup
  won : ∀ c op, (c, op) ∈ order ↔ s.calls.get c = some ⟨id, op, .returned true⟩
  serial : (∃ m m', start = some m ∧ now = some m' ∧ Serial m (order.map Prod.snd) m') ∨
    start = none ∧ now = none ∧ order = []

/-- Of two such calls with one expected status, the second comes after the status has been
restored. -/
def OneWinner (order : List (Nat × CasOp)) : Prop :=
  ∀ pre mid post : List (Nat × CasOp), ∀ w w' : Nat × CasOp,
    order = pre ++ w :: (mid ++ w' :: post) → w.2.next ≠ w.2.expected →
    w'.2.expected = w.2.expected → ∃ w'' ∈ mid, w''.2.next = w.2.expected

theorem Ordered.oneWinner {start now : Option SegmentMeta} {s : State} {id : SegmentId}
    {order : List (Nat × CasOp)} (h : Ordered start now s id order) : OneWinner order := by
  rintro pre mid post w w' rfl hne hsame
  rcases h.serial with ⟨m, m', -, -, hserial⟩ | ⟨-, -, hnil⟩
  · simp only [List.map_append, List.map_cons] at hserial
    obtain ⟨op, hmem, hnext⟩ := hserial.restored hne hsame
    obtain ⟨w'', hw'', rfl⟩ := List.mem_map.mp hmem
    exact ⟨w'', hw'', hnext⟩
  · simp at hnil

/-- Calls that all take one status to another cannot both have returned `true`. -/
theorem Ordered.one_of_same {start now : Option SegmentMeta} {s : State} {id : SegmentId}
    {order : List (Nat × CasOp)} {op : CasOp} {w w' : Nat × CasOp}
    (h : Ordered start now s id order) (hall : ∀ w ∈ order, w.2 = op)
    (hne : op.next ≠ op.expected) (hw : w ∈ order) (hw' : w' ∈ order) : w = w' := by
  cases order with
  | nil => cases hw
  | cons v rest =>
    cases rest with
    | nil => exact (List.mem_singleton.mp hw).trans (List.mem_singleton.mp hw').symm
    | cons v' rest =>
      have hv : v.2 = op := hall v (by simp)
      have hv' : v'.2 = op := hall v' (by simp)
      obtain ⟨_, hnone, _⟩ := h.oneWinner [] [] rest v v' rfl (by rw [hv]; exact hne)
        (by rw [hv, hv'])
      cases hnone

section Runs
variable {r : SegmentRegistry} {s t : State} {c : Nat} {order : List (Nat × CasOp)} {id : SegmentId}
  {m : SegmentMeta} {op : CasOp} {start now : Option SegmentMeta}

structure Inv (r : SegmentRegistry) (s : State) : Prop where
  keyed : s.registry.WellKeyed
  seen : ∀ c id op m, s.calls.get c = some ⟨id, op, .hasRead m⟩ →
    m.id = id ∧ m.status = op.expected
  order : ∀ id, ∃ order, Ordered (r.get id) (s.registry.get id) s id order

theorem Ordered.put {call : Call} (h : Ordered start now s id order)
    (hold : ∀ old, s.calls.get c = some old → old.pc ≠ .returned true)
    (hnew : call.pc ≠ .returned true) :
    Ordered start now { s with calls := s.calls.put c call } id order where
  nodup := h.nodup
  serial := h.serial
  won := by
    intro c' op
    rw [h.won]
    dsimp only
    rw [Table.get_put]
    split_ifs with heq
    · subst heq
      constructor
      · intro hc
        exact absurd rfl (hold _ hc)
      · intro hc
        cases hc
        exact absurd rfl hnew
    · rfl

theorem Inv.put {call : Call} (h : Inv r s)
    (hold : ∀ old, s.calls.get c = some old → old.pc ≠ .returned true)
    (hnew : call.pc ≠ .returned true)
    (hseen : ∀ m, call.pc = .hasRead m → m.id = call.segment ∧ m.status = call.op.expected) :
    Inv r { s with calls := s.calls.put c call } where
  keyed := h.keyed
  seen := by
    intro c' id op m hc
    dsimp only at hc
    rw [Table.get_put] at hc
    split_ifs at hc with heq
    · cases hc
      exact hseen m rfl
    · exact h.seen c' id op m hc
  order := by
    intro id
    obtain ⟨order, ho⟩ := h.order id
    exact ⟨order, ho.put hold hnew⟩

theorem Ordered.win {start : Option SegmentMeta} (h : Ordered start (some m) s id order)
    (hc : s.calls.get c = some ⟨id, op, .hasRead m⟩) (hst : m.status = op.expected)
    (registry : SegmentRegistry) :
    Ordered start (some (op.write m))
      ⟨registry, s.calls.put c ⟨id, op, .returned true⟩⟩ id (order ++ [(c, op)]) where
  nodup := by
    rw [List.map_append, List.nodup_append']
    refine ⟨h.nodup, List.nodup_singleton _, ?_⟩
    intro c' hold hnew
    obtain ⟨⟨c'', op'⟩, hmem, rfl⟩ := List.mem_map.mp hold
    obtain rfl : c'' = c := by simpa using hnew
    rw [h.won, hc] at hmem
    cases hmem
  won := by
    intro c' op'
    rw [List.mem_append, h.won, Table.get_put]
    split_ifs with heq
    · subst heq
      simp [hc, eq_comm]
    · simp [heq]
  serial := by
    rcases h.serial with ⟨m₀, m', hstart, hnow, hserial⟩ | ⟨-, hnow, -⟩
    · cases hnow
      refine .inl ⟨m₀, _, hstart, rfl, ?_⟩
      rw [List.map_append]
      exact hserial.snoc hst
    · cases hnow

theorem Ordered.other {id id' : SegmentId} (h : Ordered start now s id order)
    (hc : s.calls.get c = some ⟨id', op, .hasRead m⟩) (hne : id ≠ id')
    (registry : SegmentRegistry) :
    Ordered start now ⟨registry, s.calls.put c ⟨id', op, .returned true⟩⟩ id order where
  nodup := h.nodup
  serial := h.serial
  won := by
    intro c' op'
    rw [h.won, Table.get_put]
    split_ifs with heq
    · subst heq
      simp [hc, Ne.symm hne]
    · rfl

theorem Inv.upsert (h : Inv r s)
    (hc : s.calls.get c = some ⟨id, op, .hasRead m⟩) (hrow : s.registry.get id = some m) :
    Inv r ⟨s.registry.upsert (op.write m), s.calls.put c ⟨id, op, .returned true⟩⟩ where
  keyed := h.keyed.upsert _
  seen := by
    intro c' id' op' m' hc'
    dsimp only at hc'
    rw [Table.get_put] at hc'
    split_ifs at hc' with heq
    · cases hc'
    · exact h.seen c' id' op' m' hc'
  order := by
    intro id'
    obtain ⟨hid, hst⟩ := h.seen c id op m hc
    obtain ⟨order, ho⟩ := h.order id'
    dsimp only
    rw [SegmentRegistry.upsert, CasOp.write_id, hid, Table.get_put]
    split_ifs with heq
    · subst heq
      rw [hrow] at ho
      exact ⟨_, ho.win hc hst _⟩
    · exact ⟨order, ho.other hc heq _⟩

theorem inv_step {a : Act} (h : Inv r s) (hg : undisturbed s a) (hst : step s a = some t) :
    Inv r t := by
  cases a with
  | invoke c segment op =>
    simp only [step] at hst
    split at hst
    · rename_i hnone
      cases hst
      refine h.put (fun old hold => ?_) (by simp) (by simp)
      rw [hnone] at hold
      cases hold
    · cases hst
  | get c =>
    simp only [step, Option.bind_eq_bind, Option.bind_eq_some_iff] at hst
    obtain ⟨⟨id, op, pc⟩, hcall, hst⟩ := hst
    dsimp only at hst
    split at hst
    · cases hst
      refine h.put (fun old hold => ?_) ?_ ?_
      · rw [hcall] at hold
        cases hold
        simp
      · unfold afterGet
        split
        · simp
        · split <;> simp
      · intro m hm
        dsimp only [afterGet] at hm
        split at hm
        · cases hm
        · rename_i row hrow
          split_ifs at hm with hne
          cases hm
          exact ⟨h.keyed _ _ hrow, not_not.mp hne⟩
    · cases hst
  | upsert c =>
    simp only [step, Option.bind_eq_bind, Option.bind_eq_some_iff] at hst
    obtain ⟨⟨id, op, pc⟩, hcall, hst⟩ := hst
    dsimp only at hst
    split at hst
    · rename_i m
      cases hst
      have hrow : s.registry.get id = some m := by simpa [undisturbed, hcall] using hg
      exact h.upsert hcall hrow
    · cases hst
  | fail c =>
    simp only [step, Option.bind_eq_bind, Option.bind_eq_some_iff] at hst
    obtain ⟨⟨id, op, pc⟩, hcall, hst⟩ := hst
    have hput : pc ≠ .returned true →
        Inv r { s with calls := s.calls.put c ⟨id, op, .failed⟩ } := fun hpc =>
      h.put (fun old hold => by rw [hcall] at hold; cases hold; exact hpc) (by simp) (by simp)
    dsimp only at hst
    split at hst
    · cases hst
      exact hput (by simp)
    · cases hst
      exact hput (by simp)
    · cases hst

theorem inv_start (hr : r.WellKeyed) : Inv r ⟨r, .empty⟩ where
  keyed := hr
  seen := fun c id op m hc => by cases hc
  order := by
    intro id
    refine ⟨[], List.nodup_nil, fun c op => by simp, ?_⟩
    cases hrow : r.get id with
    | none => exact .inr ⟨rfl, rfl, rfl⟩
    | some m => exact .inl ⟨m, m, rfl, rfl, .nil m⟩

/-- If every write finds the row its call has read, the calls that return `true` are
ordered, each finds the status the one before has left, and the last one's row is stored. -/
theorem cas_calls_atomic (hr : r.WellKeyed) (acts : List Act)
    (h : run (guarded undisturbed step) ⟨r, .empty⟩ acts = some t) (id : SegmentId) :
    ∃ order, Ordered (r.get id) (t.registry.get id) t id order ∧ OneWinner order := by
  have hinv : Inv r t := by
    refine run_invariant (P := Inv r) (fun s a u hs hst => ?_) acts (inv_start hr) h
    obtain ⟨hg, hst⟩ := (guarded_eq_some undisturbed).mp hst
    exact inv_step hs hg hst
  obtain ⟨order, ho⟩ := hinv.order id
  exact ⟨order, ho, ho.oneWinner⟩

def localRow : SegmentMeta := ⟨1, .Entry, .Local, some (.entrySeg 1), none, 64⟩

def oneLocal : SegmentRegistry := SegmentRegistry.upsert .empty localRow

theorem oneLocal_wellKeyed : oneLocal.WellKeyed :=
  WellKeyed.upsert (fun id m hm => by cases hm) localRow

def toOffloading : CasOp := .status .Local .Offloading

/-- Of two callers one gets the segment; after its upload the row is handed back and taken
again. -/
theorem offload_twice_in_turn :
    ∃ t order, run (guarded undisturbed step) ⟨oneLocal, .empty⟩
        [.invoke 0 1 toOffloading, .invoke 1 1 toOffloading, .get 0, .upsert 0, .get 1,
          .invoke 2 1 (.status .Offloading .Local), .get 2, .upsert 2,
          .invoke 3 1 toOffloading, .get 3, .upsert 3] = some t ∧
      t.calls.get 1 = some ⟨1, toOffloading, .returned false⟩ ∧
      t.calls.get 3 = some ⟨1, toOffloading, .returned true⟩ ∧
      Ordered (oneLocal.get 1) (t.registry.get 1) t 1 order ∧ OneWinner order := by
  obtain ⟨t, ht, hcheck⟩ := run_check (guarded undisturbed step) ⟨oneLocal, .empty⟩
    (fun t => decide (t.calls.get 1 = some ⟨1, toOffloading, .returned false⟩ ∧
      t.calls.get 3 = some ⟨1, toOffloading, .returned true⟩))
    [.invoke 0 1 toOffloading, .invoke 1 1 toOffloading, .get 0, .upsert 0, .get 1,
      .invoke 2 1 (.status .Offloading .Local), .get 2, .upsert 2,
      .invoke 3 1 toOffloading, .get 3, .upsert 3]
    (by decide)
  obtain ⟨h1, h3⟩ := of_decide_eq_true hcheck
  obtain ⟨order, ho, hone⟩ := cas_calls_atomic oneLocal_wellKeyed _ ht 1
  exact ⟨t, order, ht, h1, h3, ho, hone⟩

/- Both calls read the row before either writes it, and no call ever sets the status back. -/
theorem overlapping_calls_both_win :
    ∃ t, run step ⟨oneLocal, .empty⟩
        [.invoke 0 1 toOffloading, .invoke 1 1 toOffloading, .get 0, .get 1, .upsert 0,
          .upsert 1] = some t ∧
      t.calls.get 0 = some ⟨1, toOffloading, .returned true⟩ ∧
      t.calls.get 1 = some ⟨1, toOffloading, .returned true⟩ ∧
      ¬ ∃ order, Ordered (oneLocal.get 1) (t.registry.get 1) t 1 order := by
  obtain ⟨t, ht, hcheck⟩ := run_check step ⟨oneLocal, .empty⟩
    (fun t => decide (t.calls.get 0 = some ⟨1, toOffloading, .returned true⟩ ∧
      t.calls.get 1 = some ⟨1, toOffloading, .returned true⟩ ∧
      ∀ e ∈ t.calls.entries, e.2.op = toOffloading))
    [.invoke 0 1 toOffloading, .invoke 1 1 toOffloading, .get 0, .get 1, .upsert 0, .upsert 1]
    (by decide)
  obtain ⟨h0, h1, hops⟩ := of_decide_eq_true hcheck
  refine ⟨t, ht, h0, h1, ?_⟩
  rintro ⟨order, ho⟩
  have hall : ∀ w ∈ order, w.2 = toOffloading := by
    intro w hw
    have hget := (ho.won w.1 w.2).mp hw
    exact hops _ ((t.calls.mem_entries_iff _ _).mpr hget)
  exact absurd (ho.one_of_same hall (by decide) ((ho.won 0 _).mpr h0) ((ho.won 1 _).mpr h1))
    (by decide)

end Runs
end Folio.RegistryCas
