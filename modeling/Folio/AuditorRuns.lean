import Folio.NodeRegistry

/-! The auditors of several processes, with the task that keeps the lease of one alive. etcd may
answer whatever it likes; what a watch sends is all that is assumed of it. -/
namespace Folio.AuditorRuns
open KeyedTable Protocol LeaseStore TransitionSystem
open NodeRegistry (watchNodeEvents)

section Model

def keepaliveInterval : Nat := 10

abbrev NodeEvent := Event NodeId NodeInfo

structure Response where
  events : List NodeEvent
  canceled : Bool
  deriving DecidableEq, Repr

def told (rs : List Response) : List NodeEvent := rs.flatMap Response.events

/-- Whether a watch that began after `start` events and has sent `rs` may send `r` when `history`
is what has happened below `/folio/nodes/`. It tells the events in their order, leaves none out
unless it is cancelled, and sends nothing after that. -/
structure Watch where
  sends (history : List NodeEvent) (start : Nat) (rs : List Response) (r : Response) : Bool
  ordered : ∀ {history start rs r}, told rs <+: history.drop start →
    sends history start rs r = true → told (rs ++ [r]) <+: history.drop start
  final : ∀ {history start rs r}, sends history start rs r = true → ∀ q ∈ rs, q.canceled = false
  complete : ∀ {history start rs}, told rs <+: history.drop start →
    (∀ q ∈ rs, q.canceled = false) → told rs ≠ history.drop start →
    ∃ r, sends history start rs r = true ∧ r.events ≠ [] ∧ r.canceled = false

inductive Phase where
  | leased
  | kept
  | elected
  | watching
  | ended
  deriving DecidableEq, Repr

/-- The task that `start_keepalive` spawns. -/
inductive Keeper where
  | off
  | sleeping (left : Nat)
  | draining
  deriving DecidableEq, Repr

/-- `sent` are the times of the keep-alive requests, the last one first; `ends` counts how often
the stream of the answers was found at its end or broken. `calls` are the nodes that
`enqueue_for_node` has been called with. -/
structure Auditor where
  lease : Nat
  phase : Phase
  keeper : Keeper
  sent : List Nat
  ends : Nat
  watch : Option Nat
  received : List Response
  calls : List NodeId
  deriving DecidableEq, Repr

def Auditor.new (lease : Nat) : Auditor := ⟨lease, .leased, .off, [], 0, none, [], []⟩

structure State where
  history : List NodeEvent
  clock : Nat
  auditors : Table Nat Auditor

/-- Each request comes with the answer that etcd gives to it. -/
inductive Act where
  | acquireLease (pid : Nat) (r : Except String Nat)
  | startKeepalive (pid : Nat) (r : Except String Unit)
  | campaign (pid : Nat) (r : Except String Unit)
  | watch (pid : Nat) (r : Except String Unit)
  | message (pid : Nat) (m : Except String (Option Response))
  | wake (pid : Nat) (r : Except String Unit)
  | answer (pid : Nat) (m : Except String (Option Unit))
  | crash (pid : Nat)
  | second
  | nodeEvent (ev : NodeEvent)

variable (w : Watch)

/-- The loop of the task: a request after each sleep, and then the answers until there are no
more. -/
def stepKeeper (now : Nat) (a : Auditor) : Act → Option Auditor
  | .wake _ r =>
    if a.keeper ≠ .sleeping 0 then none
    else match r with
      | .ok () => some { a with keeper := .draining, sent := now :: a.sent }
      | .error _ => some { a with keeper := .off }
  | .answer _ m =>
    if a.keeper ≠ .draining then none
    else match m with
      | .ok (some ()) => some a
      | .ok none | .error _ =>
        some { a with keeper := .sleeping keepaliveInterval, ends := a.ends + 1 }
  | _ => none

/-- `run`. A response that says that the watch is cancelled is one without events to it. -/
def stepRun (history : List NodeEvent) (now : Nat) (a : Auditor) : Act → Option Auditor
  | .startKeepalive _ r =>
    if a.phase ≠ .leased then none
    else match r with
      | .ok () => some { a with
          phase := .kept, keeper := .sleeping keepaliveInterval, sent := now :: a.sent }
      | .error _ => some { a with phase := .ended, sent := now :: a.sent }
  | .campaign _ r =>
    if a.phase ≠ .kept then none
    else match r with
      | .ok () => some { a with phase := .elected }
      | .error _ => some { a with phase := .ended }
  | .watch _ r =>
    if a.phase ≠ .elected then none
    else match r with
      | .ok () => some { a with phase := .watching, watch := some history.length }
      | .error _ => some { a with phase := .ended }
  | .message _ m =>
    if a.phase ≠ .watching then none
    else match m with
      | .ok (some r) =>
        a.watch.bind fun start =>
          if w.sends history start a.received r then some { a with
            received := a.received ++ [r], calls := a.calls ++ watchNodeEvents r.events }
          else none
      | .ok none | .error _ => some { a with phase := .ended }
  | .crash _ => some { a with phase := .ended, keeper := .off }
  | _ => none

def Keeper.tick : Keeper → Keeper
  | .sleeping left => .sleeping (left - 1)
  | k => k

def Auditor.tick (a : Auditor) : Auditor := { a with keeper := a.keeper.tick }

def onAuditor (s : State) (pid : Nat) (f : Auditor → Option Auditor) : Option State :=
  (s.auditors.get pid).bind fun a =>
    (f a).map fun b => { s with auditors := s.auditors.put pid b }

def step (s : State) (act : Act) : Option State :=
  match act with
  | .acquireLease pid r =>
    match s.auditors.get pid, r with
    | none, .ok lease => some { s with auditors := s.auditors.put pid (.new lease) }
    | none, .error _ => some s
    | some _, _ => none
  | .startKeepalive pid _ | .campaign pid _ | .watch pid _ | .message pid _ | .crash pid =>
    onAuditor s pid fun a => stepRun w s.history s.clock a act
  | .wake pid _ | .answer pid _ => onAuditor s pid fun a => stepKeeper s.clock a act
  | .second => some { s with clock := s.clock + 1, auditors := s.auditors.map Auditor.tick }
  | .nodeEvent ev => some { s with history := s.history ++ [ev] }

def Init (s : State) : Prop := s = ⟨[], 0, .empty⟩

end Model

section Steps
variable {w : Watch} {s t : State} {history : List NodeEvent} {now n₀ : Nat} {a b : Auditor}
  {act : Act}

inductive Moved (w : Watch) (history : List NodeEvent) (now : Nat) (a : Auditor) : Auditor → Prop
  | same : Moved w history now a a
  | kept : a.phase = .leased → Moved w history now a
      { a with phase := .kept, keeper := .sleeping keepaliveInterval, sent := now :: a.sent }
  | unkept : a.phase = .leased →
      Moved w history now a { a with phase := .ended, sent := now :: a.sent }
  | elected : a.phase = .kept → Moved w history now a { a with phase := .elected }
  | watched : a.phase = .elected →
      Moved w history now a { a with phase := .watching, watch := some history.length }
  | received (start : Nat) (r : Response) : a.phase = .watching → a.watch = some start →
      w.sends history start a.received r = true → Moved w history now a
        { a with received := a.received ++ [r], calls := a.calls ++ watchNodeEvents r.events }
  | ended : a.phase ≠ .leased → Moved w history now a { a with phase := .ended }
  | sent : a.keeper = .sleeping 0 →
      Moved w history now a { a with keeper := .draining, sent := now :: a.sent }
  | gaveUp : Moved w history now a { a with keeper := .off }
  | streamEnded : a.keeper = .draining → Moved w history now a
      { a with keeper := .sleeping keepaliveInterval, ends := a.ends + 1 }
  | crashed : Moved w history now a { a with phase := .ended, keeper := .off }

theorem keeper_moved (h : stepKeeper now a act = some b) : Moved w history now a b := by
  cases act with
  | wake pid r =>
    simp only [stepKeeper] at h
    split_ifs at h with hsleep
    cases r with
    | ok u =>
      cases h
      exact .sent (not_not.mp hsleep)
    | error e =>
      cases h
      exact .gaveUp
  | answer pid m =>
    simp only [stepKeeper] at h
    split_ifs at h with hdrain
    split at h <;> cases h
    · exact .same
    · exact .streamEnded (not_not.mp hdrain)
    · exact .streamEnded (not_not.mp hdrain)
  | _ => cases h

theorem run_moved (h : stepRun w history now a act = some b) : Moved w history now a b := by
  cases act with
  | startKeepalive pid r =>
    simp only [stepRun] at h
    split_ifs at h with hphase
    have hleased := not_not.mp hphase
    cases r <;> cases h
    · exact .unkept hleased
    · exact .kept hleased
  | campaign pid r =>
    simp only [stepRun] at h
    split_ifs at h with hphase
    have hkept := not_not.mp hphase
    cases r <;> cases h
    · exact .ended (by rw [hkept]; exact nofun)
    · exact .elected hkept
  | watch pid r =>
    simp only [stepRun] at h
    split_ifs at h with hphase
    have helected := not_not.mp hphase
    cases r <;> cases h
    · exact .ended (by rw [helected]; exact nofun)
    · exact .watched helected
  | message pid m =>
    simp only [stepRun] at h
    split_ifs at h with hphase
    have hwatching := not_not.mp hphase
    split at h
    · rename_i r
      obtain ⟨start, hstart, hsends⟩ := Option.bind_eq_some_iff.mp h
      split_ifs at hsends with hr
      cases hsends
      exact .received start r hwatching hstart hr
    · cases h
      exact .ended (by rw [hwatching]; exact nofun)
    · cases h
      exact .ended (by rw [hwatching]; exact nofun)
  | crash pid =>
    cases h
    exact .crashed
  | _ => cases h

inductive Trans (w : Watch) (s : State) : State → Prop
  | still : Trans w s s
  | started (pid lease : Nat) : s.auditors.get pid = none →
      Trans w s { s with auditors := s.auditors.put pid (.new lease) }
  | moved (pid : Nat) (a b : Auditor) : s.auditors.get pid = some a →
      Moved w s.history s.clock a b → Trans w s { s with auditors := s.auditors.put pid b }
  | second : Trans w s { s with clock := s.clock + 1, auditors := s.auditors.map Auditor.tick }
  | told (ev : NodeEvent) : Trans w s { s with history := s.history ++ [ev] }

theorem step_trans (h : step w s act = some t) : Trans w s t := by
  have hon {pid : Nat} {f : Auditor → Option Auditor}
      (hf : ∀ a b, f a = some b → Moved w s.history s.clock a b)
      (h : onAuditor s pid f = some t) : Trans w s t := by
    obtain ⟨a, hget, h⟩ := Option.bind_eq_some_iff.mp h
    obtain ⟨b, hb, rfl⟩ := Option.map_eq_some_iff.mp h
    exact .moved pid a b hget (hf a b hb)
  cases act with
  | acquireLease pid r =>
    simp only [step] at h
    split at h <;> cases h
    · exact .started pid _ ‹_›
    · exact .still
  | startKeepalive pid r => exact hon (fun _ _ => run_moved) h
  | campaign pid r => exact hon (fun _ _ => run_moved) h
  | watch pid r => exact hon (fun _ _ => run_moved) h
  | message pid m => exact hon (fun _ _ => run_moved) h
  | crash pid => exact hon (fun _ _ => run_moved) h
  | wake pid r => exact hon (fun _ _ => keeper_moved) h
  | answer pid m => exact hon (fun _ _ => keeper_moved) h
  | second =>
    cases h
    exact .second
  | nodeEvent ev =>
    cases h
    exact .told ev

/-- What every step keeps of one auditor, once `n₀` events have happened. -/
structure Steady (w : Watch) (n₀ : Nat) (P : List NodeEvent → Nat → Auditor → Prop) : Prop where
  moved : ∀ {history now a b}, n₀ ≤ history.length → Moved w history now a b →
    P history now a → P history now b
  second : ∀ {history now a}, P history now a → P history (now + 1) a.tick
  told : ∀ {history now a} ev, P history now a → P (history ++ [ev]) now a

theorem Steady.reach {init : State → Prop} {P : Nat → List NodeEvent → Nat → Auditor → Prop}
    (hP : ∀ p, Steady w n₀ (P p)) (hnew : ∀ p history now lease, P p history now (.new lease))
    (hinit : ∀ s, init s → n₀ ≤ s.history.length ∧
      ∀ p a, s.auditors.get p = some a → P p s.history s.clock a)
    (h : Reach (step w) init s) :
    ∀ p a, s.auditors.get p = some a → P p s.history s.clock a := by
  refine (h.invariant (P := fun s => n₀ ≤ s.history.length ∧
    ∀ p a, s.auditors.get p = some a → P p s.history s.clock a) hinit ?_).2
  rintro s act t ⟨hlen, hs⟩ hst
  cases step_trans hst with
  | still => exact ⟨hlen, hs⟩
  | started pid lease hnone =>
    refine ⟨hlen, fun p b hb => ?_⟩
    dsimp only at hb
    rw [Table.get_put] at hb
    split_ifs at hb
    · cases hb
      exact hnew p _ _ lease
    · exact hs p b hb
  | moved pid a a' hget hmoved =>
    refine ⟨hlen, fun p b hb => ?_⟩
    dsimp only at hb
    rw [Table.get_put] at hb
    split_ifs at hb with hp
    · cases hb
      subst hp
      exact (hP p).moved hlen hmoved (hs p a hget)
    · exact hs p b hb
  | second =>
    refine ⟨hlen, fun p b hb => ?_⟩
    dsimp only at hb
    rw [Table.get_map] at hb
    obtain ⟨a, ha, rfl⟩ := Option.map_eq_some_iff.mp hb
    exact (hP p).second (hs p a ha)
  | told ev =>
    refine ⟨hlen.trans (by simp), fun p b hb => ?_⟩
    exact (hP p).told ev (hs p b hb)

theorem Steady.later {P : List NodeEvent → Nat → Auditor → Prop} {p : Nat} (hP : Steady w 0 P)
    (hget : s.auditors.get p = some a) (ha : P s.history s.clock a)
    (h : Reach (step w) (· = s) t) :
    ∃ b, t.auditors.get p = some b ∧ P t.history t.clock b := by
  refine h.invariant (P := fun t => ∃ b, t.auditors.get p = some b ∧ P t.history t.clock b) ?_ ?_
  · rintro s rfl
    exact ⟨a, hget, ha⟩
  · rintro s act t ⟨b, hb, hs⟩ hst
    cases step_trans hst with
    | still => exact ⟨b, hb, hs⟩
    | started pid lease hnone =>
      refine ⟨b, ?_, hs⟩
      rw [Table.get_put_ne _ _ fun heq => ?_]
      · exact hb
      · rw [← heq, hb] at hnone
        cases hnone
    | moved pid a a' hget' hmoved =>
      dsimp only
      rw [Table.get_put]
      split_ifs with hp
      · subst hp
        cases hb.symm.trans hget'
        exact ⟨a', rfl, hP.moved (Nat.zero_le _) hmoved hs⟩
      · exact ⟨b, hb, hs⟩
    | second =>
      refine ⟨b.tick, ?_, hP.second hs⟩
      dsimp only
      rw [Table.get_map, hb]
      rfl
    | told ev => exact ⟨b, hb, hP.told ev hs⟩

end Steps

section Keepalives
variable {w : Watch} {s t : State} {a b : Auditor}

structure Paced (now : Nat) (a : Auditor) : Prop where
  spaced : a.sent.Pairwise fun t' t => t + keepaliveInterval ≤ t'
  past : ∀ t ∈ a.sent, t ≤ now
  fresh : a.phase = .leased → a.keeper = .off ∧ a.sent = []
  count : a.sent.length ≤ 2 + a.ends
  asleep : ∀ left, a.keeper = .sleeping left → a.sent.length ≤ 1 + a.ends ∧
    ∀ t ∈ a.sent, t + keepaliveInterval ≤ now + left

theorem paced_new (now lease : Nat) : Paced now (.new lease) where
  spaced := .nil
  past := nofun
  fresh _ := ⟨rfl, rfl⟩
  count := Nat.zero_le _
  asleep := nofun

theorem paced_steady (w : Watch) : Steady w 0 fun _ => Paced where
  moved {history now a b} _ hmoved h := by
    cases hmoved with
    | same => exact h
    | kept hphase =>
      obtain ⟨-, hnil⟩ := h.fresh hphase
      refine ⟨?_, ?_, nofun, ?_, ?_⟩
      · rw [hnil]
        exact List.pairwise_singleton _ _
      · simp [hnil]
      · simp only [hnil, List.length_singleton]
        omega
      · rintro left hleft
        cases hleft
        simp [hnil]
    | unkept hphase =>
      obtain ⟨hoff, hnil⟩ := h.fresh hphase
      refine ⟨?_, ?_, nofun, ?_, fun left hleft => ?_⟩
      · rw [hnil]
        exact List.pairwise_singleton _ _
      · simp [hnil]
      · simp only [hnil, List.length_singleton]
        omega
      · cases hoff.symm.trans hleft
    | elected hphase => exact ⟨h.spaced, h.past, nofun, h.count, h.asleep⟩
    | watched hphase => exact ⟨h.spaced, h.past, nofun, h.count, h.asleep⟩
    | received start r hphase hstart hsends =>
      exact ⟨h.spaced, h.past, h.fresh, h.count, h.asleep⟩
    | ended hphase => exact ⟨h.spaced, h.past, nofun, h.count, h.asleep⟩
    | sent hsleep =>
      obtain ⟨hcount, hdue⟩ := h.asleep 0 hsleep
      refine ⟨List.pairwise_cons.mpr ⟨hdue, h.spaced⟩, ?_, fun hphase => ?_, ?_, nofun⟩
      · exact List.forall_mem_cons.mpr ⟨Nat.le_refl _, h.past⟩
      · cases hsleep.symm.trans (h.fresh hphase).1
      · simp only [List.length_cons]
        omega
    | gaveUp =>
      exact ⟨h.spaced, h.past, fun hphase => ⟨rfl, (h.fresh hphase).2⟩, h.count, nofun⟩
    | streamEnded hdrain =>
      refine ⟨h.spaced, h.past, fun hphase => ?_, h.count.trans (Nat.le_succ _), ?_⟩
      · cases hdrain.symm.trans (h.fresh hphase).1
      · rintro left hleft
        cases hleft
        refine ⟨h.count.trans (le_of_eq ?_), fun t ht => Nat.add_le_add_right (h.past t ht) _⟩
        dsimp only
        omega
    | crashed => exact ⟨h.spaced, h.past, nofun, h.count, nofun⟩
  second {history now a} h := by
    refine ⟨h.spaced, fun t ht => (h.past t ht).trans (Nat.le_succ _), fun hphase => ?_, h.count,
      fun left hleft => ?_⟩
    · obtain ⟨hoff, hnil⟩ := h.fresh hphase
      exact ⟨by simp [Auditor.tick, hoff, Keeper.tick], hnil⟩
    · change a.keeper.tick = .sleeping left at hleft
      cases hk : a.keeper with
      | sleeping left' =>
        rw [hk] at hleft
        cases hleft
        obtain ⟨hcount, hdue⟩ := h.asleep left' hk
        refine ⟨hcount, fun t ht => (hdue t ht).trans ?_⟩
        omega
      | off =>
        rw [hk] at hleft
        cases hleft
      | draining =>
        rw [hk] at hleft
        cases hleft
  told _ h := h

def Waiting (sent : List Nat) (ends : Nat) (a : Auditor) : Prop :=
  a.phase ≠ .leased ∧ ends ≤ a.ends ∧
    (a.ends = ends → a.sent = sent ∧ ∀ left, a.keeper ≠ .sleeping left)

theorem waiting_steady (w : Watch) (sent : List Nat) (ends : Nat) :
    Steady w 0 fun _ _ => Waiting sent ends where
  moved {history now a b} _ hmoved h := by
    obtain ⟨hphase, hle, hsame⟩ := h
    cases hmoved with
    | same => exact ⟨hphase, hle, hsame⟩
    | kept hleased => exact absurd hleased hphase
    | unkept hleased => exact absurd hleased hphase
    | elected _ => exact ⟨nofun, hle, hsame⟩
    | watched _ => exact ⟨nofun, hle, hsame⟩
    | received start r _ _ _ => exact ⟨hphase, hle, hsame⟩
    | ended _ => exact ⟨nofun, hle, hsame⟩
    | sent hsleep => exact ⟨hphase, hle, fun heq => absurd hsleep ((hsame heq).2 0)⟩
    | gaveUp => exact ⟨hphase, hle, fun heq => ⟨(hsame heq).1, nofun⟩⟩
    | streamEnded _ =>
      refine ⟨hphase, Nat.le_succ_of_le hle, fun heq => ?_⟩
      dsimp only at heq
      omega
    | crashed => exact ⟨nofun, hle, fun heq => ⟨(hsame heq).1, nofun⟩⟩
  second {history now a} h := by
    obtain ⟨hphase, hle, hsame⟩ := h
    refine ⟨hphase, hle, fun heq => ⟨(hsame heq).1, fun left hleft => ?_⟩⟩
    change a.keeper.tick = .sleeping left at hleft
    have hnot := (hsame heq).2
    cases hk : a.keeper with
    | sleeping left' => exact hnot left' hk
    | off =>
      rw [hk] at hleft
      cases hleft
    | draining =>
      rw [hk] at hleft
      cases hleft
  told _ h := h

theorem paced_reach (h : Reach (step w) Init s) {p : Nat} (hget : s.auditors.get p = some a) :
    Paced s.clock a := by
  refine Steady.reach (P := fun _ _ => Paced) (fun _ => paced_steady w)
    (fun _ _ now lease => paced_new now lease) ?_ h p a hget
  rintro s rfl
  exact ⟨Nat.zero_le _, by rintro p a ⟨⟩⟩

/-- Whatever etcd answers, the task sends a request of its own after the one of `start_keepalive`
and then reads the answers to their end before it sends the next. As long as the stream of the
answers does not end, two requests are all that are sent for a lease. -/
theorem keepalives_stop (w : Watch) (h : Reach (step w) Init s) {p : Nat}
    (hget : s.auditors.get p = some a) :
    a.sent.length ≤ 2 + a.ends ∧
    (a.sent.Pairwise fun t' t => t + keepaliveInterval ≤ t') ∧
    (a.keeper = .draining → ∀ t, Reach (step w) (· = s) t →
      ∃ b, t.auditors.get p = some b ∧ (b.ends = a.ends → b.sent = a.sent)) := by
  have hpaced := paced_reach h hget
  refine ⟨hpaced.count, hpaced.spaced, fun hdrain t ht => ?_⟩
  have hwaiting : Waiting a.sent a.ends a := by
    refine ⟨fun hphase => ?_, Nat.le_refl _, fun _ => ⟨rfl, fun left hleft => ?_⟩⟩
    · cases hdrain.symm.trans (hpaced.fresh hphase).1
    · cases hdrain.symm.trans hleft
  obtain ⟨b, hb, -, -, hsame⟩ := (waiting_steady w a.sent a.ends).later hget hwaiting ht
  exact ⟨b, hb, fun heq => (hsame heq).1⟩

def plainWatch : Watch where
  sends history start rs r :=
    decide (told (rs ++ [r]) <+: history.drop start) && rs.all fun q => !q.canceled
  ordered _ h := of_decide_eq_true (Bool.and_eq_true_iff.mp h).1
  final h q hq := by
    have hall := List.all_eq_true.mp (Bool.and_eq_true_iff.mp h).2 q hq
    simpa using hall
  complete {history start rs} hpre hlive hne := by
    obtain ⟨rest, hrest⟩ := hpre
    refine ⟨⟨rest, false⟩, ?_, ?_, rfl⟩
    · have hall : (rs.all fun q => !q.canceled) = true :=
        List.all_eq_true.mpr fun q hq => by simp [hlive q hq]
      rw [hall, Bool.and_true]
      refine decide_eq_true ?_
      rw [← hrest]
      simp [told]
    · rintro rfl
      exact hne (by rw [← hrest, List.append_nil])

def lead (pid : Nat) : List Act :=
  [.acquireLease pid (.ok pid), .startKeepalive pid (.ok ()), .campaign pid (.ok ()),
    .watch pid (.ok ())]

/-- Five minutes later the auditor goes through a deletion, and has sent two requests. -/
theorem minutes_without_keepalive : ∃ s a,
    Reach (step plainWatch) Init s ∧ s.auditors.get 0 = some a ∧ s.clock = 311 ∧
      a.sent = [10, 0] ∧ a.ends = 0 ∧ a.calls = ["n2"] ∧ a.sent.length ≤ 2 + a.ends := by
  have hinit : Init ⟨[], 0, .empty⟩ := rfl
  obtain ⟨s, hreach, ha, hclock⟩ := reach_check (step plainWatch) hinit
    (fun s => s.auditors.get 0 = some ⟨0, .watching, .draining, [10, 0], 0, some 0,
      [⟨[.delete "n2"], false⟩], ["n2"]⟩ ∧ s.clock = 311)
    (lead 0 ++ List.replicate 10 .second ++ [.wake 0 (.ok ()), .answer 0 (.ok (some ()))] ++
      List.replicate 301 .second ++
      [.nodeEvent (.delete "n2"), .message 0 (.ok (some ⟨[.delete "n2"], false⟩))])
    (by decide +kernel)
  exact ⟨s, _, hreach, ha, hclock, rfl, rfl, rfl, (keepalives_stop plainWatch hreach ha).1⟩

end Keepalives
end Folio.AuditorRuns
