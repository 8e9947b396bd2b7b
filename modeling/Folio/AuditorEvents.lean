import Folio.AuditorRuns

/-! Which deletions of node keys the auditors act upon. -/
namespace Folio.AuditorEvents
open KeyedTable Protocol TransitionSystem AuditorRuns
open NodeRegistry (watchNodeEvents)

variable {w : Watch} {s t : State} {a b : Auditor} {history : List NodeEvent} {start n₀ : Nat}
  {old : List NodeId → Prop}

theorem told_concat (rs : List Response) (r : Response) :
    told (rs ++ [r]) = told rs ++ r.events := by simp [told]

structure Unwatched (a : Auditor) : Prop where
  watch : a.watch = none
  received : a.received = []
  calls : a.calls = []
  phase : a.phase ≠ .watching

/-- The watch has told a stretch of the events, and the auditor has gone through all of it. -/
structure Followed (history : List NodeEvent) (start : Nat) (a : Auditor) : Prop where
  watch : a.watch = some start
  told : told a.received <+: history.drop start
  calls : a.calls = watchNodeEvents (AuditorRuns.told a.received)
  phase : a.phase = .watching ∨ a.phase = .ended

/-- A run that has ended with the calls `old`, or one whose watch begins after `n₀` events. -/
def Spans (n₀ : Nat) (old : List NodeId → Prop) (history : List NodeEvent) (a : Auditor) : Prop :=
  (a.phase = .ended ∧ old a.calls) ∨ Unwatched a ∨
    ∃ start, n₀ ≤ start ∧ Followed history start a

theorem Followed.received {r : Response} (h : Followed history start a)
    (hsends : w.sends history start a.received r = true) :
    Followed history start { a with
      received := a.received ++ [r], calls := a.calls ++ watchNodeEvents r.events } where
  watch := h.watch
  told := w.ordered h.told hsends
  calls := by
    rw [told_concat, h.calls]
    exact List.filterMap_append.symm
  phase := h.phase

theorem Followed.told_event (h : Followed history start a) (ev : NodeEvent) :
    Followed (history ++ [ev]) start a where
  watch := h.watch
  told := by
    rw [List.drop_append]
    exact h.told.trans (List.prefix_append _ _)
  calls := h.calls
  phase := h.phase

theorem Spans.moved {now : Nat} (h : Spans n₀ old history a) (hlen : n₀ ≤ history.length)
    (hmoved : Moved w history now a b) : Spans n₀ old history b := by
  rcases h with ⟨hended, hold⟩ | hnone | ⟨start, hle, hf⟩
  · cases hmoved with
    | kept hphase | unkept hphase | elected hphase | watched hphase | received _ _ hphase =>
      cases hended.symm.trans hphase
    | ended _ => exact .inl ⟨rfl, hold⟩
    | crashed => exact .inl ⟨rfl, hold⟩
    | same | sent | gaveUp | streamEnded => exact .inl ⟨hended, hold⟩
  · cases hmoved with
    | received _ _ hphase => exact absurd hphase hnone.phase
    | watched _ =>
      refine .inr (.inr ⟨history.length, hlen, rfl, ?_, ?_, .inl rfl⟩)
      · simp [hnone.received, told]
      · rw [hnone.calls, hnone.received]
        rfl
    | kept | unkept | elected | ended | crashed =>
      exact .inr (.inl ⟨hnone.watch, hnone.received, hnone.calls, nofun⟩)
    | same | sent | gaveUp | streamEnded =>
      exact .inr (.inl ⟨hnone.watch, hnone.received, hnone.calls, hnone.phase⟩)
  · have hnot {phase : Phase} (hphase : a.phase = phase) : phase = .watching ∨ phase = .ended :=
      hphase ▸ hf.phase
    cases hmoved with
    | kept hphase | unkept hphase | elected hphase | watched hphase => simpa using hnot hphase
    | received start' r _ hstart hsends =>
      cases hf.watch.symm.trans hstart
      exact .inr (.inr ⟨start, hle, hf.received hsends⟩)
    | ended | crashed => exact .inr (.inr ⟨start, hle, hf.watch, hf.told, hf.calls, .inr rfl⟩)
    | same | sent | gaveUp | streamEnded =>
      exact .inr (.inr ⟨start, hle, hf.watch, hf.told, hf.calls, hf.phase⟩)

theorem spans_steady (w : Watch) (n₀ : Nat) (old : List NodeId → Prop) :
    Steady w n₀ fun history _ => Spans n₀ old history where
  moved hlen hmoved h := h.moved hlen hmoved
  second h := by
    rcases h with hold | hnone | ⟨start, hle, hf⟩
    · exact .inl hold
    · exact .inr (.inl ⟨hnone.watch, hnone.received, hnone.calls, hnone.phase⟩)
    · exact .inr (.inr ⟨start, hle, hf.watch, hf.told, hf.calls, hf.phase⟩)
  told ev h := by
    rcases h with hold | hnone | ⟨start, hle, hf⟩
    · exact .inl hold
    · exact .inr (.inl hnone)
    · exact .inr (.inr ⟨start, hle, hf.told_event ev⟩)

theorem spans_new (n₀ : Nat) (old : List NodeId → Prop) (history : List NodeEvent) (lease : Nat) :
    Spans n₀ old history (.new lease) :=
  .inr (.inl ⟨rfl, rfl, rfl, nofun⟩)

theorem spans_reach (h : Reach (step w) Init s) {p : Nat} (hget : s.auditors.get p = some a) :
    Spans 0 (fun _ => False) s.history a := by
  refine Steady.reach (P := fun _ history _ => Spans 0 (fun _ => False) history)
    (fun _ => spans_steady w 0 _) (fun _ history _ => spans_new 0 _ history) ?_ h p a hget
  rintro s rfl
  exact ⟨Nat.zero_le _, by rintro p a ⟨⟩⟩

theorem followed_reach (h : Reach (step w) Init s) {p : Nat} (hget : s.auditors.get p = some a)
    (hwatch : a.watch = some start) : Followed s.history start a := by
  rcases spans_reach h hget with ⟨-, hno⟩ | hnone | ⟨start', -, hf⟩
  · exact hno.elim
  · cases hnone.watch.symm.trans hwatch
  · cases hf.watch.symm.trans hwatch
    exact hf

/-- Nothing is sent on a watch that has been cancelled. -/
theorem deaf_steady (w : Watch) {received : List Response} {calls : List NodeId}
    (h : ∃ r ∈ received, r.canceled = true) :
    Steady w 0 fun _ _ a => a.received = received ∧ a.calls = calls where
  moved _ hmoved hs := by
    cases hmoved with
    | received start r _ _ hsends =>
      obtain ⟨q, hq, hcanceled⟩ := h
      rw [w.final hsends q (hs.1 ▸ hq)] at hcanceled
      cases hcanceled
    | _ => exact hs
  second hs := hs
  told _ hs := hs

/-- A watcher gets through whatever has happened since its watch began. -/
theorem catch_up {p : Nat} (hget : s.auditors.get p = some a) (hphase : a.phase = .watching)
    (hf : Followed s.history start a) (hlive : ∀ r ∈ a.received, r.canceled = false) :
    ∃ (rs : List Response) (t : State),
      run (step w) s (rs.map fun r => .message p (.ok (some r))) = some t ∧
      ∃ b, t.auditors.get p = some b ∧ b.calls = watchNodeEvents (s.history.drop start) := by
  obtain ⟨k, hk⟩ : ∃ k, (s.history.drop start).length - (told a.received).length = k := ⟨_, rfl⟩
  -- by induction on the number of the events that are left
  induction k using Nat.strong_induction_on generalizing s a with
  | _ k ih =>
    by_cases hall : told a.received = s.history.drop start
    · exact ⟨[], s, rfl, a, hget, by rw [hf.calls, hall]⟩
    · obtain ⟨r, hsends, hne, hr⟩ := w.complete hf.told hlive hall
      let a' : Auditor := { a with
        received := a.received ++ [r], calls := a.calls ++ watchNodeEvents r.events }
      have hst : step w s (.message p (.ok (some r))) =
          some { s with auditors := s.auditors.put p a' } := by
        simp [step, onAuditor, hget, stepRun, hphase, hf.watch, hsends, a']
      have hf' : Followed s.history start a' := hf.received hsends
      have hless : (s.history.drop start).length - (told a'.received).length < k := by
        have hlen := hf'.told.length_le
        have hpos := List.length_pos_iff.mpr hne
        rw [told_concat, List.length_append] at hlen ⊢
        omega
      have hlive' : ∀ q ∈ a'.received, q.canceled = false := by
        intro q hq
        rcases List.mem_append.mp hq with hq | hq
        · exact hlive q hq
        · rw [List.mem_singleton.mp hq]
          exact hr
      obtain ⟨rs, t, hrun, b, hb, hcalls⟩ := ih _ hless
        (s := { s with auditors := s.auditors.put p a' }) (Table.get_put_self _ _ _) hphase hf'
        hlive' rfl
      exact ⟨r :: rs, t, run_cons hst hrun, b, hb, hcalls⟩

/-- A watcher calls for the deletions since its watch began, in their order, and gets to all of
them unless the watch is cancelled: then it calls for nothing any more. While nobody watches,
deletions are lost: whatever an auditor calls for later has happened later. -/
theorem deletions_need_live_watch (w : Watch) (h : Reach (step w) Init s) :
    (∀ p a start, s.auditors.get p = some a → a.watch = some start →
      a.calls <+: watchNodeEvents (s.history.drop start) ∧
      (a.phase = .watching → (∀ r ∈ a.received, r.canceled = false) →
        ∃ (rs : List Response) (t : State),
          run (step w) s (rs.map fun r => .message p (.ok (some r))) = some t ∧
          ∃ b, t.auditors.get p = some b ∧
            b.calls = watchNodeEvents (s.history.drop start)) ∧
      ((∃ r ∈ a.received, r.canceled = true) → ∀ t, Reach (step w) (· = s) t →
        ∃ b, t.auditors.get p = some b ∧ b.calls = a.calls)) ∧
    ((∀ p a, s.auditors.get p = some a → a.phase ≠ .watching) →
      ∀ t, Reach (step w) (· = s) t → ∀ p b, t.auditors.get p = some b →
        (∃ a, s.auditors.get p = some a ∧ b.calls = a.calls) ∨
        ∃ start, s.history.length ≤ start ∧
          b.calls <+: watchNodeEvents (t.history.drop start)) := by
  have hpre {u : State} {c : Auditor} {start : Nat} (hf : Followed u.history start c) :
      c.calls <+: watchNodeEvents (u.history.drop start) := by
    rw [hf.calls]
    exact hf.told.filterMap _
  constructor
  · intro p a start hget hwatch
    have hf := followed_reach h hget hwatch
    refine ⟨hpre hf, fun hphase hlive => catch_up hget hphase hf hlive, fun hcanceled t ht => ?_⟩
    obtain ⟨b, hb, -, hcalls⟩ := (deaf_steady w hcanceled).later hget ⟨rfl, rfl⟩ ht
    exact ⟨b, hb, hcalls⟩
  · intro hnone t ht p b hb
    have hspans := Steady.reach (P := fun p history _ => Spans s.history.length
      (fun calls => ∃ a, s.auditors.get p = some a ∧ calls = a.calls) history)
      (fun p => spans_steady w _ _) (fun p history _ => spans_new _ _ history) (by
        rintro u rfl
        refine ⟨Nat.le_refl _, fun p a hp => ?_⟩
        rcases spans_reach h hp with ⟨-, hno⟩ | hun | ⟨start, -, hf⟩
        · exact hno.elim
        · exact .inr (.inl hun)
        · exact .inl ⟨hf.phase.resolve_left (hnone p a hp), a, hp, rfl⟩) ht p b hb
    rcases hspans with ⟨-, hold⟩ | hun | ⟨start, hle, hf⟩
    · exact .inl hold
    · exact .inr ⟨s.history.length, Nat.le_refl _, by rw [hun.calls]; exact List.nil_prefix⟩
    · exact .inr ⟨start, hle, hpre hf⟩

/-- The first watch is cancelled, and a node goes; the process is restarted, and its watch tells
of the next node only. -/
theorem deletion_behind_cancelled_watch_lost : ∃ s t a b,
    Reach (step plainWatch) Init s ∧ s.auditors.get 0 = some a ∧ a.phase = .watching ∧
      watchNodeEvents s.history = ["n2"] ∧ Reach (step plainWatch) (· = s) t ∧
      t.auditors.get 1 = some b ∧ b.calls = ["n3"] ∧
      ∃ c, t.auditors.get 0 = some c ∧ c.calls = [] := by
  have hinit : Init ⟨[], 0, .empty⟩ := rfl
  obtain ⟨s, hreach, ha, hdeleted, hlater⟩ := reach_check (step plainWatch) hinit
    (fun s => s.auditors.get 0 = some ⟨0, .watching, .sleeping 10, [0], 0, some 0, [⟨[], true⟩],
        []⟩ ∧ watchNodeEvents s.history = ["n2"] ∧
      (run (step plainWatch) s (lead 1 ++ [.nodeEvent (.delete "n3"),
        .message 1 (.ok (some ⟨[.delete "n3"], false⟩))])).map
          (fun t => (t.auditors.get 1).map Auditor.calls) = some (some ["n3"]))
    (lead 0 ++ [.message 0 (.ok (some ⟨[], true⟩)), .nodeEvent (.delete "n2")])
    (by decide +kernel)
  obtain ⟨t, hrun, hcalls⟩ := Option.map_eq_some_iff.mp hlater
  obtain ⟨b, hb, hcalls⟩ := Option.map_eq_some_iff.mp hcalls
  have ht : Reach (step plainWatch) (· = s) t := reach_of_run _ (.start rfl) hrun
  obtain ⟨-, -, hdeaf⟩ := (deletions_need_live_watch plainWatch hreach).1 0 _ 0 ha rfl
  obtain ⟨c, hc, hnil⟩ := hdeaf ⟨_, List.mem_singleton_self _, rfl⟩ t ht
  exact ⟨s, t, _, b, hreach, ha, rfl, hdeleted, ht, hb, hcalls, c, hc, hnil⟩

end Folio.AuditorEvents
