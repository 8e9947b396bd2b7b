import Folio.Protocol
import Folio.TransitionSystem
import Mathlib.Order.Nat

/-! `speculative_read`: the clients are asked one after the other, or each some time after the
one before it without waiting for it, and the first success is taken. -/
namespace Folio.HedgedRead
open Protocol TransitionSystem
variable {α : Type}

abbrev Answers (α : Type) := Nat → Option (Except FolioError α)

section Definitions

def oneByOne (f : Answers α) : Except FolioError α → List Nat → Option (Except FolioError α)
  | last, [] => some last
  | _, i :: is => (f i).bind fun r =>
      match r with
      | .ok a => some (.ok a)
      | .error e => oneByOne f (.error e) is

/-- What a poll of `select_ok` may find: futures that have failed are dropped, one that has
succeeded ends it, and the last failure is returned when all have failed. -/
inductive Polled (ready : Nat → Option (Except FolioError α)) (all : List Nat) :
    List Nat × Option (Except FolioError α) → Prop
  | pending {inner : List Nat} (hsub : ∀ i ∈ inner, i ∈ all) (hne : inner ≠ [])
      (hgone : ∀ i ∈ all, i ∈ inner ∨ ∃ e, ready i = some (.error e))
      (hno : ∀ i ∈ all, ∀ a, ready i ≠ some (.ok a)) : Polled ready all (inner, none)
  | ok {inner : List Nat} {i : Nat} {a : α} (hsub : ∀ i ∈ inner, i ∈ all) (hi : i ∈ all)
      (ha : ready i = some (.ok a)) : Polled ready all (inner, some (.ok a))
  | error {i : Nat} {e : FolioError} (hi : i ∈ all) (he : ready i = some (.error e))
      (hall : ∀ i ∈ all, ∃ e, ready i = some (.error e)) : Polled ready all ([], some (.error e))

/-- `futures::future::select_ok`, of which nothing is assumed but what `Polled` says. -/
structure SelectOk (α : Type) where
  poll : (Nat → Option (Except FolioError α)) → List Nat →
    List Nat × Option (Except FolioError α)
  polled : ∀ ready all, all ≠ [] → Polled ready all (poll ready all)

/-- The futures that are still polled, those of them that have called their client, and those
whose client has answered. -/
structure Hedge (α : Type) where
  now : Nat
  inner : List Nat
  called : List Nat
  answered : List Nat
  result : Option (Except FolioError α)

def started (n : Nat) : Hedge α := ⟨0, List.range n, [], [], none⟩

inductive Act where
  | tick
  | call (i : Nat)
  | answer (i : Nat)
  | poll

def Hedge.ready (s : Hedge α) (f : Answers α) (i : Nat) : Option (Except FolioError α) :=
  if i ∈ s.answered then f i else none

/-- Future `i` sleeps `i` hedge delays before it calls its client. -/
def move (select : SelectOk α) (f : Answers α) (delay : Nat) (s : Hedge α) :
    Act → Option (Hedge α)
  | .tick => some { s with now := s.now + 1 }
  | .call i =>
    if i ∈ s.inner ∧ i ∉ s.called ∧ i * delay ≤ s.now then
      some { s with called := i :: s.called }
    else none
  | .answer i =>
    if i ∈ s.called ∧ i ∉ s.answered ∧ (f i).isSome then
      some { s with answered := i :: s.answered }
    else none
  | .poll =>
    let r := select.poll (s.ready f) s.inner
    some { s with inner := r.1, result := r.2 }

def step (select : SelectOk α) (f : Answers α) (delay : Nat) (s : Hedge α) (a : Act) :
    Option (Hedge α) :=
  if s.result.isSome then none else move select f delay s a

/-- What `speculative_read` of `n` clients can return. -/
inductive Returns (select : SelectOk α) (ledgerId entryId n delay : Nat) (f : Answers α) :
    Except FolioError α → Prop
  | nobody (hn : n = 0) :
      Returns select ledgerId entryId n delay f (.error (.entryNotFound ledgerId entryId))
  | single {r : Except FolioError α} (hn : n = 1) (hr : f 0 = some r) :
      Returns select ledgerId entryId n delay f r
  | oneByOne {r : Except FolioError α} (hn : 2 ≤ n) (hdelay : delay = 0)
      (hr : oneByOne f (.error (.entryNotFound ledgerId entryId)) (List.range n) = some r) :
      Returns select ledgerId entryId n delay f r
  | hedged {r : Except FolioError α} {s : Hedge α} (hn : 2 ≤ n) (hdelay : 0 < delay)
      (hs : Reach (step select f delay) (· = started n) s) (hr : s.result = some r) :
      Returns select ledgerId entryId n delay f r

end Definitions

section Loop
variable {f : Answers α} {last : Except FolioError α} {is : List Nat}

theorem oneByOne_ok {a : α} (h : oneByOne f last is = some (.ok a)) (hlast : ∀ b, last ≠ .ok b) :
    ∃ i ∈ is, f i = some (.ok a) := by
  induction is generalizing last with
  | nil =>
    cases h
    exact absurd rfl (hlast a)
  | cons i is ih =>
    obtain ⟨r, hr, hrest⟩ := Option.bind_eq_some_iff.mp h
    cases r with
    | ok b =>
      cases hrest
      exact ⟨i, List.mem_cons_self, hr⟩
    | error e =>
      obtain ⟨j, hj, hfj⟩ := ih hrest fun b hb => by cases hb
      exact ⟨j, List.mem_cons_of_mem i hj, hfj⟩

theorem oneByOne_error {e : FolioError}
    (h : oneByOne f last is = some (.error e)) : ∀ i ∈ is, ∃ e', f i = some (.error e') := by
  induction is generalizing last with
  | nil => simp
  | cons i is ih =>
    obtain ⟨r, hr, hrest⟩ := Option.bind_eq_some_iff.mp h
    cases r with
    | ok b => cases hrest
    | error e' =>
      intro j hj
      rcases List.mem_cons.mp hj with rfl | hj
      · exact ⟨e', hr⟩
      · exact ih hrest j hj

theorem oneByOne_blocked {i : Nat} (hi : i ∈ is)
    (hhang : f i = none) (hbefore : ∀ j ∈ is, j < i → ∀ a, f j ≠ some (.ok a))
    (hsorted : is.Pairwise (· < ·)) : oneByOne f last is = none := by
  induction is generalizing last with
  | nil => cases hi
  | cons j is ih =>
    rw [oneByOne]
    rcases List.mem_cons.mp hi with rfl | hi
    · rw [hhang, Option.bind_none]
    · obtain ⟨hlt, hsorted⟩ := List.pairwise_cons.mp hsorted
      cases hj : f j with
      | none => rfl
      | some r =>
        cases r with
        | ok a => exact absurd hj (hbefore j List.mem_cons_self (hlt i hi) a)
        | error e => exact ih hi (fun k hk => hbefore k (List.mem_cons_of_mem j hk)) hsorted

end Loop

section Poll
variable {ready : Nat → Option (Except FolioError α)} {kept rest all : List Nat}
  {r : List Nat × Option (Except FolioError α)}

def selectOk (ready : Nat → Option (Except FolioError α)) :
    List Nat → List Nat → List Nat × Option (Except FolioError α)
  | kept, [] => (kept, none)
  | kept, i :: rest =>
    match ready i with
    | none => selectOk ready (kept ++ [i]) rest
    | some (.ok a) => (kept ++ rest, some (.ok a))
    | some (.error e) =>
      if kept ++ rest = [] then ([], some (.error e)) else selectOk ready kept rest

theorem Polled.drop {i : Nat} {e : FolioError} (h : Polled ready (kept ++ rest) r)
    (hi : ready i = some (.error e)) : Polled ready (kept ++ i :: rest) r := by
  have hmem {j : Nat} : j ∈ kept ++ i :: rest ↔ j = i ∨ j ∈ kept ++ rest := by
    simp only [List.mem_append, List.mem_cons]
    exact or_left_comm
  cases h with
  | pending hsub hne hgone hno =>
    refine .pending (fun j hj => hmem.mpr (.inr (hsub j hj))) hne (fun j hj => ?_) fun j hj a => ?_
    · rcases hmem.mp hj with rfl | hj
      · exact .inr ⟨e, hi⟩
      · exact hgone j hj
    · rcases hmem.mp hj with rfl | hj
      · rw [hi]
        rintro ⟨⟩
      · exact hno j hj a
  | ok hsub hj ha => exact .ok (fun j hj => hmem.mpr (.inr (hsub j hj))) (hmem.mpr (.inr hj)) ha
  | error hj he hall =>
    refine .error (hmem.mpr (.inr hj)) he fun k hk => ?_
    rcases hmem.mp hk with rfl | hk
    · exact ⟨e, hi⟩
    · exact hall k hk

theorem selectOk_polled (hkept : ∀ i ∈ kept, ready i = none) (hall : kept ++ rest ≠ []) :
    Polled ready (kept ++ rest) (selectOk ready kept rest) := by
  induction rest generalizing kept with
  | nil =>
    rw [List.append_nil] at hall ⊢
    refine .pending (fun i hi => hi) hall (fun i hi => .inl hi) fun i hi a => ?_
    rw [hkept i hi]
    rintro ⟨⟩
  | cons i rest ih =>
    rw [selectOk]
    cases hi : ready i with
    | none =>
      have hkept' : ∀ j ∈ kept ++ [i], ready j = none := by
        intro j hj
        rcases List.mem_append.mp hj with hj | hj
        · exact hkept j hj
        · rwa [List.mem_singleton.mp hj]
      have hmore := ih hkept' (by simp)
      rwa [List.append_assoc, List.singleton_append] at hmore
    | some r =>
      cases r with
      | ok a =>
        refine .ok (i := i) (fun j hj => ?_) (by simp) hi
        rcases List.mem_append.mp hj with hj | hj
        · exact List.mem_append_left _ hj
        · exact List.mem_append_right _ (List.mem_cons_of_mem i hj)
      | error e =>
        dsimp only
        split_ifs with hlast
        · obtain ⟨rfl, rfl⟩ := List.append_eq_nil_iff.mp hlast
          refine .error (i := i) (by simp) hi fun j hj => ?_
          rw [List.mem_singleton.mp hj]
          exact ⟨e, hi⟩
        · exact (ih hkept hlast).drop hi

def inOrder (α : Type) : SelectOk α where
  poll ready all := selectOk ready [] all
  polled ready all hall := by
    have hnone : ∀ i ∈ ([] : List Nat), ready i = none := by simp
    exact selectOk_polled hnone hall

end Poll

section Runs
variable {select : SelectOk α} {f : Answers α} {n delay : Nat} {s t : Hedge α} {i : Nat}

structure Inv (f : Answers α) (n delay : Nat) (s : Hedge α) : Prop where
  inner : ∀ i ∈ s.inner, i < n
  more : s.result = none → s.inner ≠ []
  gone : (∀ a, s.result ≠ some (.ok a)) → ∀ i < n, i ∉ s.inner → ∃ e, f i = some (.error e)
  called : ∀ i ∈ s.called, i * delay ≤ s.now
  ok : ∀ a, s.result = some (.ok a) → ∃ i < n, f i = some (.ok a)
  error : ∀ e, s.result = some (.error e) → ∀ i < n, ∃ e', f i = some (.error e')

theorem inv_started (hn : 0 < n) : Inv f n delay (started n) where
  inner i hi := List.mem_range.mp hi
  more _ := by
    change List.range n ≠ []
    rw [Ne, List.range_eq_nil]
    exact hn.ne'
  gone _ i hi hnot := absurd (List.mem_range.mpr hi) hnot
  called i hi := by cases hi
  ok a h := by cases h
  error e h := by cases h

theorem ready_eq_some {r : Except FolioError α} (h : s.ready f i = some r) : f i = some r := by
  unfold Hedge.ready at h
  split_ifs at h
  exact h

theorem Inv.poll (h : Inv f n delay s) (hres : s.result = none)
    {r : List Nat × Option (Except FolioError α)} (hr : Polled (s.ready f) s.inner r) :
    Inv f n delay { s with inner := r.1, result := r.2 } := by
  have hunsettled : ∀ a, s.result ≠ some (.ok a) := by
    intro a
    rw [hres]
    rintro ⟨⟩
  cases hr with
  | pending hsub hne hleft hno =>
    constructor
    · exact fun i hi => h.inner i (hsub i hi)
    · exact fun _ => hne
    · intro _ i hi hnot
      by_cases hin : i ∈ s.inner
      · obtain ⟨e, he⟩ := (hleft i hin).resolve_left hnot
        exact ⟨e, ready_eq_some he⟩
      · exact h.gone hunsettled i hi hin
    · exact h.called
    · rintro a ⟨⟩
    · rintro e ⟨⟩
  | ok hsub hi ha =>
    rename_i inner i a
    constructor
    · exact fun i hi => h.inner i (hsub i hi)
    · rintro ⟨⟩
    · exact fun hnot => absurd rfl (hnot a)
    · exact h.called
    · rintro b ⟨⟩
      exact ⟨i, h.inner i hi, ready_eq_some ha⟩
    · rintro e ⟨⟩
  | error hi he hall =>
    have herrors : ∀ i < n, ∃ e, f i = some (.error e) := by
      intro i hi
      by_cases hin : i ∈ s.inner
      · obtain ⟨e, he⟩ := hall i hin
        exact ⟨e, ready_eq_some he⟩
      · exact h.gone hunsettled i hi hin
    constructor
    · rintro i ⟨⟩
    · rintro ⟨⟩
    · exact fun _ i hi _ => herrors i hi
    · exact h.called
    · rintro a ⟨⟩
    · exact fun _ _ => herrors

theorem step_eq_some {a : Act} :
    step select f delay s a = some t ↔ s.result = none ∧ move select f delay s a = some t := by
  unfold step
  cases s.result <;> simp

theorem Inv.step {a : Act} (h : Inv f n delay s) (hst : step select f delay s a = some t) :
    Inv f n delay t := by
  obtain ⟨hres, hmove⟩ := step_eq_some.mp hst
  cases a with
  | tick =>
    cases hmove
    exact ⟨h.inner, h.more, h.gone, fun i hi => (h.called i hi).trans (Nat.le_succ _), h.ok,
      h.error⟩
  | call i =>
    obtain ⟨⟨-, -, htime⟩, heq⟩ := Option.ite_none_right_eq_some.mp hmove
    cases heq
    refine ⟨h.inner, h.more, h.gone, fun j hj => ?_, h.ok, h.error⟩
    rcases List.mem_cons.mp hj with rfl | hj
    · exact htime
    · exact h.called j hj
  | answer i =>
    obtain ⟨-, heq⟩ := Option.ite_none_right_eq_some.mp hmove
    cases heq
    exact ⟨h.inner, h.more, h.gone, h.called, h.ok, h.error⟩
  | poll =>
    cases hmove
    exact h.poll hres (select.polled _ _ (h.more hres))

theorem inv_reach (hn : 0 < n) (h : Reach (HedgedRead.step select f delay) (· = started n) s) :
    Inv f n delay s := by
  refine h.invariant ?_ fun _ _ _ => Inv.step
  rintro s rfl
  exact inv_started hn

theorem reach_tick (hres : s.result = none) (k : Nat) :
    Reach (HedgedRead.step select f delay) (· = s) { s with now := s.now + k } := by
  induction k with
  | zero => exact .start rfl
  | succ k ih => exact ih.next .tick (step_eq_some.mpr ⟨hres, rfl⟩)

theorem reach_called (select : SelectOk α) (f : Answers α) (delay : Nat) (hres : s.result = none)
    (hi : i ∈ s.inner) :
    ∃ t, Reach (HedgedRead.step select f delay) (· = s) t ∧ t.result = none ∧ t.inner = s.inner ∧
      i ∈ t.called := by
  by_cases hcalled : i ∈ s.called
  · exact ⟨s, .start rfl, hres, rfl, hcalled⟩
  · have hlate : i * delay ≤ s.now + i * delay := Nat.le_add_left _ _
    have hmove : move select f delay { s with now := s.now + i * delay } (.call i) =
        some { s with now := s.now + i * delay, called := i :: s.called } :=
      if_pos ⟨hi, hcalled, hlate⟩
    exact ⟨_, (reach_tick hres (i * delay)).next (.call i) (step_eq_some.mpr ⟨hres, hmove⟩), hres,
      rfl, List.mem_cons_self⟩

theorem reach_answered (select : SelectOk α) (f : Answers α) (delay : Nat)
    (hres : s.result = none) (hcalled : i ∈ s.called) (hanswers : (f i).isSome) :
    ∃ t, Reach (HedgedRead.step select f delay) (· = s) t ∧ t.result = none ∧ t.inner = s.inner ∧
      i ∈ t.answered := by
  by_cases hanswered : i ∈ s.answered
  · exact ⟨s, .start rfl, hres, rfl, hanswered⟩
  · have hmove : move select f delay s (.answer i) = some { s with answered := i :: s.answered } :=
      if_pos ⟨hcalled, hanswered, hanswers⟩
    have hself : Reach (HedgedRead.step select f delay) (· = s) s := .start rfl
    exact ⟨_, hself.next (.answer i) (step_eq_some.mpr ⟨hres, hmove⟩), hres, rfl,
      List.mem_cons_self⟩

theorem poll_ok (select : SelectOk α) (delay : Nat) (hres : s.result = none) {a : α}
    (hi : i ∈ s.inner) (hanswered : i ∈ s.answered) (ha : f i = some (.ok a)) :
    ∃ t b, HedgedRead.step select f delay s .poll = some t ∧ t.result = some (.ok b) := by
  have hready : s.ready f i = some (.ok a) := (if_pos hanswered).trans ha
  have hpolled := select.polled (s.ready f) s.inner (List.ne_nil_of_mem hi)
  have hok : ∃ b, (select.poll (s.ready f) s.inner).2 = some (.ok b) := by
    generalize select.poll (s.ready f) s.inner = r at hpolled
    cases hpolled with
    | pending hsub hne hgone hno => exact absurd hready (hno i hi a)
    | ok hsub hj hb => exact ⟨_, rfl⟩
    | error hj he hall =>
      obtain ⟨e, he⟩ := hall i hi
      rw [hready] at he
      cases he
  obtain ⟨b, hb⟩ := hok
  exact ⟨_, b, step_eq_some.mpr ⟨hres, rfl⟩, hb⟩

theorem reach_trans {u : Hedge α} {init : Hedge α → Prop}
    (h : Reach (HedgedRead.step select f delay) init s)
    (h' : Reach (HedgedRead.step select f delay) (· = s) u) :
    Reach (HedgedRead.step select f delay) init u := by
  refine h'.invariant (P := Reach (HedgedRead.step select f delay) init) ?_
    fun _ a _ hs => hs.next a
  rintro s rfl
  exact h

theorem reach_ok (select : SelectOk α) (h : Inv f n delay s) (hres : s.result = none)
    {a : α} (hi : i < n) (ha : f i = some (.ok a)) :
    ∃ t b, Reach (HedgedRead.step select f delay) (· = s) t ∧ t.result = some (.ok b) := by
  have hin : i ∈ s.inner := by
    by_contra hnot
    obtain ⟨e, he⟩ := h.gone (fun b hb => by rw [hres] at hb; cases hb) i hi hnot
    rw [ha] at he
    cases he
  obtain ⟨t₁, hreach₁, hres₁, hinner₁, hcalled⟩ := reach_called select f delay hres hin
  obtain ⟨t₂, hreach₂, hres₂, hinner₂, hanswered⟩ :=
    reach_answered select f delay hres₁ hcalled (by rw [ha]; rfl)
  obtain ⟨t₃, b, hpoll, hok⟩ :=
    poll_ok select delay hres₂ (hinner₂ ▸ hinner₁ ▸ hin) hanswered ha
  exact ⟨t₃, b, (reach_trans hreach₁ hreach₂).next .poll hpoll, hok⟩

end Runs

section Results
variable {select : SelectOk α} {ledgerId entryId n delay : Nat} {f : Answers α}

theorem returns_exact {r : Except FolioError α} (h : Returns select ledgerId entryId n delay f r) :
    (∀ a, r = .ok a → ∃ i < n, f i = some (.ok a)) ∧
    ∀ e, r = .error e → ∀ i < n, ∃ e', f i = some (.error e') := by
  cases h with
  | nobody hn =>
    subst hn
    refine ⟨?_, fun e _ i hi => absurd hi (Nat.not_lt_zero i)⟩
    rintro a ⟨⟩
  | single hn hr =>
    subst hn
    constructor
    · rintro a rfl
      exact ⟨0, Nat.zero_lt_one, hr⟩
    · rintro e rfl i hi
      rw [Nat.lt_one_iff.mp hi]
      exact ⟨e, hr⟩
  | oneByOne hn hdelay hr =>
    constructor
    · rintro a rfl
      obtain ⟨i, hi, ha⟩ := oneByOne_ok hr fun b hb => by cases hb
      exact ⟨i, List.mem_range.mp hi, ha⟩
    · rintro e rfl i hi
      exact oneByOne_error hr i (List.mem_range.mpr hi)
  | hedged hn hdelay hs hr =>
    have hinv := inv_reach (Nat.lt_of_lt_of_le Nat.zero_lt_two hn) hs
    constructor
    · rintro a rfl
      exact hinv.ok a hr
    · rintro e rfl
      exact hinv.error e hr

theorem returns_of_ok (hdelay : 0 < delay) {i : Nat} {a : α} (hi : i < n)
    (ha : f i = some (.ok a)) : ∃ b, Returns select ledgerId entryId n delay f (.ok b) := by
  by_cases hn : n = 1
  · subst hn
    rw [Nat.lt_one_iff.mp hi] at ha
    exact ⟨a, .single rfl ha⟩
  · have hpos : 0 < n := Nat.zero_lt_of_lt hi
    obtain ⟨t, b, hreach, hok⟩ := reach_ok select (inv_started hpos) rfl hi ha
    exact ⟨b, .hedged (by omega) hdelay hreach hok⟩

/-- What several clients can make `speculative_read` return is one client's success, or an error
after every one has failed. With a hedge delay, at every moment of the race, a client is called
only when its turn has come, and while nothing has been returned a client that has the entry can
still end it. Without one, a client that hangs keeps the read from all that come after it. -/
theorem hedged_read_race (select : SelectOk α) (ledgerId entryId : Nat) (f : Answers α)
    (delay : Nat) (hn : 2 ≤ n) :
    (∀ r, Returns select ledgerId entryId n delay f r →
      (∀ a, r = .ok a → ∃ i < n, f i = some (.ok a)) ∧
      ∀ e, r = .error e → ∀ i < n, ∃ e', f i = some (.error e')) ∧
    (∀ s, Reach (step select f delay) (· = started n) s →
      (∀ i ∈ s.called, i * delay ≤ s.now) ∧
      (s.result = none → ∀ i < n, ∀ a, f i = some (.ok a) →
        ∃ t b, Reach (step select f delay) (· = s) t ∧ t.result = some (.ok b))) ∧
    (delay = 0 → ∀ i < n, f i = none → (∀ j < i, ∀ a, f j ≠ some (.ok a)) →
      ∀ r, ¬Returns select ledgerId entryId n delay f r) := by
  refine ⟨fun r => returns_exact, fun s h => ?_, fun hdelay i hi hhang hbefore r h => ?_⟩
  · have hinv := inv_reach (Nat.lt_of_lt_of_le Nat.zero_lt_two hn) h
    exact ⟨hinv.called, fun hres i hi a ha => reach_ok select hinv hres hi ha⟩
  · have hblocked : oneByOne f (.error (.entryNotFound ledgerId entryId)) (List.range n) = none :=
      oneByOne_blocked (List.mem_range.mpr hi) hhang (fun j _ => hbefore j)
        List.pairwise_lt_range
    cases h with
    | nobody hn' => omega
    | single hn' => omega
    | oneByOne _ _ hr =>
      rw [hblocked] at hr
      cases hr
    | hedged _ hpos => omega

def slowFirst : Answers Nat
  | 0 => none
  | 1 => some (.error (.storage "gRPC unavailable"))
  | _ => some (.ok 7)

/-- With a hedge delay the third client answers; without one nobody is asked after the first. -/
theorem slow_first_unblocked :
    (∃ s, Reach (step (inOrder Nat) slowFirst 5) (· = started 3) s ∧ s.called = [1, 0] ∧
      ∃ t b, Reach (step (inOrder Nat) slowFirst 5) (· = s) t ∧ t.result = some (.ok b)) ∧
    ∀ r, ¬Returns (inOrder Nat) 1 0 3 0 slowFirst r := by
  obtain ⟨s, hrun, hend⟩ := run_check (step (inOrder Nat) slowFirst 5) (started 3)
    (fun s => decide (s.called = [1, 0]) && s.result.isNone)
    [.call 0, .poll, .tick, .tick, .tick, .tick, .tick, .call 1, .answer 1, .poll] (by decide)
  obtain ⟨hcalled, hres⟩ := Bool.and_eq_true_iff.mp hend
  have hreach : Reach (step (inOrder Nat) slowFirst 5) (· = started 3) s :=
    reach_of_run _ (.start rfl) hrun
  have hn : 2 ≤ 3 := by decide
  have hrace := (hedged_read_race (inOrder Nat) 1 0 slowFirst 5 hn).2.1 s hreach
  refine ⟨⟨s, hreach, of_decide_eq_true hcalled, ?_⟩, ?_⟩
  · exact hrace.2 (by simpa using hres) 2 (by decide) 7 rfl
  · exact (hedged_read_race (inOrder Nat) 1 0 slowFirst 0 hn).2.2 rfl 0 (by decide) rfl
      fun j hj => by omega

end Results
end Folio.HedgedRead
