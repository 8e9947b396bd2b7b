import Folio.KeyedTable
import Folio.RemoteProgram
import Folio.TransitionSystem

/-! Calls that run at the same time, each a program of requests to shared state, and when
they act as operations of a sequential object would. -/
namespace Folio.Linearization
open KeyedTable RemoteProgram TransitionSystem

section Replay
variable {τ A B : Type} (apply : τ → A → Option (τ × B)) {r : τ × List (Nat × A × B)}

def replay : τ → List (Nat × A) → Option (τ × List (Nat × A × B))
  | st, [] => some (st, [])
  | st, x :: xs => (apply st x.2).bind fun r =>
      (replay r.1 xs).map fun rest => (rest.1, (x.1, x.2, r.2) :: rest.2)

def own (id : Nat) (hist : List (Nat × A × B)) : List (A × B) :=
  (hist.filter fun x => decide (x.1 = id)).map Prod.snd

variable {apply} {st st' st'' : τ} {xs : List (Nat × A)} {hist : List (Nat × A × B)}

theorem replay_cons {x : Nat × A} (h : replay apply st (x :: xs) = some r) :
    ∃ st' b rest, apply st x.2 = some (st', b) ∧ replay apply st' xs = some (r.1, rest) ∧
      r.2 = (x.1, x.2, b) :: rest := by
  obtain ⟨⟨st', b⟩, happly, hrest⟩ := Option.bind_eq_some_iff.mp h
  obtain ⟨⟨fin, rest⟩, hreplay, rfl⟩ := Option.map_eq_some_iff.mp hrest
  exact ⟨st', b, rest, happly, hreplay, rfl⟩

theorem replay_snoc {id : Nat} {a : A} {b : B} (h : replay apply st xs = some (st', hist))
    (ha : apply st' a = some (st'', b)) :
    replay apply st (xs ++ [(id, a)]) = some (st'', hist ++ [(id, a, b)]) := by
  induction xs generalizing st hist with
  | nil =>
    cases h
    simp [replay, ha]
  | cons x xs ih =>
    obtain ⟨mid, c, rest, happly, hrest, rfl⟩ := replay_cons h
    simp [replay, happly, ih hrest]

theorem replay_split {x : Nat × A} {ys : List (Nat × A)}
    (h : replay apply st (xs ++ x :: ys) = some r) :
    ∃ before front after b, replay apply st xs = some (before, front) ∧
      apply before x.2 = some (after, b) := by
  induction xs generalizing st r with
  | nil =>
    obtain ⟨after, b, -, happly, -⟩ := replay_cons h
    exact ⟨st, [], after, b, rfl, happly⟩
  | cons y xs ih =>
    obtain ⟨mid, c, rest, happly, hrest, -⟩ := replay_cons h
    obtain ⟨before, front, after, b, hfront, hx⟩ := ih hrest
    exact ⟨before, (y.1, y.2, c) :: front, after, b, by simp [replay, happly, hfront], hx⟩

theorem mem_own {id : Nat} {e : A × B} : e ∈ own id hist ↔ (id, e) ∈ hist := by
  unfold own
  constructor
  · intro h
    obtain ⟨⟨id', e'⟩, hmem, rfl⟩ := List.mem_map.mp h
    obtain ⟨hin, hid⟩ := List.mem_filter.mp hmem
    rw [← of_decide_eq_true hid]
    exact hin
  · intro h
    exact List.mem_map.mpr ⟨(id, e), List.mem_filter.mpr ⟨h, decide_eq_true rfl⟩, rfl⟩

theorem own_snoc_self (id : Nat) (a : A) (b : B) :
    own id (hist ++ [(id, a, b)]) = own id hist ++ [(a, b)] := by
  simp [own]

theorem own_snoc_ne {id id' : Nat} (h : id' ≠ id) (a : A) (b : B) :
    own id (hist ++ [(id', a, b)]) = own id hist := by
  simp [own, h]

end Replay

section Programs
variable {I : Interface} {ε α β σ δ τ A B : Type}
variable (answer : δ → σ → (o : I.Op) → σ × Except ε (I.Reply o))
  (apply : τ → A → Option (τ × B)) (later : σ → σ → Prop) (R : σ → τ → Prop)
  (emit : (o : I.Op) → Except ε (I.Reply o) → Option A)

/-- A request that stands for no operation leaves the shared state as it is; one that stands
for an operation does to it what the operation does to the object. -/
def Acts (t u : σ) (es : List (A × B)) (next : List (A × B) → Prop) : Option A → Prop
  | none => u = t ∧ next es
  | some a => ∀ st, R t st → ∃ st' b, apply st a = some (st', b) ∧ R u st' ∧ next (es ++ [(a, b)])

/-- Whatever the others do before each request, every request acts as `emit` says, and `post`
holds for the result and the operations made when the program is done. -/
def Linear (post : Except ε α → List (A × B) → Prop) : Prog I ε α → σ → List (A × B) → Prop
  | .done r, _, es => post r es
  | .call o k, s, es => ∀ t, later s t → ∀ d, later t (answer d t o).1 ∧
      Acts apply R t (answer d t o).1 es
        (fun es' => Linear post (k (answer d t o).2) (answer d t o).1 es')
        (emit o (answer d t o).2)

section Rules
variable {answer apply later R emit} {post : Except ε α → List (A × B) → Prop}
  {p : Prog I ε α} {s t u : σ} {es : List (A × B)}

theorem Acts.mono {next next' : List (A × B) → Prop} {a : Option A}
    (h : Acts apply R t u es next a) (hnext : ∀ es', next es' → next' es') :
    Acts apply R t u es next' a := by
  cases a with
  | none => exact ⟨h.1, hnext es h.2⟩
  | some a =>
    intro st hst
    obtain ⟨st', b, happly, hu, hn⟩ := h st hst
    exact ⟨st', b, happly, hu, hnext _ hn⟩

theorem Linear.interfere (htrans : ∀ {s t u}, later s t → later t u → later s u)
    (h : Linear answer apply later R emit post p s es) (hst : later s t) :
    Linear answer apply later R emit post p t es := by
  cases p with
  | done r => exact h
  | call o k => exact fun u htu => h u (htrans hst htu)

theorem Linear.bind {f : α → Prog I ε β} {post' : Except ε β → List (A × B) → Prop}
    (h : Linear answer apply later R emit post p s es)
    (hok : ∀ a t es', post (.ok a) es' → Linear answer apply later R emit post' (f a) t es')
    (herr : ∀ e es', post (.error e) es' → post' (.error e) es') :
    Linear answer apply later R emit post' (p >>= f) s es := by
  change Linear answer apply later R emit post' (p.bind f) s es
  induction p generalizing s es with
  | done r =>
    cases r with
    | ok a => exact hok a s es h
    | error e => exact herr e es h
  | call o k ih =>
    intro t hst d
    obtain ⟨hlater, hacts⟩ := h t hst d
    exact ⟨hlater, hacts.mono fun es' h' => ih _ h'⟩

/-- What has been done so far can be carried on to a result that fits it. -/
theorem Linear.completes [Nonempty δ] (hrefl : ∀ s, later s s) {st : τ}
    (h : Linear answer apply later R emit post p s es) (hst : R s st) :
    ∃ r es', es <+: es' ∧ post r es' := by
  induction p generalizing s es st with
  | done r => exact ⟨r, es, List.prefix_refl es, h⟩
  | call o k ih =>
    obtain ⟨d⟩ := ‹Nonempty δ›
    obtain ⟨-, hacts⟩ := h s (hrefl s) d
    cases hemit : emit o (answer d s o).2 with
    | none =>
      rw [hemit] at hacts
      obtain ⟨hsame, hrest⟩ := hacts
      rw [← hsame] at hst
      exact ih _ hrest hst
    | some a =>
      rw [hemit] at hacts
      obtain ⟨st', b, -, hst', hrest⟩ := hacts st hst
      obtain ⟨r, es', hes, hr⟩ := ih _ hrest hst'
      exact ⟨r, es', (List.prefix_append es [(a, b)]).trans hes, hr⟩

end Rules
end Programs

/-- The calls there are, the environment they share, and the operation of the object that an
answered request of a call stands for. -/
structure System (I : Interface) (ε α σ δ A Call : Type) where
  answer : δ → σ → (o : I.Op) → σ × Except ε (I.Reply o)
  body : Call → Prog I ε α
  emit : Call → (o : I.Op) → Except ε (I.Reply o) → Option A

structure Thread (I : Interface) (ε α Call : Type) where
  call : Call
  prog : Prog I ε α

structure State (I : Interface) (ε α σ A Call : Type) where
  shared : σ
  threads : Table Nat (Thread I ε α Call)
  log : List (Nat × A)

inductive Act (δ Call : Type) where
  | invoke (id : Nat) (call : Call)
  | request (id : Nat) (d : δ)

namespace System
variable {I : Interface} {ε α σ δ τ A B Call : Type} (sys : System I ε α σ δ A Call)

def step (s : State I ε α σ A Call) : Act δ Call → Option (State I ε α σ A Call)
  | .invoke id call =>
    match s.threads.get id with
    | some _ => none
    | none => some { s with threads := s.threads.put id ⟨call, sys.body call⟩ }
  | .request id d =>
    match s.threads.get id with
    | some ⟨call, .call o k⟩ =>
      let r := sys.answer d s.shared o
      some
        { shared := r.1
          threads := s.threads.put id ⟨call, k r.2⟩
          log := s.log ++ ((sys.emit call o r.2).map (id, ·)).toList }
    | _ => none

theorem step_cases {s t : State I ε α σ A Call} {a : Act δ Call} (h : sys.step s a = some t) :
    (∃ id call, s.threads.get id = none ∧
      t = { s with threads := s.threads.put id ⟨call, sys.body call⟩ }) ∨
    ∃ id call o k d, s.threads.get id = some ⟨call, .call o k⟩ ∧
      t = { shared := (sys.answer d s.shared o).1
            threads := s.threads.put id ⟨call, k (sys.answer d s.shared o).2⟩
            log := s.log ++
              ((sys.emit call o (sys.answer d s.shared o).2).map (id, ·)).toList } := by
  cases a with
  | invoke id call =>
    simp only [step] at h
    cases hget : s.threads.get id with
    | some th => simp [hget] at h
    | none =>
      simp only [hget, Option.some.injEq] at h
      exact .inl ⟨id, call, hget, h.symm⟩
  | request id d =>
    simp only [step] at h
    cases hget : s.threads.get id with
    | none => simp [hget] at h
    | some th =>
      obtain ⟨call, p⟩ := th
      cases p with
      | done r => simp [hget] at h
      | call o k =>
        simp only [hget, Option.some.injEq] at h
        exact .inr ⟨id, call, o, k, d, hget, h.symm⟩

def returned (s : State I ε α σ A Call) (id : Nat) : Option (Call × Except ε α) :=
  match s.threads.get id with
  | some ⟨call, .done r⟩ => some (call, r)
  | _ => none

theorem returned_eq_some {s : State I ε α σ A Call} {id : Nat} {call : Call} {r : Except ε α} :
    returned s id = some (call, r) ↔ s.threads.get id = some ⟨call, .done r⟩ := by
  unfold returned
  cases hget : s.threads.get id with
  | none => simp
  | some th =>
    obtain ⟨call', p⟩ := th
    cases p <;> simp

variable (apply : τ → A → Option (τ × B)) (later : σ → σ → Prop) (R : σ → τ → Prop)
  (post : Call → Except ε α → List (A × B) → Prop)

def Start (st₀ : τ) (s : State I ε α σ A Call) : Prop :=
  R s.shared st₀ ∧ s.threads = Table.empty ∧ s.log = []

/-- The object, replayed from `st₀`, is what the shared state stands for, and every call is
on its way to a result that fits what it did to the object. -/
structure Inv (st₀ st : τ) (hist : List (Nat × A × B)) (s : State I ε α σ A Call) : Prop where
  replayed : replay apply st₀ s.log = some (st, hist)
  stands : R s.shared st
  threads : ∀ id call p, s.threads.get id = some ⟨call, p⟩ →
    Linear sys.answer apply later R (sys.emit call) (post call) p s.shared (own id hist)
  absent : ∀ id, s.threads.get id = none → own id hist = []

section Invariant
variable {sys apply later R post} {st₀ st : τ} {hist : List (Nat × A × B)}
  {s t : State I ε α σ A Call} {id : Nat} {hist' : List (Nat × A × B)}

theorem Inv.invoke (h : Inv sys apply later R post st₀ st hist s) {call : Call}
    (hbody : ∀ s, Linear sys.answer apply later R (sys.emit call) (post call) (sys.body call) s [])
    (hget : s.threads.get id = none) :
    Inv sys apply later R post st₀ st hist
      { s with threads := s.threads.put id ⟨call, sys.body call⟩ } where
  replayed := h.replayed
  stands := h.stands
  threads := by
    intro id' call' p hp
    rw [Table.get_put] at hp
    split_ifs at hp with heq
    · cases hp
      rw [heq, h.absent id hget]
      exact hbody _
    · exact h.threads id' call' p hp
  absent := by
    intro id' hnone
    rw [Table.get_put] at hnone
    split_ifs at hnone
    exact h.absent id' hnone

theorem Inv.answered (h : Inv sys apply later R post st₀ st hist s)
    (htrans : ∀ {s t u}, later s t → later t u → later s u) {call : Call} {q : Prog I ε α} {u : σ}
    {log : List (Nat × A)} {st' : τ} (hlater : later s.shared u)
    (hreplay : replay apply st₀ log = some (st', hist')) (hstands : R u st')
    (hown : ∀ id', id' ≠ id → own id' hist' = own id' hist)
    (hq : Linear sys.answer apply later R (sys.emit call) (post call) q u (own id hist')) :
    Inv sys apply later R post st₀ st' hist'
      { shared := u, threads := s.threads.put id ⟨call, q⟩, log := log } where
  replayed := hreplay
  stands := hstands
  threads := by
    intro id' call' p hp
    rw [Table.get_put] at hp
    split_ifs at hp with heq
    · cases hp
      rw [heq]
      exact hq
    · rw [hown id' heq]
      exact (h.threads id' call' p hp).interfere htrans hlater
  absent := by
    intro id' hnone
    rw [Table.get_put] at hnone
    split_ifs at hnone with heq
    rw [hown id' heq]
    exact h.absent id' hnone

theorem Inv.next (h : Inv sys apply later R post st₀ st hist s) (hrefl : ∀ s, later s s)
    (htrans : ∀ {s t u}, later s t → later t u → later s u)
    (hbody : ∀ call s,
      Linear sys.answer apply later R (sys.emit call) (post call) (sys.body call) s [])
    {a : Act δ Call} (hst : sys.step s a = some t) :
    (∃ st' hist', Inv sys apply later R post st₀ st' hist' t) ∧
      (t.log = s.log → t.shared = s.shared) := by
  rcases sys.step_cases hst with ⟨id, call, hget, rfl⟩ | ⟨id, call, o, k, d, hget, rfl⟩
  · exact ⟨⟨st, hist, h.invoke (hbody call) hget⟩, fun _ => rfl⟩
  · obtain ⟨hlater, hacts⟩ := h.threads id call _ hget s.shared (hrefl _) d
    cases hemit : sys.emit call o (sys.answer d s.shared o).2 with
    | none =>
      rw [hemit] at hacts
      obtain ⟨hsame, hrest⟩ := hacts
      refine ⟨⟨st, hist, h.answered htrans hlater ?_ ?_ (fun _ _ => rfl) hrest⟩, fun _ => hsame⟩
      · simpa using h.replayed
      · rw [hsame]
        exact h.stands
    | some a =>
      rw [hemit] at hacts
      obtain ⟨st', b, happly, hstands, hrest⟩ := hacts st h.stands
      refine ⟨⟨st', hist ++ [(id, a, b)], h.answered htrans hlater ?_ hstands ?_ ?_⟩, ?_⟩
      · exact replay_snoc h.replayed happly
      · exact fun id' hne => own_snoc_ne hne.symm a b
      · rw [own_snoc_self]
        exact hrest
      · intro hlog
        simp at hlog

theorem Inv.logged (h : Inv sys apply later R post st₀ st hist s) {st' : τ}
    (h' : Inv sys apply later R post st₀ st' hist' t)
    {a : Act δ Call} (hst : sys.step s a = some t) :
    (t.log = s.log ∧ st' = st ∧ hist' = hist) ∨
      ∃ id op b, t.log = s.log ++ [(id, op)] ∧ apply st op = some (st', b) ∧
        hist' = hist ++ [(id, op, b)] := by
  have hlog : t.log = s.log ∨ ∃ x, t.log = s.log ++ [x] := by
    rcases sys.step_cases hst with ⟨id, call, -, rfl⟩ | ⟨id, call, o, k, d, -, rfl⟩
    · exact .inl rfl
    · cases hemit : sys.emit call o (sys.answer d s.shared o).2 with
      | none => exact .inl (List.append_nil _)
      | some op => exact .inr ⟨(id, op), rfl⟩
  have hreplay := h'.replayed
  rcases hlog with hlog | ⟨⟨id, op⟩, hlog⟩ <;> rw [hlog] at hreplay
  · cases h.replayed.symm.trans hreplay
    exact .inl ⟨hlog, rfl, rfl⟩
  · obtain ⟨before, front, after, b, hfront, hop⟩ := replay_split hreplay
    cases h.replayed.symm.trans hfront
    cases (replay_snoc h.replayed hop).symm.trans hreplay
    exact .inr ⟨id, op, b, hlog, hop, rfl⟩

theorem Inv.own_completes [Nonempty δ] (h : Inv sys apply later R post st₀ st hist s)
    (hrefl : ∀ s, later s s) (hown : own id hist ≠ []) :
    ∃ call r es, own id hist <+: es ∧ post call r es := by
  cases hget : s.threads.get id with
  | none => exact absurd (h.absent id hget) hown
  | some th =>
    obtain ⟨r, es, hes, hr⟩ := (h.threads id th.call th.prog hget).completes hrefl h.stands
    exact ⟨th.call, r, es, hes, hr⟩

theorem linearizable (hrefl : ∀ s, later s s)
    (htrans : ∀ {s t u}, later s t → later t u → later s u)
    (hbody : ∀ call s,
      Linear sys.answer apply later R (sys.emit call) (post call) (sys.body call) s [])
    (h : Reach sys.step (Start R st₀) s) :
    ∃ st hist, Inv sys apply later R post st₀ st hist s := by
  induction h with
  | start hs =>
    obtain ⟨hR, hempty, hlog⟩ := hs
    refine ⟨st₀, [], ?_, hR, ?_, fun _ _ => rfl⟩
    · rw [hlog]
      rfl
    · intro id call p hp
      rw [hempty] at hp
      cases hp
  | next a _ hst ih =>
    obtain ⟨st, hist, hinv⟩ := ih
    exact (hinv.next hrefl htrans hbody hst).1

end Invariant
end System
end Folio.Linearization
