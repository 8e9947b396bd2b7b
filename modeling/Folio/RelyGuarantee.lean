import Folio.KeyedTable
import Folio.RemoteProgram
import Folio.TransitionSystem

/-! Rely and guarantee for one program of requests among others that act on the same state. The
others keep to `rely`; each request of the program keeps to `guar`, which may allow more. -/
namespace Folio.RelyGuarantee
open KeyedTable RemoteProgram TransitionSystem
variable {I : Interface} {ε α β σ δ : Type}
variable (answer : δ → σ → (o : I.Op) → σ × Except ε (I.Reply o)) (rely guar : σ → σ → Prop)

/-- Whatever the others have done before each request, the request keeps to `guar`, and `post`
holds when the program is done. -/
def Secures (post : Except ε α → σ → Prop) : Prog I ε α → σ → Prop
  | .done r, s => post r s
  | .call o k, s => ∀ t, rely s t → ∀ d,
      guar t (answer d t o).1 ∧ Secures post (k (answer d t o).2) (answer d t o).1

def Ends (P : α → σ → Prop) (Q : σ → Prop) : Except ε α → σ → Prop
  | .ok a, s => P a s
  | .error _, s => Q s

section Rules
variable {answer rely guar} {post : Except ε α → σ → Prop} {p : Prog I ε α} {s t : σ}
  {post' : Except ε α → σ → Prop}

theorem Secures.mono (h : Secures answer rely guar post p s)
    (hpost : ∀ r t, post r t → post' r t) : Secures answer rely guar post' p s := by
  induction p generalizing s with
  | done r => exact hpost r s h
  | call o k ih => exact fun t hst d => ⟨(h t hst d).1, ih _ (h t hst d).2⟩

theorem Secures.interfere (htrans : ∀ {s t u}, rely s t → rely t u → rely s u)
    (hpost : ∀ r s t, rely s t → post r s → post r t)
    (h : Secures answer rely guar post p s) (hst : rely s t) :
    Secures answer rely guar post p t := by
  cases p with
  | done r => exact hpost r s t hst h
  | call o k => exact fun u htu => h u (htrans hst htu)

theorem Secures.bind {f : α → Prog I ε β} {post' : Except ε β → σ → Prop}
    (h : Secures answer rely guar post p s)
    (hok : ∀ a t, post (.ok a) t → Secures answer rely guar post' (f a) t)
    (herr : ∀ e t, post (.error e) t → post' (.error e) t) :
    Secures answer rely guar post' (p >>= f) s := by
  change Secures answer rely guar post' (p.bind f) s
  induction p generalizing s with
  | done r =>
    cases r with
    | ok a => exact hok a s h
    | error e => exact herr e s h
  | call o k ih => exact fun t hst d => ⟨(h t hst d).1, ih _ (h t hst d).2⟩

theorem Secures.handle {f : ε → Prog I ε α}
    (h : Secures answer rely guar post p s) (hok : ∀ a t, post (.ok a) t → post' (.ok a) t)
    (herr : ∀ e t, post (.error e) t → Secures answer rely guar post' (f e) t) :
    Secures answer rely guar post' (tryCatch p f) s := by
  change Secures answer rely guar post' (p.handle f) s
  induction p generalizing s with
  | done r =>
    cases r with
    | ok a => exact hok a s h
    | error e => exact herr e s h
  | call o k ih => exact fun t hst d => ⟨(h t hst d).1, ih _ (h t hst d).2⟩

theorem Secures.settle {P : α → σ → Prop} {Q : σ → Prop} {R : β → σ → Prop} {f : α → β} {b : β}
    (h : Secures answer rely guar (Ends P Q) p s) (hok : ∀ a t, P a t → R (f a) t)
    (herr : ∀ t, Q t → R b t) :
    Secures answer rely guar (Ends R fun _ => False)
      (tryCatch (p >>= fun a => pure (f a)) fun _ => pure b) s := by
  have hbind : Secures answer rely guar (Ends R Q) (p >>= fun a => pure (f a)) s :=
    h.bind hok fun e t hq => hq
  exact hbind.handle (fun _ t hr => hr) fun e t hq => herr t hq

/-- One request, from a state in which `pre` holds and which the others leave so. -/
theorem secures_request {o : I.Op} {pre : σ → Prop} {post : Except ε (I.Reply o) → σ → Prop}
    (hstable : ∀ s t, rely s t → pre s → pre t) (hs : pre s)
    (h : ∀ t d, pre t → guar t (answer d t o).1 ∧ post (answer d t o).2 (answer d t o).1) :
    Secures answer rely guar post (Prog.request o) s :=
  fun t hst d => h t d (hstable s t hst hs)

theorem Secures.weaken {guar' : σ → σ → Prop} {P : σ → Prop}
    (hrely : ∀ s t, rely s t → P s → P t) (hguar : ∀ s t, P s → guar s t → guar' s t ∧ P t)
    (h : Secures answer rely guar post p s) (hs : P s) :
    Secures answer rely guar' (fun r t => post r t ∧ P t) p s := by
  induction p generalizing s with
  | done r => exact ⟨h, hs⟩
  | call o k ih =>
    intro t hst d
    obtain ⟨hreq, hrest⟩ := h t hst d
    obtain ⟨hreq', ht⟩ := hguar _ _ (hrely s t hst hs) hreq
    exact ⟨hreq', ih _ hrest ht⟩

theorem Secures.run (hrefl : ∀ s, rely s s) (d : δ) (h : Secures answer rely guar post p s) :
    post (p.run (answer d) s).2 (p.run (answer d) s).1 := by
  induction p generalizing s with
  | done r => exact h
  | call o k ih => exact ih _ (h s (hrefl s) d).2

theorem Secures.run_guar (hrely : ∀ s, rely s s) (hrefl : ∀ s, guar s s)
    (htrans : ∀ {s t u}, guar s t → guar t u → guar s u) (d : δ)
    (h : Secures answer rely guar post p s) : guar s (p.run (answer d) s).1 := by
  induction p generalizing s with
  | done r => exact hrefl s
  | call o k ih =>
    obtain ⟨hreq, hrest⟩ := h s (hrely s) d
    exact htrans hreq (ih _ hrest)

end Rules

section System

/-- The program at its next request, answered in the way `d`, or the others by an act of theirs. -/
inductive Move (δ κ : Type) where
  | request (d : δ)
  | others (a : κ)

variable {κ : Type} (other : σ → κ → Option σ)

def step (s : σ × Prog I ε α) : Move δ κ → Option (σ × Prog I ε α)
  | .request d => s.2.advance answer d s.1
  | .others a => (other s.1 a).map fun t => (t, s.2)

variable {answer rely guar other} {post : Except ε α → σ → Prop}

theorem Secures.reach {p : Prog I ε α} {s₀ : σ} {J : σ → Prop} {s : σ × Prog I ε α}
    (hrefl : ∀ s, rely s s) (htrans : ∀ {s t u}, rely s t → rely t u → rely s u)
    (hpost : ∀ r s t, rely s t → post r s → post r t)
    (hother : ∀ s a t, J s → other s a = some t → rely s t ∧ J t)
    (hguar : ∀ s t, J s → guar s t → J t) (h : Secures answer rely guar post p s₀) (hJ : J s₀)
    (hreach : Reach (step answer other) (· = (s₀, p)) s) :
    J s.1 ∧ Secures answer rely guar post s.2 s.1 := by
  refine hreach.invariant (P := fun s => J s.1 ∧ Secures answer rely guar post s.2 s.1) ?_ ?_
  · rintro s rfl
    exact ⟨hJ, h⟩
  · rintro ⟨s, q⟩ a ⟨t, q'⟩ ⟨hs, hq⟩ hst
    cases a with
    | request d =>
      cases q with
      | done r => cases hst
      | call o k =>
        cases hst
        obtain ⟨hg, hrest⟩ := hq s (hrefl s) d
        exact ⟨hguar _ _ hs hg, hrest⟩
    | others a =>
      obtain ⟨u, hu, heq⟩ := Option.map_eq_some_iff.mp hst
      cases heq
      obtain ⟨hrely, ht⟩ := hother s a _ hs hu
      exact ⟨ht, hq.interfere htrans hpost hrely⟩

end System

section Pool

structure Pool (I : Interface) (ε α σ ι : Type) where
  shared : σ
  threads : Table Nat (ι × Prog I ε α)

def Pool.result {ι : Type} (s : Pool I ε α σ ι) (c : Nat) : Option (ι × Except ε α) :=
  (s.threads.get c).bind fun thread => thread.2.result.map fun r => (thread.1, r)

theorem Pool.result_eq_some {ι : Type} {s : Pool I ε α σ ι} {c : Nat} {i : ι} {r : Except ε α}
    (h : s.result c = some (i, r)) : s.threads.get c = some (i, .done r) := by
  obtain ⟨⟨j, p⟩, hget, hmap⟩ := Option.bind_eq_some_iff.mp h
  obtain ⟨r', hdone, heq⟩ := Option.map_eq_some_iff.mp hmap
  cases heq
  cases p with
  | done _ =>
    cases hdone
    exact hget
  | call o k => cases hdone

inductive PoolMove (δ κ ι : Type) where
  | start (c : Nat) (i : ι)
  | request (c : Nat) (d : δ)
  | others (a : κ)

variable {ι κ : Type} (make : ι → Prog I ε α) (other : σ → κ → Option σ)

def stepPool (s : Pool I ε α σ ι) : PoolMove δ κ ι → Option (Pool I ε α σ ι)
  | .start c i =>
    if (s.threads.get c).isNone then
      some { s with threads := s.threads.put c (i, make i) }
    else none
  | .request c d =>
    (s.threads.get c).bind fun thread =>
      (thread.2.advance answer d s.shared).map fun r =>
        ⟨r.1, s.threads.put c (thread.1, r.2)⟩
  | .others a => (other s.shared a).map fun t => { s with shared := t }

variable {answer rely guar make other} {post : ι → Except ε α → σ → Prop} {J : σ → Prop}

theorem Secures.pool {s₀ s : Pool I ε α σ ι} (hrefl : ∀ s, rely s s)
    (htrans : ∀ {s t u}, rely s t → rely t u → rely s u)
    (hpost : ∀ i r s t, rely s t → post i r s → post i r t)
    (hother : ∀ s a t, J s → other s a = some t → rely s t ∧ J t)
    (hguar : ∀ s t, J s → guar s t → rely s t ∧ J t)
    (hmake : ∀ i s, J s → Secures answer rely guar (post i) (make i) s)
    (hJ : J s₀.shared) (hnone : s₀.threads = .empty)
    (h : Reach (stepPool answer make other) (· = s₀) s) :
    J s.shared ∧ ∀ c i p, s.threads.get c = some (i, p) →
      Secures answer rely guar (post i) p s.shared := by
  refine h.invariant (P := fun s => J s.shared ∧ ∀ c i p, s.threads.get c = some (i, p) →
    Secures answer rely guar (post i) p s.shared) ?_ ?_
  · rintro s rfl
    refine ⟨hJ, fun c i p hget => ?_⟩
    rw [hnone] at hget
    cases hget
  · rintro s a t ⟨hs, hall⟩ hst
    have hstable {u : σ} (hu : rely s.shared u) (c : Nat) (i : ι) (p : Prog I ε α)
        (hget : s.threads.get c = some (i, p)) : Secures answer rely guar (post i) p u :=
      (hall c i p hget).interfere htrans (hpost i) hu
    cases a with
    | start c i =>
      simp only [stepPool] at hst
      split_ifs at hst
      cases hst
      refine ⟨hs, fun c' i' p hget => ?_⟩
      dsimp only at hget
      rw [Table.get_put] at hget
      split_ifs at hget
      · cases hget
        exact hmake i s.shared hs
      · exact hall c' i' p hget
    | request c d =>
      obtain ⟨⟨i, p⟩, hthread, hadv⟩ := Option.bind_eq_some_iff.mp hst
      obtain ⟨r, hr, rfl⟩ := Option.map_eq_some_iff.mp hadv
      cases p with
      | done _ => cases hr
      | call o k =>
        cases hr
        obtain ⟨hg, hrest⟩ := hall c i _ hthread s.shared (hrefl _) d
        obtain ⟨hrely, ht⟩ := hguar _ _ hs hg
        refine ⟨ht, fun c' i' p' hget => ?_⟩
        dsimp only at hget
        rw [Table.get_put] at hget
        split_ifs at hget
        · cases hget
          exact hrest
        · exact hstable hrely c' i' p' hget
    | others a =>
      obtain ⟨u, hu, rfl⟩ := Option.map_eq_some_iff.mp hst
      obtain ⟨hrely, ht⟩ := hother _ a u hs hu
      exact ⟨ht, fun c i p hget => hstable hrely c i p hget⟩

end Pool
end Folio.RelyGuarantee
