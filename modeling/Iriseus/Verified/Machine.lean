import Mathlib.Data.List.Infix

/-!
# Labelled machines, their runs and their histories

A machine takes labelled steps; every step emits a finite list of observable
events.  A label resolves all the nondeterminism of its step (which thread
moves, what the network delivered, how a system call ended), so `step` is a
partial *function* and a concrete run is evaluated by `exec`.

`Reach` is the inductive notion of "some run leads here": it carries the
history of all events emitted so far, so that properties of whole runs are
stated as properties of a reachable state and its history.  The parameter
`ok` restricts the runs to those whose every step meets a condition on the
state before the step, the history so far and the label.

## Main results

* `Reach.invariant`, `Reach.invariant_along` — what holds initially and is kept by every conforming
  step holds of every reachable state and history.
* `Reach.mono` — weakening the step condition keeps the reachable states.
* `Reach.simulate` — the simulation rule, with steps that change nothing.
* `Reach.steps` — a run that goes on from a reachable state is a run.
* `append_eq_append_cons` — where an event of an extended history lies.
* `Ensures.next`, `Ensures.seq` — total correctness over all labels allowed,
  step by step and in sequence.
* `exec_reach` — an evaluated run is a run.
-/

namespace Iriseus.Verified

/-- A machine over states `σ`, labels `α` and observable events `ε`. -/
structure Machine (σ α ε : Type) where
  Init : σ → Prop
  step : σ → α → Option (σ × List ε)

namespace Machine

variable {σ α ε : Type} (m : Machine σ α ε)

/-- A condition on one step: state before it, history so far, label. -/
abbrev StepCond (σ α ε : Type) := σ → List ε → α → Prop

/-- The condition every step meets. -/
def anyStep : StepCond σ α ε := fun _ _ _ => True

/-- `m.Reach ok s h`: some run whose steps all meet `ok` ends in state `s`
having emitted the events `h`. -/
inductive Reach (ok : StepCond σ α ε) : σ → List ε → Prop
  | init {s : σ} : m.Init s → Reach ok s []
  | step {s s' : σ} {h es : List ε} {a : α} :
      Reach ok s h → ok s h a → m.step s a = some (s', es) →
      Reach ok s' (h ++ es)

variable {m}

/-- The invariant rule along a run: a step may use what is known of every reachable
state, besides the invariant. -/
theorem Reach.invariant_along {ok : StepCond σ α ε} (inv : σ → List ε → Prop)
    (hinit : ∀ s, m.Init s → inv s [])
    (hstep : ∀ s h a s' es, m.Reach ok s h → inv s h → ok s h a →
      m.step s a = some (s', es) → inv s' (h ++ es))
    {s : σ} {h : List ε} (hr : m.Reach ok s h) : inv s h := by
  induction hr with
  | init hs => exact hinit _ hs
  | step hr hok hs ih => exact hstep _ _ _ _ _ hr ih hok hs

/-- The invariant rule: what holds initially and is kept by every conforming
step holds of every reachable state together with its history. -/
theorem Reach.invariant {ok : StepCond σ α ε} (inv : σ → List ε → Prop)
    (hinit : ∀ s, m.Init s → inv s [])
    (hstep : ∀ s h a s' es, inv s h → ok s h a →
      m.step s a = some (s', es) → inv s' (h ++ es))
    {s : σ} {h : List ε} (hr : m.Reach ok s h) : inv s h :=
  hr.invariant_along inv hinit fun s h a s' es _ => hstep s h a s' es

/-- A weaker step condition admits every run of the stronger one. -/
theorem Reach.mono {ok ok' : StepCond σ α ε}
    (hle : ∀ s h a, ok s h a → ok' s h a)
    {s : σ} {h : List ε} (hr : m.Reach ok s h) : m.Reach ok' s h := by
  induction hr with
  | init hs => exact .init hs
  | step _ hok hs ih => exact .step ih (hle _ _ _ hok) hs

/-- Every conforming run is a run. -/
theorem Reach.any {ok : StepCond σ α ε} {s : σ} {h : List ε}
    (hr : m.Reach ok s h) : m.Reach anyStep s h :=
  hr.mono fun _ _ _ _ => trivial

/-- The simulation rule: if every step is one of the other machine, or a step that
changes nothing there, every run is a run of the other machine. -/
theorem Reach.simulate {τ β : Type} {m' : Machine τ β ε} (f : σ → τ)
    (hinit : ∀ s, m.Init s → m'.Init (f s))
    (hstep : ∀ s a s' es, m.step s a = some (s', es) →
      (∃ b, m'.step (f s) b = some (f s', es)) ∨ (f s' = f s ∧ es = []))
    {ok : StepCond σ α ε} {s : σ} {h : List ε} (hr : m.Reach ok s h) :
    m'.Reach anyStep (f s) h := by
  induction hr with
  | init hs => exact .init (hinit _ hs)
  | step _ _ hs ih =>
      rcases hstep _ _ _ _ hs with ⟨b, hb⟩ | ⟨hsame, rfl⟩
      · exact .step ih trivial hb
      · rw [hsame, List.append_nil]
        exact ih

/-! ## Runs from a given state -/

variable (m) in
/-- `m.Steps ok s h s' h'`: a run whose steps all meet `ok` leads from state
`s` with history `h` to state `s'` with history `h'`. -/
inductive Steps (ok : StepCond σ α ε) (s : σ) (h : List ε) : σ → List ε → Prop
  | refl : Steps ok s h s h
  | step {s' s'' : σ} {h' es : List ε} {a : α} :
      Steps ok s h s' h' → ok s' h' a → m.step s' a = some (s'', es) →
      Steps ok s h s'' (h' ++ es)

/-- Going on from a reachable state leads to reachable states. -/
theorem Reach.steps {ok : StepCond σ α ε} {s s' : σ} {h h' : List ε}
    (hr : m.Reach ok s h) (hs : m.Steps ok s h s' h') : m.Reach ok s' h' := by
  induction hs with
  | refl => exact hr
  | step _ hok hstep ih => exact .step ih hok hstep

/-- A first step followed by a run. -/
theorem Steps.head {ok : StepCond σ α ε} {s s₁ s' : σ} {h es h' : List ε} {a : α}
    (hok : ok s h a) (hstep : m.step s a = some (s₁, es))
    (hs : m.Steps ok s₁ (h ++ es) s' h') : m.Steps ok s h s' h' := by
  induction hs with
  | refl => exact .step .refl hok hstep
  | step _ hok' hstep' ih => exact .step ih hok' hstep'

/-- The invariant rule for runs from a given state. -/
theorem Steps.invariant {ok : StepCond σ α ε} (inv : σ → List ε → Prop)
    (hstep : ∀ s h a s' es, inv s h → ok s h a → m.step s a = some (s', es) →
      inv s' (h ++ es))
    {s s' : σ} {h h' : List ε} (hs : m.Steps ok s h s' h') (hinv : inv s h) : inv s' h' := by
  induction hs with
  | refl => exact hinv
  | step _ hok hs ih => exact hstep _ _ _ _ _ ih hok hs

/-! ## Events of a history -/

/-- An event of an extended history is one of the old events or one of the
new ones. -/
theorem append_eq_append_cons {h es h₁ h₂ : List ε} {e : ε}
    (heq : h ++ es = h₁ ++ e :: h₂) :
    (∃ h₂', h = h₁ ++ e :: h₂' ∧ h₂ = h₂' ++ es) ∨
      ∃ es₁, h₁ = h ++ es₁ ∧ es = es₁ ++ e :: h₂ := by
  rcases List.append_eq_append_iff.mp heq with ⟨es₁, hh₁, hes⟩ | ⟨t, hh, hcons⟩
  · exact Or.inr ⟨es₁, hh₁, hes⟩
  · cases t with
    | nil => exact Or.inr ⟨[], by simpa using hh.symm, by simpa using hcons.symm⟩
    | cons x t =>
        simp only [List.cons_append, List.cons.injEq] at hcons
        obtain ⟨rfl, hh₂⟩ := hcons
        exact Or.inl ⟨t, hh, hh₂⟩

/-- The events after the last one with `p`; all of them when there is none. -/
def sinceLast (p : ε → Bool) (h : List ε) : List ε :=
  h.foldl (fun acc e => if p e then [] else acc ++ [e]) []

theorem sinceLast_snoc (p : ε → Bool) (h : List ε) (e : ε) :
    sinceLast p (h ++ [e]) = if p e then [] else sinceLast p h ++ [e] := by
  simp [sinceLast]

theorem mem_of_mem_sinceLast {p : ε → Bool} {x : ε} {h : List ε}
    (hx : x ∈ sinceLast p h) : x ∈ h := by
  induction h using List.reverseRecOn with
  | nil => simp [sinceLast] at hx
  | append_singleton h e ih =>
      rw [sinceLast_snoc] at hx
      split at hx
      · cases hx
      · rcases List.mem_append.mp hx with hx | hx
        · exact List.mem_append_left _ (ih hx)
        · exact List.mem_append_right _ hx

/-- New events none of which has `p` extend what happened since. -/
theorem sinceLast_append {p : ε → Bool} {es : List ε} (hes : ∀ e ∈ es, p e = false)
    (h : List ε) : sinceLast p (h ++ es) = sinceLast p h ++ es := by
  induction es generalizing h with
  | nil => simp
  | cons e es ih =>
      have he : p e = false := hes e (by simp)
      rw [show h ++ e :: es = (h ++ [e]) ++ es by simp,
        ih (fun x hx => hes x (by simp [hx])), sinceLast_snoc]
      simp [he]

/-- After an event with `p` only the events that follow count. -/
theorem sinceLast_restart {p : ε → Bool} {e : ε} {es : List ε} (he : p e = true)
    (hes : ∀ x ∈ es, p x = false) (h : List ε) : sinceLast p (h ++ e :: es) = es := by
  rw [List.append_cons, sinceLast_append hes, sinceLast_snoc, if_pos he, List.nil_append]

/-- What happened after the last `x` happened after the last event with `p`,
if `x` did. -/
theorem mem_sinceLast_trans [DecidableEq ε] {p : ε → Bool} {x y : ε} {h : List ε}
    (hx : x ∈ sinceLast p h) (hy : y ∈ sinceLast (· = x) h) : y ∈ sinceLast p h := by
  induction h using List.reverseRecOn with
  | nil => simp [sinceLast] at hx
  | append_singleton h e ih =>
      rw [sinceLast_snoc] at hx hy ⊢
      split at hx
      · cases hx
      · rename_i hp
        split at hy
        · cases hy
        · rename_i hne
          rw [if_neg hp, List.mem_append]
          rcases List.mem_append.mp hx with hx | hx
          · rcases List.mem_append.mp hy with hy | hy
            · exact Or.inl (ih hx hy)
            · exact Or.inr hy
          · simp only [List.mem_singleton] at hx
            simp [hx] at hne

/-! ## What every run comes to -/

variable (m) in
/-- Within `n` steps every run from `s` with history `h` whose labels meet `ok`
comes to a state with `post`, and until then none of these labels is stuck. -/
def Ensures (ok : α → Prop) (post : σ → List ε → Prop) : Nat → σ → List ε → Prop
  | 0, s, h => post s h
  | n + 1, s, h => post s h ∨ ∀ a, ok a → ∃ s' es, m.step s a = some (s', es) ∧
      Ensures ok post n s' (h ++ es)

theorem Ensures.here {ok : α → Prop} {post : σ → List ε → Prop} {n : Nat} {s : σ}
    {h : List ε} (hp : post s h) : m.Ensures ok post n s h := by
  cases n with
  | zero => exact hp
  | succ n => exact Or.inl hp

theorem Ensures.next {ok : α → Prop} {post : σ → List ε → Prop} {n : Nat} {s : σ}
    {h : List ε} (hs : ∀ a, ok a → ∃ s' es, m.step s a = some (s', es) ∧
      m.Ensures ok post n s' (h ++ es)) : m.Ensures ok post (n + 1) s h :=
  Or.inr hs

/-- More steps do no harm. -/
theorem Ensures.more {ok : α → Prop} {post : σ → List ε → Prop} (k : Nat) :
    ∀ {n : Nat} {s : σ} {h : List ε}, m.Ensures ok post n s h →
      m.Ensures ok post (k + n) s h := by
  intro n
  induction n with
  | zero => exact fun hp => .here hp
  | succ n ih =>
      intro s h he
      rcases he with hp | hs
      · exact .here hp
      · refine .next fun a ha => ?_
        obtain ⟨s', es, hstep, hrest⟩ := hs a ha
        exact ⟨s', es, hstep, ih hrest⟩

/-- Sequencing: from the first postcondition on the runs go on to the second. -/
theorem Ensures.seq {ok : α → Prop} {mid post : σ → List ε → Prop} {k : Nat}
    (hmid : ∀ t h', mid t h' → m.Ensures ok post k t h') :
    ∀ {n : Nat} {s : σ} {h : List ε}, m.Ensures ok mid n s h →
      m.Ensures ok post (n + k) s h := by
  intro n
  induction n with
  | zero =>
      intro s h hp
      exact (hmid s h hp).more 0
  | succ n ih =>
      intro s h he
      rcases he with hp | hs
      · exact (hmid s h hp).more (n + 1)
      · rw [Nat.succ_add]
        refine .next fun a ha => ?_
        obtain ⟨s', es, hstep, hrest⟩ := hs a ha
        exact ⟨s', es, hstep, ih hrest⟩

/-- **Variants.**  If every allowed step from a state with the invariant and
without the postcondition is possible, keeps the invariant and lowers the rank,
all runs come to the postcondition, with the invariant. -/
theorem Ensures.of_rank {ok : α → Prop} {post : σ → List ε → Prop}
    (inv : σ → List ε → Prop) (rank : σ → Nat)
    (hpost : ∀ s h, inv s h → rank s = 0 → post s h)
    (hstep : ∀ s h, inv s h → ¬post s h → ∀ a, ok a → ∃ s' es, m.step s a = some (s', es) ∧
      inv s' (h ++ es) ∧ rank s' < rank s) :
    ∀ (n : Nat) {s : σ} {h : List ε}, inv s h → rank s ≤ n →
      m.Ensures ok (fun s h => post s h ∧ inv s h) n s h := by
  intro n
  induction n with
  | zero => exact fun {s} {h} hinv hrank => ⟨hpost s h hinv (Nat.le_zero.mp hrank), hinv⟩
  | succ n ih =>
      intro s h hinv hrank
      by_cases hp : post s h
      · exact .here ⟨hp, hinv⟩
      · refine .next fun a ha => ?_
        obtain ⟨s', es, hs, hinv', hlt⟩ := hstep s h hinv hp a ha
        exact ⟨s', es, hs, ih hinv' (by omega)⟩

/-- What allowed steps keep holds in the end as well. -/
theorem Ensures.and_invariant {ok : α → Prop} {post : σ → List ε → Prop}
    (inv : σ → List ε → Prop)
    (hstep : ∀ s h a s' es, inv s h → ok a → m.step s a = some (s', es) →
      inv s' (h ++ es)) :
    ∀ {n : Nat} {s : σ} {h : List ε}, inv s h → m.Ensures ok post n s h →
      m.Ensures ok (fun s h => post s h ∧ inv s h) n s h := by
  intro n
  induction n with
  | zero => exact fun hinv hp => ⟨hp, hinv⟩
  | succ n ih =>
      intro s h hinv he
      rcases he with hp | hs
      · exact .here ⟨hp, hinv⟩
      · refine .next fun a ha => ?_
        obtain ⟨s', es, hstep', hrest⟩ := hs a ha
        exact ⟨s', es, hstep', ih (hstep _ _ _ _ _ hinv ha hstep') hrest⟩

/-- Fewer labels allowed. -/
theorem Ensures.restrict {ok ok' : α → Prop} {post : σ → List ε → Prop}
    (hle : ∀ a, ok' a → ok a) :
    ∀ {n : Nat} {s : σ} {h : List ε}, m.Ensures ok post n s h → m.Ensures ok' post n s h := by
  intro n
  induction n with
  | zero => exact fun hp => hp
  | succ n ih =>
      intro s h he
      rcases he with hp | hs
      · exact .here hp
      · refine .next fun a ha => ?_
        obtain ⟨s', es, hstep, hrest⟩ := hs a (hle a ha)
        exact ⟨s', es, hstep, ih hrest⟩

/-- A weaker postcondition. -/
theorem Ensures.imp {ok : α → Prop} {post post' : σ → List ε → Prop}
    (himp : ∀ s h, post s h → post' s h) :
    ∀ {n : Nat} {s : σ} {h : List ε}, m.Ensures ok post n s h → m.Ensures ok post' n s h := by
  intro n
  induction n with
  | zero => exact fun hp => himp _ _ hp
  | succ n ih =>
      intro s h he
      rcases he with hp | hs
      · exact .here (himp _ _ hp)
      · refine .next fun a ha => ?_
        obtain ⟨s', es, hstep, hrest⟩ := hs a ha
        exact ⟨s', es, hstep, ih hrest⟩

/-- If some label is allowed, some run comes to the postcondition. -/
theorem Ensures.exists_steps {ok : α → Prop} {post : σ → List ε → Prop} {a : α}
    (ha : ok a) : ∀ {n : Nat} {s : σ} {h : List ε}, m.Ensures ok post n s h →
      ∃ s' h', m.Steps (fun _ _ a => ok a) s h s' h' ∧ post s' h' := by
  intro n
  induction n with
  | zero => exact fun {s} {h} hp => ⟨s, h, .refl, hp⟩
  | succ n ih =>
      intro s h he
      rcases he with hp | hs
      · exact ⟨s, h, .refl, hp⟩
      · obtain ⟨s₁, es, hstep, hrest⟩ := hs a ha
        obtain ⟨s', h', hrun, hp⟩ := ih hrest
        exact ⟨s', h', .head ha hstep hrun, hp⟩

/-! ## Evaluating a run -/

/-- Run the labels in order from state `s` and history `h`, stopping with
`none` at a label that is not enabled or whose step does not meet `ok`. -/
def exec (m : Machine σ α ε) (ok : StepCond σ α ε)
    [∀ s h a, Decidable (ok s h a)] : σ → List ε → List α →
    Option (σ × List ε)
  | s, h, [] => some (s, h)
  | s, h, a :: as =>
      if ok s h a then
        match m.step s a with
        | some (s', es) => exec m ok s' (h ++ es) as
        | none => none
      else none

theorem exec_reach {ok : StepCond σ α ε} [∀ s h a, Decidable (ok s h a)] :
    ∀ (as : List α) {s t : σ} {h h' : List ε}, m.Reach ok s h →
      m.exec ok s h as = some (t, h') → m.Reach ok t h' := by
  intro as
  induction as with
  | nil =>
      intro s t h h' hr he
      simp only [exec, Option.some.injEq, Prod.mk.injEq] at he
      obtain ⟨rfl, rfl⟩ := he
      exact hr
  | cons a as ih =>
      intro s t h h' hr he
      simp only [exec] at he
      split at he
      · rename_i hok
        split at he
        · rename_i s' es hs
          exact ih (.step hr hok hs) he
        · cases he
      · cases he

instance : ∀ (s : σ) (h : List ε) (a : α), Decidable (anyStep s h a) :=
  fun _ _ _ => isTrue trivial

variable (m) in
/-- A run evaluated to a state and history on which a test `p` succeeds gives
a reachable state and history with `p`. -/
theorem exists_reach_of_exec (ok : StepCond σ α ε)
    [∀ s h a, Decidable (ok s h a)] {s : σ} (hs : m.Init s) (as : List α)
    (p : σ → List ε → Bool)
    (he : (m.exec ok s [] as).any (fun r => p r.1 r.2) = true) :
    ∃ t h, m.Reach ok t h ∧ p t h = true := by
  cases hx : m.exec ok s [] as with
  | none => simp [hx] at he
  | some r =>
      rw [hx] at he
      exact ⟨r.1, r.2, exec_reach as (.init hs) hx, he⟩

end Machine

end Iriseus.Verified
