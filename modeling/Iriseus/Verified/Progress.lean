import Iriseus.Verified.Machine

/-!
# How long a machine can still run

`Ensures` speaks of all runs whose labels are all enabled.  Threads that wait
for one another are a different case: most labels are disabled most of the
time, and the question is whether all of them are before the work is done.
Here a run carries its labels, and a rank that every step lowers bounds the
length of every run, whatever the order in which the threads move.

## Main results

* `WindsDown.length_le` — no run is longer than the rank of the state it starts in.
* `WindsDown.exists_rest` — the labels of some kind can be taken until none of
  them is enabled.
* `Run.invariant` — what the steps of a kind keep holds at the end of a run of them.
* `exists_run_of_exec` — a run can be evaluated.
-/

namespace Iriseus.Verified.Machine

variable {σ α ε : Type} (m : Machine σ α ε)

/-- `m.Run s as s' es`: the labels `as` lead from `s` to `s'` and emit `es`. -/
inductive Run : σ → List α → σ → List ε → Prop
  | nil {s : σ} : Run s [] s []
  | cons {s s₁ s' : σ} {a : α} {as : List α} {es es' : List ε} :
      m.step s a = some (s₁, es) → Run s₁ as s' es' → Run s (a :: as) s' (es ++ es')

/-- No label with `own` is enabled. -/
def Rest (own : α → Bool) (s : σ) : Prop := ∀ a, own a = true → m.step s a = none

variable {m}

/-- An evaluated run is a run. -/
theorem Run.of_exec (as : List α) : ∀ {s t : σ} {h h' : List ε},
    m.exec anyStep s h as = some (t, h') → ∃ es, h' = h ++ es ∧ m.Run s as t es := by
  induction as with
  | nil =>
      intro s t h h' he
      simp only [exec, Option.some.injEq, Prod.mk.injEq] at he
      obtain ⟨rfl, rfl⟩ := he
      exact ⟨[], by simp, .nil⟩
  | cons a as ih =>
      intro s t h h' he
      simp only [exec, if_pos (show anyStep s h a from trivial)] at he
      split at he
      · rename_i s₁ es hs
        obtain ⟨es', rfl, hrun⟩ := ih he
        exact ⟨es ++ es', by simp, .cons hs hrun⟩
      · cases he

variable (m) in
/-- A run evaluated to a state and events on which a test `p` succeeds. -/
theorem exists_run_of_exec (s : σ) (as : List α) (p : σ → List ε → Bool)
    (he : (m.exec anyStep s [] as).any (fun r => p r.1 r.2) = true) :
    ∃ t es, m.Run s as t es ∧ p t es = true := by
  obtain ⟨r, hx, hp⟩ := (Option.any_eq_true _ _).mp he
  obtain ⟨es, hes, hrun⟩ := Run.of_exec as hx
  exact ⟨r.1, r.2, by rwa [hes, List.nil_append], hp⟩

/-- What the steps whose labels have `own` keep holds at the end of a run of
such labels. -/
theorem Run.invariant {own : α → Bool} (inv : σ → Prop)
    (hstep : ∀ s a s' es, inv s → own a = true → m.step s a = some (s', es) → inv s')
    {s s' : σ} {as : List α} {es : List ε} (hrun : m.Run s as s' es)
    (hown : ∀ a ∈ as, own a = true) (hinv : inv s) : inv s' := by
  induction hrun with
  | nil => exact hinv
  | cons hs _ ih =>
      exact ih (fun a ha => hown a (List.mem_cons_of_mem _ ha))
        (hstep _ _ _ _ hinv (hown _ List.mem_cons_self) hs)

variable (m) in
/-- Every step from a state with the invariant keeps it and lowers the rank. -/
structure WindsDown (inv : σ → Prop) (rank : σ → Nat) : Prop where
  keeps : ∀ {s a s' es}, inv s → m.step s a = some (s', es) → inv s'
  lowers : ∀ {s a s' es}, inv s → m.step s a = some (s', es) → rank s' < rank s

namespace WindsDown

variable {inv : σ → Prop} {rank : σ → Nat}

/-- The rank pays for every step of a run. -/
theorem length_add_le (hw : m.WindsDown inv rank) {s s' : σ} {as : List α} {es : List ε}
    (hrun : m.Run s as s' es) : inv s → as.length + rank s' ≤ rank s := by
  induction hrun with
  | nil => exact fun _ => by simp
  | cons hs _ ih =>
      intro hinv
      have hrest := ih (hw.keeps hinv hs)
      have hlt := hw.lowers hinv hs
      rw [List.length_cons]
      omega

theorem length_le (hw : m.WindsDown inv rank) {s s' : σ} {as : List α} {es : List ε}
    (hinv : inv s) (hrun : m.Run s as s' es) : as.length ≤ rank s :=
  le_trans (Nat.le_add_right _ _) (hw.length_add_le hrun hinv)

/-- **Rest is reached.**  The enabled labels with `own` can be taken, in some
order, until none is enabled. -/
theorem exists_rest (hw : m.WindsDown inv rank) (own : α → Bool) :
    ∀ {s : σ}, inv s → ∃ as s' es, (∀ a ∈ as, own a = true) ∧ m.Run s as s' es ∧
      m.Rest own s' := by
  intro s
  induction hn : rank s using Nat.strong_induction_on generalizing s with
  | _ n ih =>
      intro hinv
      by_cases hrest : m.Rest own s
      · exact ⟨[], s, [], fun a ha => absurd ha List.not_mem_nil, .nil, hrest⟩
      · simp only [Rest, not_forall, exists_prop] at hrest
        obtain ⟨a, ha, hstep⟩ := hrest
        obtain ⟨⟨s₁, es⟩, hs⟩ := Option.ne_none_iff_exists'.mp hstep
        have hlt : rank s₁ < n := hn ▸ hw.lowers hinv hs
        obtain ⟨as, s', es', hown, hrun, hend⟩ := ih (rank s₁) hlt rfl (hw.keeps hinv hs)
        refine ⟨a :: as, s', es ++ es', fun b hb => ?_, .cons hs hrun, hend⟩
        rcases List.mem_cons.mp hb with rfl | hb
        · exact ha
        · exact hown b hb

end WindsDown

end Iriseus.Verified.Machine
