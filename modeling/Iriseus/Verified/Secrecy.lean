import Mathlib.Data.List.Forall2
import Iriseus.Verified.Progress

/-!
# What a machine keeps to itself

Part of a machine's state and of its labels is secret.  An observer sees the rest
of the state and something of every event; some of what it sees it may learn about
the secrets.  The machine keeps them if two runs whose labels differ in secrets only
look the same to the observer, unless they tell it different things.

One step is enough to look at (`Unwinds`): from states that look the same it leads to
states that look the same and is seen the same, or the two runs have been told apart
for good.

## Main results

* `Unwinds.run` — two runs that tell the same look the same.
-/

namespace Iriseus.Verified.Machine

variable {σ α ε τ ω β : Type}

/-- Who looks at a machine. -/
structure Observer (σ α ε τ ω β : Type) where
  /-- What is not secret of a state. -/
  view : σ → τ
  see : ε → ω
  /-- What may be learnt from what is seen. -/
  tell : ω → Option β
  /-- The labels differ in secrets only. -/
  same : α → α → Prop

/-- What the events tell. -/
def Observer.told (o : Observer σ α ε τ ω β) (es : List ε) : List β :=
  (es.map o.see).filterMap o.tell

theorem Observer.told_append (o : Observer σ α ε τ ω β) (es fs : List ε) :
    o.told (es ++ fs) = o.told es ++ o.told fs := by
  simp [Observer.told]

theorem Observer.told_eq {o : Observer σ α ε τ ω β} {es fs : List ε}
    (h : es.map o.see = fs.map o.see) : o.told es = o.told fs :=
  congrArg (List.filterMap o.tell) h

variable (m : Machine σ α ε) (o : Observer σ α ε τ ω β)

/-- After these events the two runs are told different things first, however they go on. -/
def ToldApart (s t : σ) (es fs : List ε) : Prop :=
  ∀ as bs s' t' es' fs', m.Run s as s' es' → m.Run t bs t' fs' →
    (o.told (es ++ es')).head? ≠ (o.told (fs ++ fs')).head?

variable {m o} in
theorem ToldApart.symm {s t : σ} {es fs : List ε} (h : m.ToldApart o s t es fs) :
    m.ToldApart o t s fs es :=
  fun _ _ _ _ _ _ ht hs => Ne.symm (h _ _ _ _ _ _ hs ht)

/-- A step keeps the secrets or tells. -/
structure Unwinds : Prop where
  step : ∀ {s t a b s' t' es fs}, o.view s = o.view t → o.same a b →
    m.step s a = some (s', es) → m.step t b = some (t', fs) →
    (o.view s' = o.view t' ∧ es.map o.see = fs.map o.see) ∨ m.ToldApart o s' t' es fs

variable {m o}

/-- **Secrets are kept**: what two runs look like depends on their secrets through what
they tell. -/
theorem Unwinds.run (hu : m.Unwinds o) {as bs : List α} (hsame : List.Forall₂ o.same as bs) :
    ∀ {s t s' t' : σ} {es fs : List ε}, o.view s = o.view t → m.Run s as s' es →
      m.Run t bs t' fs → o.told es = o.told fs →
      o.view s' = o.view t' ∧ es.map o.see = fs.map o.see := by
  induction hsame with
  | nil =>
      intro s t s' t' es fs hview hs ht _
      cases hs
      cases ht
      exact ⟨hview, rfl⟩
  | cons hab _ ih =>
      intro s t s' t' es fs hview hs ht htold
      cases hs with
      | cons hstep hrun =>
          cases ht with
          | cons hstep' hrun' =>
              rcases hu.step hview hab hstep hstep' with ⟨hview', hsee⟩ | hapart
              · rw [o.told_append, o.told_append, Observer.told_eq hsee,
                  List.append_cancel_left_eq] at htold
                obtain ⟨hend, hrest⟩ := ih hview' hrun hrun' htold
                exact ⟨hend, by rw [List.map_append, List.map_append, hsee, hrest]⟩
              · exact absurd (congrArg List.head? htold) (hapart _ _ _ _ _ _ hrun hrun')

end Iriseus.Verified.Machine
