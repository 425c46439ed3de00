import Mathlib.Data.Finset.Card
import Mathlib.Data.Fintype.Defs
import Iriseus.Verified.Secrecy

/-!
# Guessing a secret

The state a machine starts in depends on a secret.  Somebody who sees all but the secret
chooses every label from what has been seen so far, and is told of some steps whether
they hit.  If the machine keeps its secret but for that, and no step hits two secrets,
then each time somebody is told at most one more secret can have been hit: a plan that
is told `k` times hits at most `k` of the secrets.

The reason is that the runs with two secrets are the same until one of them hits.

## Main results

* `Guessable.firstHit_ne` — two secrets are not first hit by the same guess.
* `Guessable.card_le` — how many secrets are hit in `k` guesses.
-/

namespace Iriseus.Verified.Machine

variable {σ α ε τ ω δ : Type} (m : Machine σ α ε) (o : Observer σ α ε τ ω Bool)

/-- The events of `n` steps whose labels are chosen by `plan` from what has been seen. -/
def play (plan : List ω → Option α) : Nat → List ω → σ → List ε
  | 0, _, _ => []
  | n + 1, seen, s =>
      match (plan seen).bind (m.step s) with
      | none => []
      | some (s', es) => es ++ play plan n (seen ++ es.map o.see) s'

theorem play_run (plan : List ω → Option α) (n : Nat) :
    ∀ (seen : List ω) (s : σ), ∃ as s', m.Run s as s' (m.play o plan n seen s) := by
  induction n with
  | zero => exact fun seen s => ⟨[], s, .nil⟩
  | succ n ih =>
      intro seen s
      rw [play]
      split
      · exact ⟨[], s, .nil⟩
      · rename_i s' es hstep
        obtain ⟨a, -, hs⟩ := Option.bind_eq_some_iff.mp hstep
        obtain ⟨as, t, hrun⟩ := ih (seen ++ es.map o.see) s'
        exact ⟨a :: as, t, .cons hs hrun⟩

/-- The number of guesses told to have missed before the first that hit. -/
def Observer.firstHit (o : Observer σ α ε τ ω Bool) (es : List ε) : Option Nat :=
  (o.told es).findIdx? id

theorem Observer.firstHit_append {es : List ε} (hes : true ∉ o.told es) (fs : List ε) :
    o.firstHit (es ++ fs) = (o.firstHit fs).map (· + (o.told es).length) := by
  have hmiss : (o.told es).findIdx? id = none :=
    List.findIdx?_eq_none_iff.mpr fun b hb => by
      cases b with
      | false => rfl
      | true => exact absurd hb hes
  rw [firstHit, o.told_append, List.findIdx?_append, hmiss, Option.none_or]
  rfl

/-- One of the first `k` guesses has hit. -/
def Observer.hitIn (o : Observer σ α ε τ ω Bool) (k : Nat) (es : List ε) : Bool :=
  ((o.told es).take k).any id

theorem Observer.firstHit_of_hitIn {k : Nat} {es : List ε} (h : o.hitIn k es = true) :
    ∃ i < k, o.firstHit es = some i := by
  rw [hitIn, ← List.findIdx?_isSome] at h
  obtain ⟨i, hi⟩ := Option.isSome_iff_exists.mp h
  have hlt := (List.findIdx?_eq_some_iff_findIdx_eq.mp hi).1
  refine ⟨i, by rw [List.length_take] at hlt; omega, ?_⟩
  rw [firstHit, ← List.take_append_drop k (o.told es), List.findIdx?_append, hi, Option.some_or]

/-- Told different things first, two runs are not first hit by the same guess. -/
theorem firstHit_none_of_head_ne {xs ys : List Bool} (hne : xs.head? ≠ ys.head?)
    (heq : xs.findIdx? id = ys.findIdx? id) : xs.findIdx? id = none := by
  cases xs with
  | nil => rfl
  | cons x xs =>
      cases ys with
      | nil => exact heq
      | cons y ys =>
          cases x <;> cases y <;> simp [List.findIdx?_cons] at hne heq

/-- A machine that keeps its secret `d`, as `inv d` says, but for the hits. -/
structure Guessable (allowed : α → Prop) (inv : δ → σ → Prop) : Prop where
  unwinds : m.Unwinds o
  same : ∀ a, o.same a a
  enabled : ∀ {s t a}, o.view s = o.view t → allowed a → m.step s a = none →
    m.step t a = none
  /-- A step that does not hit leaves the secret. -/
  keeps : ∀ {d s a s' es}, inv d s → allowed a → m.step s a = some (s', es) →
    true ∉ o.told es → inv d s'
  /-- A step hits one secret only. -/
  unique : ∀ {c d s t a s' t' es fs}, inv c s → inv d t →
    m.step s a = some (s', es) → m.step t a = some (t', fs) →
    true ∈ o.told es → true ∈ o.told fs → c = d

namespace Guessable

variable {m o} {allowed : α → Prop} {inv : δ → σ → Prop} {plan : List ω → Option α}

/-- Two secrets are not first hit by the same guess. -/
theorem firstHit_ne (hg : m.Guessable o allowed inv)
    (hplan : ∀ seen a, plan seen = some a → allowed a) {c d : δ} (hne : c ≠ d) (n : Nat) :
    ∀ {s t : σ} (seen : List ω), inv c s → inv d t → o.view s = o.view t →
      o.firstHit (m.play o plan n seen s) = o.firstHit (m.play o plan n seen t) →
      o.firstHit (m.play o plan n seen s) = none := by
  induction n with
  | zero => exact fun _ _ _ _ _ => rfl
  | succ n ih =>
      intro s t seen hs ht hview heq
      cases ha : plan seen with
      | none => simp [play, ha, Observer.firstHit, Observer.told]
      | some a =>
          have hallowed := hplan seen a ha
          cases hstep : m.step s a with
          | none => simp [play, ha, hstep, Observer.firstHit, Observer.told]
          | some r =>
              obtain ⟨s', es⟩ := r
              cases hstep' : m.step t a with
              | none => rw [hg.enabled hview.symm hallowed hstep'] at hstep; cases hstep
              | some r =>
                  obtain ⟨t', fs⟩ := r
                  simp only [play, ha, Option.bind_some, hstep, hstep'] at heq ⊢
                  rcases hg.unwinds.step hview (hg.same a) hstep hstep' with
                    ⟨hview', hsee⟩ | hapart
                  · have htold := Observer.told_eq hsee
                    have hmiss : true ∉ o.told es := fun hit =>
                      hne (hg.unique hs ht hstep hstep' hit (htold ▸ hit))
                    have hmiss' : true ∉ o.told fs := htold ▸ hmiss
                    rw [o.firstHit_append hmiss, o.firstHit_append hmiss', htold, ← hsee] at heq
                    rw [o.firstHit_append hmiss]
                    have hrest := ih (seen ++ es.map o.see) (hg.keeps hs hallowed hstep hmiss)
                      (hg.keeps ht hallowed hstep' hmiss') hview'
                      (Option.map_injective (fun i j h => Nat.add_right_cancel h) heq)
                    rw [hrest, Option.map_none]
                  · obtain ⟨as, s₁, hrun⟩ := m.play_run o plan n (seen ++ es.map o.see) s'
                    obtain ⟨bs, t₁, hrun'⟩ := m.play_run o plan n (seen ++ fs.map o.see) t'
                    exact firstHit_none_of_head_ne (hapart _ _ _ _ _ _ hrun hrun') heq

/-- **Few secrets are hit.**  Whatever is done and in whatever order, for at most `k` of
the secrets one of the first `k` guesses hits. -/
theorem card_le [Fintype δ] (hg : m.Guessable o allowed inv)
    (hplan : ∀ seen a, plan seen = some a → allowed a) {start : δ → σ}
    (hstart : ∀ d, inv d (start d)) (hview : ∀ c d, o.view (start c) = o.view (start d))
    (n k : Nat) (seen : List ω) :
    (Finset.univ.filter fun d =>
      o.hitIn k (m.play o plan n seen (start d)) = true).card ≤ k := by
  have hfirst : ∀ d ∈ Finset.univ.filter fun d =>
      o.hitIn k (m.play o plan n seen (start d)) = true,
      ∃ i < k, o.firstHit (m.play o plan n seen (start d)) = some i := fun d hd =>
    o.firstHit_of_hitIn (Finset.mem_filter.mp hd).2
  refine (Finset.card_le_card_of_injOn (t := Finset.range k)
    (fun d => (o.firstHit (m.play o plan n seen (start d))).getD k) (fun d hd => ?_)
    (fun c hc d hd heq => ?_)).trans_eq (Finset.card_range k)
  · obtain ⟨i, hlt, hi⟩ := hfirst d hd
    simpa [hi] using hlt
  · obtain ⟨i, -, hi⟩ := hfirst c hc
    obtain ⟨j, -, hj⟩ := hfirst d hd
    by_contra hne
    have hnone := hg.firstHit_ne hplan hne n seen (hstart c) (hstart d) (hview c d)
      (by simpa [hi, hj] using heq)
    rw [hi] at hnone
    cases hnone

end Guessable

end Iriseus.Verified.Machine
