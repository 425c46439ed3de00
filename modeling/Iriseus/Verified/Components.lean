import Iriseus.Verified.Machine

/-!
# A component inside a system

A system of many parts moves by letting one of them move.  If every step of the
system either leaves a part alone, creates it, or is a step of the part's own
machine, then what the part has done in a run of the system is a run of that
machine.  So a property of all runs of the part alone, in an environment that
its labels leave arbitrary, is a property of the part in every run of the
system.

## Main results

* `Reach.component` — the run of a part inside a run of the system.
-/

namespace Iriseus.Verified.Machine

variable {σ α ε τ β η : Type}

/-- How a step of a system looks from one of its parts: `part` is the part, once
it exists, and `view` picks its events. -/
inductive PartMove (m' : Machine τ β η) (view : ε → Option η) :
    Option τ → Option τ → List ε → Prop
  | rests {t : Option τ} {es : List ε} (hquiet : es.filterMap view = []) :
      PartMove m' view t t es
  | appears {t : τ} {es : List ε} (hinit : m'.Init t) (hquiet : es.filterMap view = []) :
      PartMove m' view none (some t) es
  | moves {t t' : τ} {b : β} {es : List ε}
      (hstep : m'.step t b = some (t', es.filterMap view)) :
      PartMove m' view (some t) (some t') es

/-- **Projection.**  The events of a part are a run of its machine. -/
theorem Reach.component {m : Machine σ α ε} {m' : Machine τ β η} (part : σ → Option τ)
    (view : ε → Option η) (hinit : ∀ s, m.Init s → part s = none)
    (hstep : ∀ s a s' es, m.step s a = some (s', es) →
      PartMove m' view (part s) (part s') es)
    {ok : StepCond σ α ε} {s : σ} {h : List ε} (hr : m.Reach ok s h) :
    (part s = none → h.filterMap view = []) ∧
      ∀ t, part s = some t → m'.Reach anyStep t (h.filterMap view) := by
  induction hr with
  | init hs => exact ⟨fun _ => rfl, fun t ht => by simp [hinit _ hs] at ht⟩
  | @step s s' h es a _ _ hs ih =>
      rw [List.filterMap_append]
      have hmove := hstep _ _ _ _ hs
      generalize part s = p at hmove ih
      generalize part s' = p' at hmove
      cases hmove with
      | rests hquiet =>
          rw [hquiet, List.append_nil]
          exact ih
      | appears hstart hquiet =>
          refine ⟨by simp, fun t ht => ?_⟩
          cases ht
          rw [hquiet, List.append_nil, ih.1 rfl]
          exact .init hstart
      | moves hgo =>
          refine ⟨by simp, fun t ht => ?_⟩
          cases ht
          exact .step (ih.2 _ rfl) trivial hgo

end Iriseus.Verified.Machine
