import Mathlib.Data.List.Basic

/-!
# Calls into a library

A library keeps objects for its clients and is called in some order.  A call that must
not be made, on an object that does not exist or through a null pointer, has no result
(`none`), and nothing can be said of what follows it.  A client owns certain objects at
any time; if each of its operations makes calls that lead from the objects owned before
to those owned after it, or one that must not be made, so does every sequence of them.

## Main results

* `Api.run_append` — calls one after the other.
* `Api.run_perform` — the operations of a client one after the other.
-/

namespace Iriseus.Verified

/-- The objects of a library, and what a call does to them. -/
structure Api (ω γ : Type) where
  call : ω → γ → Option ω

namespace Api

variable {ω γ ρ α : Type} (api : Api ω γ)

/-- A sequence of calls. -/
def run (objects : ω) (calls : List γ) : Option ω := calls.foldlM api.call objects

@[simp] theorem run_nil (objects : ω) : api.run objects [] = some objects := rfl

theorem run_cons (objects : ω) (c : γ) (calls : List γ) :
    api.run objects (c :: calls) = (api.call objects c).bind fun s => api.run s calls := rfl

theorem run_append (objects : ω) (calls calls' : List γ) :
    api.run objects (calls ++ calls') =
      (api.run objects calls).bind fun s => api.run s calls' :=
  List.foldlM_append

/-- The operations of a client, each with the calls it makes. -/
def perform (op : ρ → α → ρ × List γ) : ρ → List α → ρ × List γ
  | r, [] => (r, [])
  | r, a :: as =>
      let r' := op r a
      let rest := perform op r'.1 as
      (rest.1, r'.2 ++ rest.2)

/-- An operation on a client with `inv` keeps `inv`, and its calls lead from the objects
owned before it to those owned after it, or are wrong where it is not `good`. -/
structure Manages (inv : ρ → Prop) (owned : ρ → ω) (op : ρ → α → ρ × List γ)
    (good : α → Bool) : Prop where
  keeps : ∀ {r}, inv r → ∀ a, inv (op r a).1
  calls : ∀ {r}, inv r → ∀ a,
    api.run (owned r) (op r a).2 = if good a then some (owned (op r a).1) else none

variable {api} {inv : ρ → Prop} {owned : ρ → ω} {op : ρ → α → ρ × List γ} {good : α → Bool}

theorem Manages.perform_keeps (hm : api.Manages inv owned op good) (as : List α) :
    ∀ {r : ρ}, inv r → inv (perform op r as).1 := by
  induction as with
  | nil => exact fun hinv => hinv
  | cons a as ih => exact fun hinv => ih (hm.keeps hinv a)

/-- **Operation after operation.**  The calls are in order exactly if every operation is
good. -/
theorem Manages.run_perform (hm : api.Manages inv owned op good) (as : List α) :
    ∀ {r : ρ}, inv r → api.run (owned r) (perform op r as).2 =
      if as.all good then some (owned (perform op r as).1) else none := by
  induction as with
  | nil => exact fun _ => rfl
  | cons a as ih =>
      intro r hinv
      rw [perform, run_append, hm.calls hinv a, List.all_cons]
      cases hgood : good a with
      | false => rfl
      | true =>
          rw [if_pos rfl, Option.bind_some, ih (hm.keeps hinv a), Bool.true_and]

end Api

end Iriseus.Verified
