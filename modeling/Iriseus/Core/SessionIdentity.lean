import Iriseus.Core.Outcomes

/-!
# Registered sessions and their references

A session is the record a registration creates; its reference stands for the
shared object.  Every registration takes a new reference, so that among the
sessions ever registered the reference determines the session.  The sessions
of the table and those of the connections were all registered.
-/

namespace Iriseus.Core

open Iriseus.Verified
open Iriseus.Verified.Machine

variable {κ : Type}

/-- What the history registers for an identifier was registered. -/
theorem registered_of_entryOf {h : List (TransferEvent κ)} {id : String}
    {s : ActiveTransferSession} (hs : entryOf h id = some s) : .registered s ∈ h := by
  induction h using List.reverseRecOn with
  | nil => cases hs
  | append_singleton h e ih =>
      rw [entryOf_snoc] at hs
      cases e with
      | registered s' =>
          by_cases hid : id = s'.transferId
          · subst hid
            rw [afterTableEvent, Function.update_self, Option.some.injEq] at hs
            simp [hs]
          · rw [afterTableEvent, Function.update_of_ne hid] at hs
            exact List.mem_append_left _ (ih hs)
      | erased id' =>
          by_cases hid : id = id'
          · subst hid
            rw [afterTableEvent, Function.update_self] at hs
            cases hs
          · rw [afterTableEvent, Function.update_of_ne hid] at hs
            exact List.mem_append_left _ (ih hs)
      | cleared => cases hs
      | _ => exact List.mem_append_left _ (ih hs)

theorem FoundAt.registered {h : List (TransferEvent κ)} {c : Nat}
    {hs : FileTransferHandshake} {s : ActiveTransferSession} (hf : FoundAt h c hs s) :
    .registered s ∈ h := by
  obtain ⟨h₀, h₁, rfl, hentry, -⟩ := hf
  exact List.mem_append_left _ (registered_of_entryOf hentry)

/-- A change of the tables registers at most one session, which takes the next
reference. -/
theorem TableStep.registered_once {t t' : Tables} {es : List (TransferEvent κ)}
    (ht : TableStep t t' es) {s : ActiveTransferSession} (hs : .registered s ∈ es) :
    t'.nextRef = t.nextRef + 1 ∧ ∀ s', .registered s' ∈ es → s' = s := by
  cases ht with
  | offer _ _ _ _ _ hpre hpost =>
      simp only [List.mem_append, List.mem_cons, not_registered_of_minor hpre,
        not_registered_of_minor hpost, reduceCtorEq, TransferEvent.registered.injEq,
        false_or, or_false] at hs ⊢
      exact ⟨trivial, fun s' hs' => hs'.trans hs.symm⟩
  | reoffer _ _ _ _ _ hpost =>
      simp only [List.mem_cons, not_registered_of_minor hpost,
        TransferEvent.registered.injEq, or_false] at hs ⊢
      exact ⟨trivial, fun s' hs' => hs'.trans hs.symm⟩
  | told hes => exact absurd hs (not_registered_of_minor hes s)
  | _ => simp at hs

section Steps

variable [DecidableEq κ] {P : Platform κ} {H : IncrementalHash}

theorem Transition.registered_once {w w' : World κ H} {a : TransferAction κ}
    {es : List (TransferEvent κ)} (ht : Transition P w a w' es) {s : ActiveTransferSession}
    (hs : .registered s ∈ es) :
    w'.manager.server.nextRef = w.manager.server.nextRef + 1 ∧
      ∀ s', .registered s' ∈ es → s' = s := by
  cases ht with
  | control _ ht => exact ht.registered_once hs
  | clean _ ht => exact ht.registered_once hs
  | callback _ _ ht => exact ht.registered_once hs
  | cleanFile _ _ ht =>
      simp only [List.mem_cons, reduceCtorEq, false_or] at hs ⊢
      exact ht.registered_once hs
  | accept | connQuiet | connFile | create => simp at hs
  | connEffect _ _ _ _ hminor => simp [not_registered_of_minor hminor] at hs

/-- The references of the sessions registered so far. -/
structure RegisteredInv (w : World κ H) (h : List (TransferEvent κ)) : Prop where
  fresh : ∀ s, .registered s ∈ h → s.ref < w.manager.server.nextRef
  unique : ∀ s s', .registered s ∈ h → .registered s' ∈ h → s.ref = s'.ref → s = s'

/-- **One step.** -/
theorem registeredInv_step {w w' : World κ H} {a : TransferAction κ}
    {h es : List (TransferEvent κ)} (hI : RegisteredInv w h) (hR : RefInv w)
    (ht : Transition P w a w' es) : RegisteredInv w' (h ++ es) := by
  obtain ⟨-, hle, hnew⟩ := refInv_step hR ht
  refine { fresh := ?_, unique := ?_ }
  · intro s hs
    rcases List.mem_append.mp hs with hold | hs
    · exact lt_of_lt_of_le (hI.fresh s hold) hle
    · have hnext := (ht.registered_once hs).1
      have href := hnew s hs
      omega
  · intro s s' hs hs' heq
    rcases List.mem_append.mp hs with hold | hs
    · rcases List.mem_append.mp hs' with hold' | hs'
      · exact hI.unique s s' hold hold' heq
      · have hlt := hI.fresh s hold
        have href := hnew s' hs'
        omega
    · rcases List.mem_append.mp hs' with hold' | hs'
      · have hlt := hI.fresh s' hold'
        have href := hnew s hs
        omega
      · exact (ht.registered_once hs').2 s hs

theorem registeredInv_reach {ok : StepCond (World κ H) (TransferAction κ) (TransferEvent κ)}
    {w : World κ H} {h : List (TransferEvent κ)}
    (hr : (transferMachine P H).Reach ok w h) : RegisteredInv w h ∧ RefInv w := by
  refine Machine.Reach.invariant (fun w h => RegisteredInv w h ∧ RefInv w) ?_ ?_ hr
  · intro w hinit
    have hempty : w.manager.server.sessions = ∅ := by rw [hinit.2.2.1]
    exact ⟨{ fresh := by simp, unique := by simp },
      { table := by simp [hempty], conns := by simp [hinit.2.2.2] }⟩
  · rintro w h a w' es ⟨hI, hR⟩ - hs
    have ht := step_cases hs
    exact ⟨registeredInv_step hI hR ht, (refInv_step hR ht).1⟩

omit [DecidableEq κ] in
/-- In the table the reference determines the entry. -/
theorem table_ref {w : World κ H} {h : List (TransferEvent κ)} (hT : TokenInv w h)
    (hI : RegisteredInv w h) {id id' : String} {s s' : ActiveTransferSession}
    (hl : w.manager.server.sessions.lookup id = some s)
    (hl' : w.manager.server.sessions.lookup id' = some s') (href : s.ref = s'.ref) :
    id = id' ∧ s = s' := by
  have hs : .registered s ∈ h := registered_of_entryOf ((hT.entries id).symm.trans hl)
  have hs' : .registered s' ∈ h := registered_of_entryOf ((hT.entries id').symm.trans hl')
  obtain rfl := hI.unique s s' hs hs' href
  exact ⟨(hT.key id s hl).1.symm.trans (hT.key id' s hl').1, rfl⟩

end Steps

end Iriseus.Core
