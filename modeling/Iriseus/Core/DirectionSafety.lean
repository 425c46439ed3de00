import Iriseus.Core.TransferMachine

/-!
# The direction of the data

A transfer is registered with a direction, and the handshake of a connection
carries a direction byte.  The body of the connection looks at the byte only:
it is never compared with the registered direction.

`ModeInv` follows the byte from the handshake to the mode.  When every
connection that passes the token check presents the byte of its session's
direction, or a byte that is no direction, files are read for downloads only
and changed for uploads only (`data_flows_as_registered`).
-/

namespace Iriseus.Core

open Iriseus.Verified
open Iriseus.Verified.ByteStream

variable {κ : Type} [DecidableEq κ] {P : Platform κ} {H : IncrementalHash}

/-- No connection reads a file or sends bytes for an upload, or changes a file
for a download. -/
def FlowsAsRegistered (h : List (TransferEvent κ)) : Prop :=
  ∀ c s e, .connection c s e ∈ h →
    (s.direction = .mobileUploadToPc → e.readsFile = false) ∧
    (s.direction = .desktopDownloadToMobile → e.changesFile = false)

/-- A connection whose token is checked presents the direction byte its
session was registered with, or one that stands for no direction. -/
def DirectionMatches :
    Machine.StepCond (World κ H) (TransferAction κ) (TransferEvent κ) :=
  fun w _ a =>
    match a with
    | .conn c _ =>
        match w.conns[c]? with
        | some (.validate hs s) =>
            hs.direction = s.direction.toByte ∨
              (hs.direction ≠ TransferDirection.mobileUploadToPc.toByte ∧
                hs.direction ≠ TransferDirection.desktopDownloadToMobile.toByte)
        | _ => True
    | _ => True

instance : ∀ w h a, Decidable (DirectionMatches (κ := κ) (H := H) w h a) := by
  intro w h a
  unfold DirectionMatches
  split
  · split <;> infer_instance
  · infer_instance

/-- The mode of the body after the handshake. -/
theorem mode_dispatch (s : ActiveTransferSession) (b : UInt8)
    (hb : b = s.direction.toByte ∨
      (b ≠ TransferDirection.mobileUploadToPc.toByte ∧
        b ≠ TransferDirection.desktopDownloadToMobile.toByte)) :
    (Pc.dispatch b : Pc H).mode = none ∨
      (Pc.dispatch b : Pc H).mode = some s.direction := by
  rcases hb with rfl | ⟨hup, hdown⟩
  · right
    cases hd : s.direction <;> rfl
  · left
    simp [Pc.mode, hup, hdown]

/-- A connection in a mode is in its session's, and so was every effect. -/
structure ModeInv (w : World κ H) (h : List (TransferEvent κ)) : Prop where
  mode : ∀ (c : Nat) (hs : FileTransferHandshake) (s : ActiveTransferSession) (pc : Pc H),
    w.conns[c]? = some (.serving hs s pc) → pc.mode = none ∨ pc.mode = some s.direction
  flows : FlowsAsRegistered h

/-- **One step.** -/
theorem modeInv_step {w w' : World κ H} {h es : List (TransferEvent κ)}
    {a : TransferAction κ} (hI : ModeInv w h) (hok : DirectionMatches w h a)
    (hs : transferStep P H w a = some (w', es)) : ModeInv w' (h ++ es) := by
  have ht := step_cases hs
  refine { mode := ?_, flows := ?_ }
  · intro c hs' s pc hc
    rcases step_conn ht hc with ⟨-, hold⟩ | hnew | ⟨inp, conn, eff, rfl, hold, hmove, -⟩
    · exact hI.mode c hs' s pc hold
    · cases hnew
    · cases hmove with
      | authenticated htoken =>
          simp only [DirectionMatches, hold] at hok
          exact mode_dispatch s hs'.direction hok
      | serves hserve =>
          rcases (serve_mode hserve).1 with hnone | hsame
          · exact Or.inl hnone
          · rw [hsame]
            exact hI.mode c hs' s _ hold
  · intro c s e hmem
    rcases List.mem_append.mp hmem with hold | hnew
    · exact hI.flows c s e hold
    · obtain ⟨es₁, es₂, hes⟩ := List.append_of_mem hnew
      obtain ⟨-, inp, conn, conn', rfl, hc, -, hmove⟩ := step_connection_event ht hes
      cases hmove with
      | found => exact ⟨fun _ => rfl, fun _ => rfl⟩
      | authenticated => exact ⟨fun _ => rfl, fun _ => rfl⟩
      | @serves _ hs' _ pc _ _ hserve =>
          obtain ⟨-, hchanges, hreads, -⟩ := serve_mode hserve
          have hmode := hI.mode c hs' s pc hc
          constructor
          · intro hdir
            by_contra hr
            obtain ⟨d, rfl⟩ := hreads (by simpa using hr)
            simp [Pc.mode, hdir] at hmode
          · intro hdir
            by_contra hr
            obtain ⟨u, rfl⟩ := hchanges (by simpa using hr)
            simp [Pc.mode, hdir] at hmode

/-- **Data flows in the registered direction**, in every run whose connections
present the direction byte of their sessions. -/
theorem data_flows_as_registered {w : World κ H} {h : List (TransferEvent κ)}
    (hr : (transferMachine P H).Reach DirectionMatches w h) : FlowsAsRegistered h := by
  have hI : ModeInv w h := by
    refine Machine.Reach.invariant _ ?_ ?_ hr
    · rintro w ⟨-, -, -, hconns⟩
      exact { mode := by simp [hconns], flows := by simp [FlowsAsRegistered] }
    · intro w h a w' es hI hok hs
      exact modeInv_step hI hok hs
  exact hI.flows

/-- A run with a matching direction byte in which a file is created. -/
theorem data_flows_sampleUpload :
    ∃ w h, (transferMachine samplePlatform sha256).Reach DirectionMatches w h ∧
      (h.any fun e => match e with
        | .connection 0 _ (.file (.openTrunc _)) => true
        | _ => false) = true ∧ FlowsAsRegistered h := by
  obtain ⟨w, h, hr, hh⟩ := Machine.exists_reach_of_exec
    (transferMachine samplePlatform sha256) DirectionMatches
    (s := worldWith []) (worldWith_init [])
    ([.control (.start true), offerAction 1 "a" 4 "" 7] ++ connectActions 0 1 7 0 ++
      [.conn 0 .go])
    (fun _ h => h.any fun e => match e with
      | .connection 0 _ (.file (.openTrunc _)) => true
      | _ => false)
    (by decide +kernel)
  exact ⟨w, h, hr, hh, data_flows_as_registered hr⟩

/-- A peer that offers a file under the name of one received earlier is sent
that file when its handshake carries the other direction byte. -/
theorem received_file_read_back :
    ¬∀ w h, (transferMachine samplePlatform sha256).Reach Machine.anyStep w h →
      FlowsAsRegistered h := by
  intro hall
  obtain ⟨w, h, hr, hh⟩ := Machine.exists_reach_of_exec
    (transferMachine samplePlatform sha256) Machine.anyStep
    (s := worldWith [("D/Iriseus/a", [1, 2, 3])]) (worldWith_init _)
    ([.control (.start true), offerAction 1 "a" 3 "" 7] ++ connectActions 0 1 7 1 ++
      [.conn 0 .go, .conn 0 .go, .conn 0 .go, .conn 0 .go, .conn 0 .go])
    (fun _ h => h.any fun e => match e with
      | .connection _ s (.send bs) =>
          decide (s.direction = .mobileUploadToPc ∧ bs = [1, 2, 3])
      | _ => false)
    (by decide +kernel)
  obtain ⟨e, hmem, he⟩ := List.any_eq_true.mp hh
  split at he
  · rename_i c s bs
    simp only [decide_eq_true_eq] at he
    have := ((hall w h hr) c s (.send bs) hmem).1 he.1
    simp [Effect.readsFile] at this
  · cases he

end Iriseus.Core
