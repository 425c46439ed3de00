import Iriseus.Core.TransferMachine
import Iriseus.Verified.Components

/-!
# One data connection in the whole system

What a connection does depends on the rest of the system only through what it
sees in each step: the server's flags and sessions and the files.
`connectionMachine` is a connection alone, in an environment that its labels
leave arbitrary; every connection of every run of the system is a run of it
(`connection_reach`).

## Main results

* `connection_reach` — the run of a connection inside a run of the system.
* `DownloadMove`, `serveDownload_cases` — all that a sending connection can do.
-/

namespace Iriseus.Core

open Iriseus.Verified
open Iriseus.Verified.ByteStream
open Iriseus.Verified.Machine

/-! ## A connection alone -/

/-- What a connection does, and for which session. -/
abbrev SessionEffect (κ : Type) := ActiveTransferSession × Effect κ

/-- A connection with everything around it in the label: the server, the files,
and how its call ends. -/
def connectionMachine {κ : Type} (P : Platform κ) (H : IncrementalHash) :
    Machine (Connection H) (FileTransferServer × FileStore κ × Input) (SessionEffect κ) where
  Init conn := conn = .handshake
  step conn a := (conn.step P H a.1 a.2.1 a.2.2).map fun r => (r.1, r.2.toList)

/-- The effect of connection `c`, if the event is one. -/
def effectOf {κ : Type} (c : Nat) : TransferEvent κ → Option (SessionEffect κ)
  | .connection c' s e => if c' = c then some (s, e) else none
  | _ => none

/-- What connection `c` has done. -/
def effectsOf {κ : Type} (c : Nat) (h : List (TransferEvent κ)) : List (SessionEffect κ) :=
  h.filterMap (effectOf c)

/-- The handshake and the session of a connection that is served. -/
def Connection.served? {H : IncrementalHash} :
    Connection H → Option (FileTransferHandshake × ActiveTransferSession)
  | .serving hs s _ => some (hs, s)
  | _ => none

theorem Connection.served_eq_some {H : IncrementalHash} {conn : Connection H}
    {r : FileTransferHandshake × ActiveTransferSession} (h : conn.served? = some r) :
    ∃ pc, conn = .serving r.1 r.2 pc := by
  unfold Connection.served? at h
  split at h
  · cases h
    exact ⟨_, rfl⟩
  · cases h

section Projection

variable {κ : Type} {P : Platform κ} {H : IncrementalHash}

theorem effectsOf_of_forall {es : List (TransferEvent κ)}
    (h : ∀ c s e, .connection c s e ∉ es) (c : Nat) : effectsOf c es = [] := by
  refine List.filterMap_eq_nil_iff.mpr fun x hx => ?_
  cases x with
  | connection c' s e => exact absurd hx (h c' s e)
  | _ => rfl

theorem effectsOf_of_minor {es : List (TransferEvent κ)} (h : ∀ e ∈ es, e.minor = true)
    (c : Nat) : effectsOf c es = [] := by
  refine effectsOf_of_forall (fun c' s e hmem => ?_) c
  have hminor := h _ hmem
  simp [TransferEvent.minor] at hminor

/-- A step of connection `c'`, seen from connection `c`. -/
theorem partMove_conn {w : World κ H} {c' : Nat} {inp : Input} {conn conn' : Connection H}
    {eff : Option (SessionEffect κ)} {es : List (TransferEvent κ)}
    (hold : w.conns[c']? = some conn)
    (hmove : conn.step P H w.manager.server w.fs inp = some (conn', eff))
    (hes : ∀ c, effectsOf c es = if c' = c then eff.toList else []) (c : Nat) :
    PartMove (connectionMachine P H) (effectOf c) w.conns[c]? (w.conns.set c' conn')[c]? es := by
  by_cases hc : c' = c
  · subst hc
    have hnew : (w.conns.set c' conn')[c']? = some conn' :=
      List.getElem?_set_self (List.getElem?_eq_some_iff.mp hold).1
    rw [hold, hnew]
    refine .moves (b := (w.manager.server, w.fs, inp)) ?_
    have hseen : es.filterMap (effectOf c') = eff.toList := by simpa [effectsOf] using hes c'
    simp [connectionMachine, hmove, hseen]
  · rw [List.getElem?_set_ne hc]
    refine .rests ?_
    simpa [effectsOf, hc] using hes c

variable [DecidableEq κ]

/-- **Every step** of the system leaves a connection alone, creates it, or is one of
its own. -/
theorem transition_partMove {w w' : World κ H} {a : TransferAction κ}
    {es : List (TransferEvent κ)} (ht : Transition P w a w' es) (c : Nat) :
    PartMove (connectionMachine P H) (effectOf c) w.conns[c]? w'.conns[c]? es := by
  cases ht with
  | control _ htab => exact .rests (effectsOf_of_forall htab.not_connection c)
  | clean _ htab => exact .rests (effectsOf_of_forall htab.not_connection c)
  | callback _ _ htab => exact .rests (effectsOf_of_forall htab.not_connection c)
  | cleanFile _ _ htab =>
      refine .rests (effectsOf_of_forall (fun c' s e hmem => ?_) c)
      simp only [List.mem_cons, reduceCtorEq, false_or] at hmem
      exact htab.not_connection c' s e hmem
  | create _ => exact .rests rfl
  | accept =>
      rcases Nat.lt_trichotomy c w.conns.length with hlt | heq | hgt
      · rw [List.getElem?_append_left hlt]
        exact .rests rfl
      · subst heq
        simp only [List.getElem?_concat_length, List.getElem?_eq_none (Nat.le_refl _)]
        exact .appears rfl rfl
      · rw [List.getElem?_eq_none hgt.le,
          List.getElem?_eq_none (by rw [List.length_append]; exact hgt)]
        exact .rests rfl
  | connQuiet hold hmove => exact partMove_conn hold hmove (fun c => by simp [effectsOf]) c
  | connFile hold hmove =>
      refine partMove_conn hold hmove (fun c => ?_) c
      simp only [effectsOf, List.filterMap_cons, effectOf, List.filterMap_nil]
      split <;> simp_all
  | connEffect hold hmove _ _ hminor =>
      refine partMove_conn hold hmove (fun c => ?_) c
      have hquiet := effectsOf_of_minor hminor c
      simp only [effectsOf] at hquiet
      simp only [effectsOf, List.filterMap_cons, effectOf, hquiet]
      split <;> simp_all

/-- **Projection.**  In every run of the system what a connection has done is a
run of the connection alone. -/
theorem connection_reach {ok : StepCond (World κ H) (TransferAction κ) (TransferEvent κ)}
    {w : World κ H} {h : List (TransferEvent κ)}
    (hr : (transferMachine P H).Reach ok w h) {c : Nat} {conn : Connection H}
    (hc : w.conns[c]? = some conn) :
    (connectionMachine P H).Reach anyStep conn (effectsOf c h) := by
  refine (hr.component (fun w => w.conns[c]?) (effectOf c) ?_ ?_).2 conn hc
  · rintro w ⟨-, -, -, hconns⟩
    simp [hconns]
  · intro w a w' es hs
    exact transition_partMove (step_cases hs) c

end Projection

/-! ## Sending -/

section Download

variable {κ : Type} {P : Platform κ} {H : IncrementalHash} {v : View κ}
variable {s : ActiveTransferSession}

/-- How many bytes the sending loop asks for. -/
def Sending.toRead (s : ActiveTransferSession) (t : Sending) : Nat :=
  (min (UInt64.ofNat kChunkPlaintextSize) (s.expectedSize - t.totalSent)).toNat

/-- The loop's variables after a chunk. -/
def Sending.advance (t : Sending) (chunk : Bytes) : Sending :=
  { t with totalSent := t.totalSent + UInt64.ofNat chunk.length }

/-- All the ways in which mode 1 moves. -/
inductive DownloadMove (H : IncrementalHash) (v : View κ) (s : ActiveTransferSession) :
    DownloadPc → Pc H → Effect κ → Prop
  | opens {i : Nat} :
      DownloadMove H v s .openSource
        (.download (.sendHead
          { source := { file := i, pos := 0, good := true }, totalSent := 0 }))
        (.file (.openRead i))
  | opensNot : DownloadMove H v s .openSource (.failed "Arquivo local inacessível") .silent
  | goesOn {t : Sending} (hlt : t.totalSent < s.expectedSize) :
      DownloadMove H v s (.sendHead t) (.download (.sendRead t)) .silent
  | leaves {t : Sending} :
      DownloadMove H v s (.sendHead t) (.download (.closeSource t false)) .silent
  | reads {t : Sending} {got : Bytes} {source : InStream} (hsome : got ≠ [])
      (hle : got.length ≤ t.toRead s) :
      DownloadMove H v s (.sendRead t)
        (.download (.sendLen { t with source := source } got)) (.read got)
  | readsNothing {t : Sending} {source : InStream} :
      DownloadMove H v s (.sendRead t)
        (.download (.closeSource { t with source := source } false)) (.read [])
  | sendsLen {t : Sending} {chunk : Bytes} :
      DownloadMove H v s (.sendLen t chunk) (.download (.sendBody t chunk))
        (.send (encodeBe32 chunk.length))
  | cutsLen {t : Sending} {chunk : Bytes} (n : Nat) :
      DownloadMove H v s (.sendLen t chunk) (.download (.closeSource t true))
        (.send ((encodeBe32 chunk.length).take n))
  | sendsBody {t : Sending} {chunk : Bytes} :
      DownloadMove H v s (.sendBody t chunk) (.download (.sendReport t chunk)) (.send chunk)
  | cutsBody {t : Sending} {chunk : Bytes} (n : Nat) :
      DownloadMove H v s (.sendBody t chunk) (.download (.closeSource t true))
        (.send (chunk.take n))
  | reports {t : Sending} {chunk : Bytes} :
      DownloadMove H v s (.sendReport t chunk) (.download (.sendHead (t.advance chunk)))
        (.progress (t.advance chunk).totalSent)
  | closes {t : Sending} {error : Bool} :
      DownloadMove H v s (.closeSource t error) (.download (.sendCheck t.totalSent error))
        (.file (.close t.source.file 0 []))
  | fails {totalSent : UInt64} {error : Bool} :
      DownloadMove H v s (.sendCheck totalSent error) (.failed "Envio interrompido") .silent
  | completes (hlive : v.cancelled = false) :
      DownloadMove H v s (.sendCheck s.expectedSize false) (.download .sentAll) .silent
  | finishes : DownloadMove H v s .sentAll .done (.finished true "")

/-- A read returns at most what was asked for. -/
theorem InStream.length_le_of_read {t t' : InStream} {fs : FileStore κ} {toRead : Nat}
    {inp : Input} {got : Bytes} (h : t.read fs toRead inp = some (got, t')) :
    got.length ≤ toRead := by
  unfold InStream.read at h
  split at h
  · split at h <;> cases h
    · rw [List.length_take]
      exact Nat.min_le_left _ _
    · exact Nat.zero_le _
  · simp only at h
    split at h <;> cases h
    rename_i hshort
    exact hshort.2.le
  · cases h

theorem serveDownload_cases {pc : DownloadPc} {inp : Input} {pc' : Pc H} {e : Effect κ}
    (h : serveDownload P H v s pc inp = some (pc', e)) : DownloadMove H v s pc pc' e := by
  cases pc with
  | openSource =>
      simp only [serveDownload] at h
      (repeat' split at h) <;> cases h
      · exact .opens
      · exact .opensNot
      · exact .opensNot
  | sendHead t =>
      simp only [serveDownload] at h
      split at h
      · split at h <;> cases h
        · rename_i hgo
          simp only [Bool.and_eq_true, decide_eq_true_eq] at hgo
          exact .goesOn hgo.2
        · exact .leaves
      · cases h
  | sendRead t =>
      simp only [serveDownload] at h
      split at h
      · rename_i got source hread
        split at h <;> cases h
        · rename_i hnone
          rw [hnone]
          exact .readsNothing
        · exact .reads ‹_› (InStream.length_le_of_read hread)
      · cases h
  | sendLen t chunk =>
      simp only [serveDownload] at h
      split at h <;> cases h
      · exact .sendsLen
      · exact .cutsLen _
  | sendBody t chunk =>
      simp only [serveDownload] at h
      split at h <;> cases h
      · exact .sendsBody
      · exact .cutsBody _
  | sendReport t chunk =>
      simp only [serveDownload] at h
      split at h <;> cases h
      exact .reports
  | closeSource t error =>
      simp only [serveDownload] at h
      split at h <;> cases h
      exact .closes
  | sendCheck totalSent error =>
      simp only [serveDownload] at h
      split at h
      · split at h <;> cases h
        · exact .fails
        · rename_i hgood
          simp only [Bool.or_eq_true, decide_eq_true_eq, not_or, Bool.not_eq_true,
            not_not] at hgood
          obtain ⟨⟨rfl, hlive⟩, rfl⟩ := hgood
          exact .completes hlive
      · cases h
  | sentAll =>
      simp only [serveDownload] at h
      split at h <;> cases h
      exact .finishes

end Download

end Iriseus.Core
