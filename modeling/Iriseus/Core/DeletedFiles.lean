import Iriseus.Core.ConnectionRuns
import Iriseus.Core.FileFrame

/-!
# Files that connections received, and files that were deleted

Which files a connection has received can be read off what it has done: it has
opened a file for writing and closed its stream.  A file that has been deleted,
or has lost its name otherwise, never gets a name again.

## Main results

* `fileFacts_reach` — in every run, deleted files have no name and closed files
  are known to the store.
* `receivedBy_of_unopened` — a connection that has not opened its temporary file
  has received nothing.
-/

namespace Iriseus.Core

open Iriseus.Verified
open Iriseus.Verified.Machine

variable {κ : Type} {P : Platform κ} {H : IncrementalHash}

/-! ## Received and deleted files, read off the history -/

/-- The effect opens a file for writing. -/
def Effect.opensTrunc : Effect κ → Bool
  | .file (.openTrunc _) => true
  | _ => false

/-- The file whose stream the effect closes. -/
def Effect.closes : Effect κ → Option Nat
  | .file (.close i _ _) => some i
  | _ => none

theorem Effect.closes_eq_some {e : Effect κ} {i : Nat} (h : e.closes = some i) :
    ∃ pos data, e = .file (.close i pos data) := by
  unfold Effect.closes at h
  split at h <;> cases h
  exact ⟨_, _, rfl⟩

/-- The files a connection with these effects has written and closed; one that
only sends opens none for writing. -/
def receivedFiles (es : List (SessionEffect κ)) : List Nat :=
  if es.any fun r => r.2.opensTrunc then es.filterMap fun r => r.2.closes else []

/-- The files connection `c` has received. -/
def receivedBy (c : Nat) (h : List (TransferEvent κ)) : List Nat :=
  receivedFiles (effectsOf c h)

/-- The file an event deletes. -/
def TransferEvent.deletes : TransferEvent κ → Option Nat
  | .fileOp _ (.remove _) hit _ => hit
  | _ => none

def deletedIn (h : List (TransferEvent κ)) (i : Nat) : Bool :=
  h.any fun e => decide (e.deletes = some i)

theorem deletedIn_iff {h : List (TransferEvent κ)} {i : Nat} :
    deletedIn h i = true ↔ ∃ e ∈ h, e.deletes = some i := by
  simp [deletedIn]

theorem deletedIn_append {h es : List (TransferEvent κ)} {i : Nat} :
    deletedIn (h ++ es) i = true ↔ deletedIn h i = true ∨ deletedIn es i = true := by
  simp [deletedIn]

theorem TransferEvent.isFileOp_of_deletes {e : TransferEvent κ} {i : Nat}
    (h : e.deletes = some i) : e.isFileOp = true := by
  cases e <;> first | rfl | cases h

/-- A received file was closed by the connection. -/
theorem mem_receivedBy {c : Nat} {h : List (TransferEvent κ)} {i : Nat}
    (hi : i ∈ receivedBy c h) :
    ∃ s pos data, .connection c s (.file (.close i pos data)) ∈ h := by
  unfold receivedBy receivedFiles at hi
  split at hi
  · obtain ⟨⟨s, e⟩, hmem, hcloses⟩ := List.mem_filterMap.mp hi
    obtain ⟨x, hx, heffect⟩ := List.mem_filterMap.mp hmem
    cases x with
    | connection c' s' e' =>
        simp only [effectOf] at heffect
        split at heffect <;> cases heffect
        rename_i hc
        subst hc
        obtain ⟨pos, data, rfl⟩ := Effect.closes_eq_some hcloses
        exact ⟨s, pos, data, hx⟩
    | _ => cases heffect
  · cases hi

/-- What another part of the system does leaves what a connection has received
alone. -/
theorem receivedBy_append_of_quiet {c : Nat} {h es : List (TransferEvent κ)}
    (hquiet : effectsOf c es = []) : receivedBy c (h ++ es) = receivedBy c h := by
  simp only [receivedBy, effectsOf, List.filterMap_append] at hquiet ⊢
  rw [hquiet, List.append_nil]

/-- A step that neither opens nor closes. -/
theorem receivedBy_snoc {c : Nat} {h es : List (TransferEvent κ)}
    {s : ActiveTransferSession} {e : Effect κ} (heffects : effectsOf c es = [(s, e)])
    (hopens : e.opensTrunc = false) (hcloses : e.closes = none) :
    receivedBy c (h ++ es) = receivedBy c h := by
  simp only [receivedBy, receivedFiles, effectsOf, List.filterMap_append] at heffects ⊢
  simp [heffects, hopens, hcloses]

/-! ## Connections that have not opened their file -/

/-- The body has not opened a file for writing. -/
def Pc.unopened : Pc H → Bool
  | .dispatch _ => true
  | .upload .openTemp => true
  | .download _ => true
  | _ => false

def Connection.unopened : Connection H → Bool
  | .handshake => true
  | .lookup _ => true
  | .validate _ _ => true
  | .serving _ _ pc => pc.unopened
  | .closed => false

/-- **One step of a body** that leads to a point before the opening. -/
theorem serve_unopened {v : View κ} {s : ActiveTransferSession} {pc pc' : Pc H}
    {inp : Input} {e : Effect κ} (h : serve P H v s pc inp = some (pc', e))
    (hpc : pc'.unopened = true) : pc.unopened = true ∧ e.opensTrunc = false := by
  cases pc with
  | dispatch b =>
      simp only [serve] at h
      (repeat' split at h) <;> cases h <;> exact ⟨rfl, rfl⟩
  | upload pc =>
      exfalso
      simp only [serve] at h
      cases pc <;> simp only [serveUpload] at h <;> (repeat' split at h) <;> cases h <;>
        cases hpc
  | download pc =>
      refine ⟨rfl, ?_⟩
      have hchanges := (serveDownload_mode h).2.1
      unfold Effect.opensTrunc
      split
      · cases hchanges
      · rfl
  | failed error =>
      simp only [serve] at h
      split at h <;> cases h
      cases hpc
  | done => simp [serve] at h

/-- Such a connection has opened no file for writing. -/
theorem unopened_run {conn : Connection H} {es : List (SessionEffect κ)}
    (hr : (connectionMachine P H).Reach anyStep conn es) (hconn : conn.unopened = true) :
    ∀ r ∈ es, r.2.opensTrunc = false := by
  refine Reach.invariant (fun conn es => conn.unopened = true →
    ∀ r ∈ es, r.2.opensTrunc = false) ?_ ?_ hr hconn
  · simp
  · intro conn es a conn' new hI _ hs hconn'
    obtain ⟨⟨conn₁, eff⟩, hmove, heq⟩ := Option.map_eq_some_iff.mp hs
    cases heq
    have hstep : conn.unopened = true ∧ ∀ r ∈ eff, r.2.opensTrunc = false := by
      cases Connection.step_cases hmove with
      | greeted | found | authenticated => simp [Connection.unopened, Effect.opensTrunc]
      | ends => cases hconn'
      | serves hserve =>
          obtain ⟨hpc, he⟩ := serve_unopened hserve hconn'
          exact ⟨hpc, by simpa using he⟩
    intro r hr
    rcases List.mem_append.mp hr with hold | hnew
    · exact hI hstep.1 r hold
    · exact hstep.2 r (by simpa using hnew)

section Steps

variable [DecidableEq κ]

/-- A connection that has not opened its temporary file has received nothing. -/
theorem receivedBy_of_unopened {ok : StepCond (World κ H) (TransferAction κ) (TransferEvent κ)}
    {w : World κ H} {h : List (TransferEvent κ)} (hr : (transferMachine P H).Reach ok w h)
    {c : Nat} {conn : Connection H} (hc : w.conns[c]? = some conn)
    (hconn : conn.unopened = true) : receivedBy c h = [] := by
  have hnone := unopened_run (connection_reach hr hc) hconn
  unfold receivedBy receivedFiles
  rw [if_neg]
  simpa using fun s e he => hnone (s, e) he

/-! ## What is known of these files in every run -/

structure FileFacts (w : World κ H) (h : List (TransferEvent κ)) : Prop where
  store : StoreInv w
  deleted : ∀ i, deletedIn h i = true → i < w.fs.next ∧ FileOp.Nameless w.fs i
  closed : ∀ c s i pos data, .connection c s (.file (.close i pos data)) ∈ h →
    i < w.fs.next

omit [DecidableEq κ] in
theorem FileFacts.received {w : World κ H} {h : List (TransferEvent κ)} (hF : FileFacts w h)
    {c i : Nat} (hi : i ∈ receivedBy c h) : i < w.fs.next := by
  obtain ⟨s, pos, data, hmem⟩ := mem_receivedBy hi
  exact hF.closed c s i pos data hmem

variable {w w' : World κ H} {a : TransferAction κ} {h es : List (TransferEvent κ)}

/-- Numbers that were handed out stay so. -/
theorem Transition.next_le (ht : Transition P w a w' es) : w.fs.next ≤ w'.fs.next := by
  rcases ht.files with ⟨hfs, -⟩ | ⟨op, hfs, -⟩
  · rw [hfs]
  · rw [hfs]
    exact FileOp.next_le w.fs op

/-- No step gives a file in use a name again. -/
theorem Transition.nameless (ht : Transition P w a w' es) {i : Nat} (hi : i < w.fs.next)
    (hnameless : FileOp.Nameless w.fs i) : FileOp.Nameless w'.fs i := by
  rcases ht.files with ⟨hfs, -⟩ | ⟨op, hfs, -⟩
  · rwa [hfs]
  · rw [hfs]
    exact hnameless.apply hi op

/-- A file that a step deletes has no name after it. -/
theorem Transition.deletes (hwf : w.fs.WF) (ht : Transition P w a w' es) {i : Nat}
    (hdel : deletedIn es i = true) : i < w.fs.next ∧ FileOp.Nameless w'.fs i := by
  obtain ⟨e, he, hdel⟩ := deletedIn_iff.mp hdel
  have hloud := TransferEvent.isFileOp_of_deletes hdel
  rcases ht.files with ⟨-, hquiet⟩ | ⟨op, hfs, ⟨s, es₁, es₂, rfl, hes₁, hes₂⟩ | ⟨-, hquiet⟩⟩
  · simp [hquiet e he] at hloud
  · -- the only file operation is the one that is performed
    obtain rfl : e = .fileOp s op (op.hits w.fs) (op.makes w.fs) := by
      rcases List.mem_append.mp he with hbefore | hrest
      · simp [hes₁ e hbefore] at hloud
      · exact (List.mem_cons.mp hrest).resolve_right fun hafter => by
          simp [hes₂ e hafter] at hloud
    cases op with
    | remove k =>
        have hhit : (FileOp.remove k).hits w.fs = some i := hdel
        have hname : w.fs.names k = some i := by
          simp only [FileOp.hits] at hhit
          split at hhit
          · exact hhit
          · cases hhit
        exact ⟨hwf.nameLt k i hname, hfs ▸ FileOp.nameless_remove hwf hhit⟩
    | _ => cases hdel
  · simp [hquiet e he] at hloud

/-- **One step.** -/
theorem fileFacts_step (hF : FileFacts w h) (hs : transferStep P H w a = some (w', es)) :
    FileFacts w' (h ++ es) := by
  have ht := step_cases hs
  refine { store := storeInv_step hF.store ht, deleted := ?_, closed := ?_ }
  · intro i hdel
    rcases deletedIn_append.mp hdel with hold | hnew
    · obtain ⟨hlt, hnameless⟩ := hF.deleted i hold
      exact ⟨hlt.trans_le ht.next_le, ht.nameless hlt hnameless⟩
    · obtain ⟨hlt, hnameless⟩ := ht.deletes hF.store.wf hnew
      exact ⟨hlt.trans_le ht.next_le, hnameless⟩
  · intro c s i pos data hmem
    refine Nat.lt_of_lt_of_le ?_ ht.next_le
    rcases List.mem_append.mp hmem with hold | hnew
    · exact hF.closed c s i pos data hold
    · -- the closed stream was open
      obtain ⟨es₁, es₂, rfl⟩ := List.append_of_mem hnew
      obtain ⟨-, inp, conn, conn', rfl, hold, -, hmove⟩ := step_connection_event ht rfl
      have hopen := hmove.stream.1
      exact hF.store.wf.handleLt i (hF.store.handles.mem_iff.mpr
        (List.mem_filterMap.mpr ⟨conn, List.mem_of_getElem? hold, hopen⟩))

theorem fileFacts_reach {ok : StepCond (World κ H) (TransferAction κ) (TransferEvent κ)}
    (hr : (transferMachine P H).Reach ok w h) : FileFacts w h := by
  refine hr.invariant (fun w h => FileFacts w h) ?_ ?_
  · intro w hw
    exact { store := storeInv_init hw, deleted := by simp [deletedIn], closed := by simp }
  · intro w h a w' es hF _ hs
    exact fileFacts_step hF hs

end Steps

end Iriseus.Core
