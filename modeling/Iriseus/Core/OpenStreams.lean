import Iriseus.Core.TransferMachine

/-!
# Streams and open handles

Each connection has at most one open stream.  The handles of the file store
are, up to order, exactly those streams' files (`StoreInv.handles`), so a file
that can be renamed or removed is open in no connection.
-/

namespace Iriseus.Core

open Iriseus.Verified
open Iriseus.Verified.ByteStream

/-! ## The stream of a connection -/

/-- The stream a receiving body has open. -/
def UploadPc.out {H : IncrementalHash} : UploadPc H → Option OutStream
  | .recvHead r => some r.out
  | .recvLen r => some r.out
  | .recvChunk r _ => some r.out
  | .recvWrite r _ => some r.out
  | .recvReport r => some r.out
  | .closeTemp r _ => some r.out
  | _ => none

/-- The stream a sending body has open. -/
def DownloadPc.source : DownloadPc → Option InStream
  | .sendHead t => some t.source
  | .sendRead t => some t.source
  | .sendLen t _ => some t.source
  | .sendBody t _ => some t.source
  | .sendReport t _ => some t.source
  | .closeSource t _ => some t.source
  | _ => none

/-- The file a body has open. -/
def Pc.openFile {H : IncrementalHash} : Pc H → Option Nat
  | .upload pc => pc.out.map (·.file)
  | .download pc => pc.source.map (·.file)
  | _ => none

def Connection.openFile {H : IncrementalHash} : Connection H → Option Nat
  | .serving _ _ pc => pc.openFile
  | _ => none

/-! ## Lists with one element replaced -/

section Lists

variable {α β : Type} {l : List α} {c : Nat} {a b : α} {f : α → Option β}

private theorem set_split (h : l[c]? = some a) :
    ∃ l₁ l₂, l = l₁ ++ a :: l₂ ∧ ∀ b, l.set c b = l₁ ++ b :: l₂ := by
  obtain ⟨hlt, hget⟩ := List.getElem?_eq_some_iff.mp h
  refine ⟨l.take c, l.drop (c + 1), ?_, fun b => ?_⟩
  · rw [← hget, List.getElem_cons_drop, List.take_append_drop]
  · exact List.set_eq_take_append_cons_drop.trans (by simp [hlt])

theorem filterMap_set_same (h : l[c]? = some a) (hf : f a = f b) :
    (l.set c b).filterMap f = l.filterMap f := by
  obtain ⟨l₁, l₂, rfl, hset⟩ := set_split h
  rw [hset, List.filterMap_append, List.filterMap_append, List.filterMap_cons,
    List.filterMap_cons, hf]

theorem filterMap_set_add {i : β} (h : l[c]? = some a) (hfa : f a = none)
    (hfb : f b = some i) : ((l.set c b).filterMap f).Perm (i :: l.filterMap f) := by
  obtain ⟨l₁, l₂, rfl, hset⟩ := set_split h
  rw [hset, List.filterMap_append, List.filterMap_append, List.filterMap_cons,
    List.filterMap_cons, hfa, hfb]
  exact List.perm_middle

theorem filterMap_set_drop {i : β} (h : l[c]? = some a) (hfa : f a = some i)
    (hfb : f b = none) : (l.filterMap f).Perm (i :: (l.set c b).filterMap f) := by
  obtain ⟨l₁, l₂, rfl, hset⟩ := set_split h
  rw [hset, List.filterMap_append, List.filterMap_append, List.filterMap_cons,
    List.filterMap_cons, hfa, hfb]
  exact List.perm_middle

end Lists

section Steps

variable {κ : Type} {P : Platform κ} {H : IncrementalHash}

/-! ## Streams in one step of a body -/

/-- How an effect changes the open file of a body: opening begins and closing
ends a stream, everything else keeps it. -/
def StreamStep (fs : FileStore κ) (before after : Option Nat) : Effect κ → Prop
  | .file (.openTrunc k) => before = none ∧ after = some (fs.slot k)
  | .file (.openRead i) => before = none ∧ after = some i ∧ ∃ k, fs.names k = some i
  | .file (.close i _ _) => before = some i ∧ after = none
  | .file (.write i _ _) => before = some i ∧ after = some i
  | .file (.rename _ _) => before = none ∧ after = none
  | .file (.remove _) => before = none ∧ after = none
  | .file (.create _ _) => False
  | _ => before = after

private theorem qtRemove_stream (fs : FileStore κ) (path : String) :
    StreamStep fs none none (qtRemove P path) := by
  unfold qtRemove
  split
  · exact ⟨rfl, rfl⟩
  · rfl

theorem OutStream.write_file {o o' : OutStream} {chunk : Bytes} {inp : Input}
    {op : FileOp κ} (h : o.write chunk inp = some (o', op)) : o'.file = o.file := by
  unfold OutStream.write at h
  split at h
  · split at h
    · simp only at h
      split at h <;> cases h
      rfl
    · cases h
      rfl
  · simp only at h
    split at h <;> cases h
    rfl
  · cases h

theorem InStream.read_file {t t' : InStream} {fs : FileStore κ} {n : Nat} {inp : Input}
    {got : Bytes} (h : t.read fs n inp = some (got, t')) : t'.file = t.file := by
  unfold InStream.read at h
  split at h
  · split at h <;> cases h <;> rfl
  · simp only at h
    split at h <;> cases h
    rfl
  · cases h

theorem serveUpload_stream {v : View κ} {s : ActiveTransferSession} {pc : UploadPc H}
    {inp : Input} {pc' : Pc H} {e : Effect κ}
    (h : serveUpload P H v s pc inp = some (pc', e)) :
    StreamStep v.fs (Pc.upload pc).openFile pc'.openFile e := by
  cases pc with
  | recvWrite r chunk =>
      simp only [serveUpload] at h
      split at h
      · rename_i out op hop
        cases h
        have hfile := OutStream.write_file hop
        obtain ⟨pos, data, rfl⟩ := OutStream.write_op hop
        exact ⟨rfl, congrArg some hfile⟩
      · cases h
  | closeTemp r error =>
      simp only [serveUpload] at h
      split at h
      · rename_i op hop
        cases h
        obtain ⟨data, rfl⟩ := OutStream.close_op hop
        exact ⟨rfl, rfl⟩
      · cases h
  | dropInterrupted | dropBadHash | dropUnsaved =>
      simp only [serveUpload] at h
      split at h <;> cases h
      · exact qtRemove_stream v.fs s.tempFilePath
      · rfl
  | openTemp | recvHead | recvLen | recvChunk | recvReport | recvCheck | interrupted
  | verify | resolve | rename | saved =>
      simp only [serveUpload] at h
      (repeat' split at h) <;> cases h <;> first | rfl | exact ⟨rfl, rfl⟩

theorem serveDownload_stream {v : View κ} {s : ActiveTransferSession} {pc : DownloadPc}
    {inp : Input} {pc' : Pc H} {e : Effect κ}
    (h : serveDownload P H v s pc inp = some (pc', e)) :
    StreamStep v.fs (Pc.download pc : Pc H).openFile pc'.openFile e := by
  cases pc with
  | openSource =>
      simp only [serveDownload] at h
      (repeat' split at h) <;> cases h
      · rename_i i hbind
        obtain ⟨k, -, hk⟩ := Option.bind_eq_some_iff.mp hbind
        exact ⟨rfl, rfl, k, hk⟩
      all_goals rfl
  | sendRead t =>
      simp only [serveDownload] at h
      split at h
      · rename_i got source hread
        have hfile := InStream.read_file hread
        split at h <;> cases h <;>
          simp [StreamStep, Pc.openFile, DownloadPc.source, hfile]
      · cases h
  | sendHead | sendLen | sendBody | sendReport | closeSource | sendCheck | sentAll =>
      simp only [serveDownload] at h
      (repeat' split at h) <;> cases h <;> first | rfl | exact ⟨rfl, rfl⟩

theorem serve_stream {v : View κ} {s : ActiveTransferSession} {pc : Pc H} {inp : Input}
    {pc' : Pc H} {e : Effect κ} (h : serve P H v s pc inp = some (pc', e)) :
    StreamStep v.fs pc.openFile pc'.openFile e := by
  cases pc with
  | dispatch b =>
      simp only [serve] at h
      (repeat' split at h) <;> cases h <;> rfl
  | upload pc => exact serveUpload_stream h
  | download pc => exact serveDownload_stream h
  | failed error =>
      simp only [serve] at h
      split at h <;> cases h
      rfl
  | done => simp [serve] at h

/-- The same for a connection thread. -/
theorem ConnectionStep.stream {srv : FileTransferServer} {fs : FileStore κ}
    {conn conn' : Connection H} {inp : Input} {s : ActiveTransferSession} {e : Effect κ}
    (h : ConnectionStep P srv fs conn inp conn' (some (s, e))) :
    StreamStep fs conn.openFile conn'.openFile e := by
  cases h with
  | found | authenticated => rfl
  | serves hserve => exact serve_stream hserve

/-! ## The invariant -/

/-- The file store is well formed and its handles are the open streams. -/
structure StoreInv (w : World κ H) : Prop where
  wf : w.fs.WF
  handles : w.fs.handles.Perm (w.conns.filterMap Connection.openFile)

/-- An open file is not movable. -/
theorem StoreInv.not_movable {w : World κ H} (hI : StoreInv w) {c : Nat}
    {conn : Connection H} (hc : w.conns[c]? = some conn) {i : Nat}
    (hopen : conn.openFile = some i) {k : κ} (hk : w.fs.names k = some i) :
    w.fs.movable k = false := by
  have hmem : i ∈ w.fs.handles := by
    refine hI.handles.mem_iff.mpr (List.mem_filterMap.mpr ⟨conn, ?_, hopen⟩)
    exact List.mem_of_getElem? hc
  by_contra hmov
  obtain ⟨j, hj, hnot⟩ := FileStore.movable_iff.mp (by simpa using hmov)
  rw [hk, Option.some.injEq] at hj
  exact hnot (hj ▸ hmem)

private theorem storeInv_quiet {w : World κ H} (hI : StoreInv w) {c : Nat}
    {conn conn' : Connection H} (hc : w.conns[c]? = some conn)
    (hsame : conn.openFile = conn'.openFile) {m : FileTransferManager} :
    StoreInv { w with manager := m, conns := w.conns.set c conn' } where
  wf := hI.wf
  handles := by
    rw [filterMap_set_same hc hsame]
    exact hI.handles

variable [DecidableEq κ]

theorem apply_remove_handles (fs : FileStore κ) (k : κ) :
    ((FileOp.remove k).apply fs).handles = fs.handles := by
  simp only [FileOp.apply]
  split <;> rfl

theorem apply_rename_handles (fs : FileStore κ) (src dst : κ) :
    ((FileOp.rename src dst).apply fs).handles = fs.handles := by
  simp only [FileOp.apply]
  split <;> rfl

/-- A file operation of a connection keeps the handles and the streams
together. -/
private theorem storeInv_file {w : World κ H} (hI : StoreInv w) {c : Nat}
    {conn conn' : Connection H} (hc : w.conns[c]? = some conn) {op : FileOp κ}
    (hstream : StreamStep w.fs conn.openFile conn'.openFile (.file op)) :
    StoreInv { w with fs := op.apply w.fs, conns := w.conns.set c conn' } := by
  cases op with
  | openTrunc k =>
      obtain ⟨hbefore, hafter⟩ := hstream
      refine ⟨FileOp.apply_wf hI.wf (.openTrunc k) trivial, ?_⟩
      exact (hI.handles.cons _).trans (filterMap_set_add hc hbefore hafter).symm
  | openRead i =>
      obtain ⟨hbefore, hafter, k, hk⟩ := hstream
      refine ⟨FileOp.apply_wf hI.wf (.openRead i) (hI.wf.nameLt k i hk), ?_⟩
      exact (hI.handles.cons _).trans (filterMap_set_add hc hbefore hafter).symm
  | close i pos data =>
      obtain ⟨hbefore, hafter⟩ := hstream
      refine ⟨FileOp.apply_wf hI.wf (.close i pos data) trivial, ?_⟩
      have herase := (hI.handles.trans (filterMap_set_drop hc hbefore hafter)).erase i
      rwa [List.erase_cons_head] at herase
  | write i pos data =>
      obtain ⟨hbefore, hafter⟩ := hstream
      refine ⟨FileOp.apply_wf hI.wf (.write i pos data) trivial, ?_⟩
      rw [filterMap_set_same hc (hbefore.trans hafter.symm)]
      exact hI.handles
  | rename src dst =>
      obtain ⟨hbefore, hafter⟩ := hstream
      refine ⟨FileOp.apply_wf hI.wf (.rename src dst) trivial, ?_⟩
      rw [filterMap_set_same hc (hbefore.trans hafter.symm), apply_rename_handles]
      exact hI.handles
  | remove k =>
      obtain ⟨hbefore, hafter⟩ := hstream
      refine ⟨FileOp.apply_wf hI.wf (.remove k) trivial, ?_⟩
      rw [filterMap_set_same hc (hbefore.trans hafter.symm), apply_remove_handles]
      exact hI.handles
  | create k data => exact hstream.elim

/-- **One step.** -/
theorem storeInv_step {w w' : World κ H} {a : TransferAction κ}
    {es : List (TransferEvent κ)} (hI : StoreInv w) (ht : Transition P w a w' es) :
    StoreInv w' := by
  cases ht with
  | control | clean | callback => exact ⟨hI.wf, hI.handles⟩
  | @cleanFile s k =>
      refine ⟨FileOp.apply_wf hI.wf (.remove k) trivial, ?_⟩
      rw [apply_remove_handles]
      exact hI.handles
  | accept =>
      refine ⟨hI.wf, ?_⟩
      rw [List.filterMap_append]
      simpa only [List.filterMap_cons, Connection.openFile, List.filterMap_nil,
        List.append_nil] using hI.handles
  | connQuiet hc hmove =>
      refine storeInv_quiet hI hc ?_
      cases Connection.step_cases hmove with
      | greeted => rfl
      | ends hpre =>
          unfold Connection.handshaking at hpre
          split at hpre <;> first | rfl | cases hpre
  | connFile hc hmove => exact storeInv_file hI hc (Connection.step_cases hmove).stream
  | @connEffect c inp conn conn' s e m es hc hmove hfile =>
      refine storeInv_quiet hI hc ?_
      have hstream := (Connection.step_cases hmove).stream
      cases e with
      | file op => exact absurd rfl (hfile op)
      | _ => exact hstream
  | @create k data hfree =>
      refine ⟨FileOp.apply_wf hI.wf (.create k data) trivial, ?_⟩
      simpa [FileOp.apply, hfree] using hI.handles

theorem storeInv_init {w : World κ H} (hw : (transferMachine P H).Init w) : StoreInv w := by
  obtain ⟨hwf, hhandles, -, hconns⟩ := hw
  exact ⟨hwf, by rw [hhandles, hconns]; exact List.Perm.refl _⟩

end Steps

end Iriseus.Core
