import Iriseus.Core.OpenStreams

/-!
# What the server destroys

The server truncates, renames and removes the file at `targetPath + ".part"`
of a session, whatever file that is.  `FrameKept` says what it should do:
every file it destroys data of was created by it for the same transfer, and
was not saved before.

The files are the server's own when temporary paths are reserved
(`PathsReserved`): while a session is live no session of another transfer has
its temporary path, no file is at that path when the session is registered
unless the transfer already had it, and no file is put there under a final
name or by another program.

## Main results

* `Owns` — the invariant that ties files to transfers, with one rule for each
  kind of file operation.
* `server_destroys_own_files` — in runs with reserved paths `FrameKept` holds,
  and every other file keeps its name and content through the whole run.
-/

namespace Iriseus.Core

open Iriseus.Verified
open Iriseus.Verified.ByteStream
open Iriseus.Verified.Machine

variable {κ : Type}

/-! ## Files and transfers, read off the history -/

/-- The server created file `i` for a transfer. -/
def CreatedFor (h : List (TransferEvent κ)) (id : String) (i : Nat) : Prop :=
  ∃ s op hit, .fileOp s op hit (some i) ∈ h ∧ s.transferId = id

/-- The server renamed file `i` to its final name. -/
def SavedFile (h : List (TransferEvent κ)) (i : Nat) : Prop :=
  ∃ s src dst made, .fileOp s (.rename src dst) (some i) made ∈ h

/-- Every file the server truncates, overwrites, renames away or deletes was
created by it for the same transfer and not saved before. -/
def FrameKept (h : List (TransferEvent κ)) : Prop :=
  ∀ h₁ s op i made h₂, h = h₁ ++ .fileOp s op (some i) made :: h₂ →
    CreatedFor h₁ s.transferId i ∧ ¬SavedFile h₁ i

def TransferEvent.isFileOp : TransferEvent κ → Bool
  | .fileOp _ _ _ _ => true
  | _ => false

section History

variable {h es : List (TransferEvent κ)} {id : String} {i : Nat}

theorem CreatedFor.append (hc : CreatedFor h id i) (es : List (TransferEvent κ)) :
    CreatedFor (h ++ es) id i := by
  obtain ⟨s, op, hit, hmem, hid⟩ := hc
  exact ⟨s, op, hit, List.mem_append_left _ hmem, hid⟩

theorem createdFor_append_quiet (hes : ∀ e ∈ es, e.isFileOp = false) :
    CreatedFor (h ++ es) id i ↔ CreatedFor h id i := by
  refine ⟨?_, fun hc => hc.append es⟩
  rintro ⟨s, op, hit, hmem, hid⟩
  rcases List.mem_append.mp hmem with hmem | hmem
  · exact ⟨s, op, hit, hmem, hid⟩
  · have := hes _ hmem
    simp [TransferEvent.isFileOp] at this

theorem savedFile_append_quiet (hes : ∀ e ∈ es, e.isFileOp = false) :
    SavedFile (h ++ es) i ↔ SavedFile h i := by
  constructor
  · rintro ⟨s, src, dst, made, hmem⟩
    rcases List.mem_append.mp hmem with hmem | hmem
    · exact ⟨s, src, dst, made, hmem⟩
    · have := hes _ hmem
      simp [TransferEvent.isFileOp] at this
  · rintro ⟨s, src, dst, made, hmem⟩
    exact ⟨s, src, dst, made, List.mem_append_left _ hmem⟩

theorem createdFor_snoc {s : ActiveTransferSession} {op : FileOp κ}
    {hit made : Option Nat} :
    CreatedFor (h ++ [.fileOp s op hit made]) id i ↔
      CreatedFor h id i ∨ (made = some i ∧ s.transferId = id) := by
  constructor
  · rintro ⟨s', op', hit', hmem, hid⟩
    rcases List.mem_append.mp hmem with hmem | hmem
    · exact Or.inl ⟨s', op', hit', hmem, hid⟩
    · simp only [List.mem_singleton, TransferEvent.fileOp.injEq] at hmem
      obtain ⟨rfl, -, -, hmade⟩ := hmem
      exact Or.inr ⟨hmade.symm, hid⟩
  · rintro (hc | ⟨rfl, rfl⟩)
    · exact hc.append _
    · exact ⟨s, op, hit, by simp, rfl⟩

theorem savedFile_snoc {s : ActiveTransferSession} {op : FileOp κ}
    {hit made : Option Nat} :
    SavedFile (h ++ [.fileOp s op hit made]) i ↔
      SavedFile h i ∨ ((∃ src dst, op = .rename src dst) ∧ hit = some i) := by
  constructor
  · rintro ⟨s', src, dst, made', hmem⟩
    rcases List.mem_append.mp hmem with hmem | hmem
    · exact Or.inl ⟨s', src, dst, made', hmem⟩
    · simp only [List.mem_singleton, TransferEvent.fileOp.injEq] at hmem
      obtain ⟨-, hop, hhit, -⟩ := hmem
      exact Or.inr ⟨⟨src, dst, hop.symm⟩, hhit.symm⟩
  · rintro (⟨s', src, dst, made', hmem⟩ | ⟨⟨src, dst, rfl⟩, rfl⟩)
    · exact ⟨s', src, dst, made', List.mem_append_left _ hmem⟩
    · exact ⟨s, src, dst, made, by simp⟩

theorem FrameKept.append_quiet (hf : FrameKept h) (hes : ∀ e ∈ es, e.isFileOp = false) :
    FrameKept (h ++ es) := by
  intro h₁ s op i made h₂ heq
  rcases append_eq_append_cons heq with ⟨h₂', hold, -⟩ | ⟨es₁, -, hnew⟩
  · exact hf h₁ s op i made h₂' hold
  · have := hes (.fileOp s op (some i) made) (by simp [hnew])
    simp [TransferEvent.isFileOp] at this

theorem FrameKept.snoc (hf : FrameKept h) {s : ActiveTransferSession} {op : FileOp κ}
    {hit made : Option Nat} (hhit : ∀ i, hit = some i →
      CreatedFor h s.transferId i ∧ ¬SavedFile h i) :
    FrameKept (h ++ [.fileOp s op hit made]) := by
  intro h₁ s' op' i made' h₂ heq
  rcases append_eq_append_cons heq with ⟨h₂', hold, -⟩ | ⟨es₁, rfl, hnew⟩
  · exact hf h₁ s' op' i made' h₂' hold
  · cases es₁ with
    | nil =>
        simp only [List.nil_append, List.cons.injEq, TransferEvent.fileOp.injEq] at hnew
        obtain ⟨⟨rfl, -, rfl, -⟩, -⟩ := hnew
        rw [List.append_nil]
        exact hhit i rfl
    | cons x xs => simp at hnew

end History

/-! ## Temporary paths -/

section Paths

variable (P : Platform κ) {H : IncrementalHash}

/-- The file names the temporary path of a session stands for. -/
def tempKeys (s : ActiveTransferSession) : List κ :=
  (P.stdKey s.tempFilePath).toList ++ (P.qtKey s.tempFilePath).toList

theorem mem_tempKeys_std {s : ActiveTransferSession} {k : κ}
    (hk : P.stdKey s.tempFilePath = some k) : k ∈ tempKeys P s := by
  simp [tempKeys, hk]

theorem mem_tempKeys_qt {s : ActiveTransferSession} {k : κ}
    (hk : P.qtKey s.tempFilePath = some k) : k ∈ tempKeys P s := by
  simp [tempKeys, hk]

/-- The body may still open, rename or remove the temporary file. -/
def Pc.usesTemp : Pc H → Bool
  | .dispatch _ => true
  | .upload (.saved _) => false
  | .upload _ => true
  | _ => false

/-- The session on whose temporary path a connection may act. -/
def Connection.tempUser : Connection H → Option ActiveTransferSession
  | .validate _ s => some s
  | .serving _ s pc => if pc.usesTemp then some s else none
  | _ => none

/-- The sessions on whose temporary paths the server may act: the registered
ones and those of connections. -/
def liveSessions (w : World κ H) : List ActiveTransferSession :=
  w.manager.server.sessions.entries.map Sigma.snd ++ w.conns.filterMap Connection.tempUser

theorem mem_liveSessions {w : World κ H} {s : ActiveTransferSession} :
    s ∈ liveSessions w ↔ (∃ id, w.manager.server.sessions.lookup id = some s) ∨
      ∃ (c : Nat) (conn : Connection H), w.conns[c]? = some conn ∧
        conn.tempUser = some s := by
  rw [liveSessions, List.mem_append, List.mem_map, List.mem_filterMap]
  constructor
  · rintro (⟨⟨id, s'⟩, hmem, rfl⟩ | ⟨conn, hmem, huser⟩)
    · exact Or.inl ⟨id, AList.mem_lookup_iff.mpr hmem⟩
    · obtain ⟨c, hc⟩ := List.mem_iff_getElem?.mp hmem
      exact Or.inr ⟨c, conn, hc, huser⟩
  · rintro (⟨id, hl⟩ | ⟨c, conn, hc, huser⟩)
    · exact Or.inl ⟨⟨id, s⟩, AList.mem_lookup_iff.mp hl, rfl⟩
    · exact Or.inr ⟨conn, List.mem_of_getElem? hc, huser⟩

end Paths

/-! ## Ownership -/

/-- The ownership of temporary files: `L` are the sessions that may act on
their temporary paths, `O` the files that connections have open for writing,
each with its session. -/
structure Owns (P : Platform κ) (fs : FileStore κ) (L : ActiveTransferSession → Prop)
    (O : ActiveTransferSession → Nat → Prop) (h : List (TransferEvent κ)) : Prop where
  /-- A temporary path belongs to one transfer. -/
  excl : ∀ s s' k, L s → L s' → k ∈ tempKeys P s → k ∈ tempKeys P s' →
    s.transferId = s'.transferId
  /-- The file at a temporary path is its transfer's, and not saved. -/
  own : ∀ s k i, L s → k ∈ tempKeys P s → fs.names k = some i →
    CreatedFor h s.transferId i ∧ ¬SavedFile h i
  /-- So is a file open for writing. -/
  opened : ∀ s i, O s i → CreatedFor h s.transferId i ∧ ¬SavedFile h i
  /-- Files of the history are in use. -/
  fresh : ∀ i, (∃ id, CreatedFor h id i) ∨ SavedFile h i → i < fs.next
  frame : FrameKept h

section Rules

variable {P : Platform κ} {fs : FileStore κ} {L L' : ActiveTransferSession → Prop}
  {O O' : ActiveTransferSession → Nat → Prop} {h es : List (TransferEvent κ)}

/-- Nothing happens to files, and no session or stream is added. -/
theorem Owns.quiet (hO : Owns P fs L O h) (hL : ∀ s, L' s → L s)
    (hO' : ∀ s i, O' s i → O s i) (hes : ∀ e ∈ es, e.isFileOp = false) :
    Owns P fs L' O' (h ++ es) where
  excl := fun s s' k hs hs' => hO.excl s s' k (hL s hs) (hL s' hs')
  own := by
    intro s k i hs hk hi
    rw [createdFor_append_quiet hes, savedFile_append_quiet hes]
    exact hO.own s k i (hL s hs) hk hi
  opened := by
    intro s i hs
    rw [createdFor_append_quiet hes, savedFile_append_quiet hes]
    exact hO.opened s i (hO' s i hs)
  fresh := by
    intro i hi
    simp only [createdFor_append_quiet hes, savedFile_append_quiet hes] at hi
    exact hO.fresh i hi
  frame := hO.frame.append_quiet hes

/-- Fewer sessions and streams. -/
theorem Owns.weaken (hO : Owns P fs L O h) (hL : ∀ s, L' s → L s)
    (hO' : ∀ s i, O' s i → O s i) : Owns P fs L' O' h := by
  have hquiet : Owns P fs L' O' (h ++ []) := hO.quiet hL hO' (by simp)
  rwa [List.append_nil] at hquiet

/-- A session is registered whose temporary path is reserved: the sessions
that have it are of the same transfer, and there is a file only if there is
such a session. -/
theorem Owns.register (hO : Owns P fs L O h) {s : ActiveTransferSession}
    (hL : ∀ s', L' s' → s' = s ∨ L s')
    (hsame : ∀ k ∈ tempKeys P s, ∀ s', L s' → k ∈ tempKeys P s' →
      s'.transferId = s.transferId)
    (hfile : ∀ k ∈ tempKeys P s, fs.exists? k = true → ∃ s', L s' ∧ k ∈ tempKeys P s') :
    Owns P fs L' O h where
  excl := by
    intro s₁ s₂ k h₁ h₂ hk₁ hk₂
    rcases hL s₁ h₁ with rfl | h₁ <;> rcases hL s₂ h₂ with rfl | h₂
    · rfl
    · exact (hsame k hk₁ s₂ h₂ hk₂).symm
    · exact hsame k hk₂ s₁ h₁ hk₁
    · exact hO.excl s₁ s₂ k h₁ h₂ hk₁ hk₂
  own := by
    intro s₁ k i h₁ hk hi
    rcases hL s₁ h₁ with rfl | h₁
    · obtain ⟨s', hs', hk'⟩ := hfile k hk (by simp [FileStore.exists?, hi])
      rw [← hsame k hk s' hs' hk']
      exact hO.own s' k i hs' hk' hi
    · exact hO.own s₁ k i h₁ hk hi
  opened := hO.opened
  fresh := hO.fresh
  frame := hO.frame

variable [DecidableEq κ]

/-- A file operation that only hits files of the transfer, gives temporary
paths no file but one it creates for their transfer, and saves no file that
is still at a temporary path or open. -/
theorem Owns.fileOp (hO : Owns P fs L O h) {s : ActiveTransferSession} {op : FileOp κ}
    (hhit : ∀ i, op.hits fs = some i → CreatedFor h s.transferId i ∧ ¬SavedFile h i)
    (hmade : ∀ i, op.makes fs = some i → i = fs.next ∧ fs.next < (op.apply fs).next)
    (hnames : ∀ s' k i, L s' → k ∈ tempKeys P s' → (op.apply fs).names k = some i →
      (fs.names k = some i ∧ ¬((∃ src dst, op = .rename src dst) ∧ op.hits fs = some i)) ∨
        (op.makes fs = some i ∧ s.transferId = s'.transferId))
    (hopen : ∀ s' i, O s' i →
      ¬((∃ src dst, op = .rename src dst) ∧ op.hits fs = some i)) :
    Owns P (op.apply fs) L O (h ++ [.fileOp s op (op.hits fs) (op.makes fs)]) where
  excl := hO.excl
  own := by
    intro s' k i hs' hk hi
    rw [createdFor_snoc, savedFile_snoc, not_or]
    rcases hnames s' k i hs' hk hi with ⟨hold, hnot⟩ | ⟨hmk, hid⟩
    · obtain ⟨hc, hns⟩ := hO.own s' k i hs' hk hold
      exact ⟨Or.inl hc, hns, hnot⟩
    · -- a new file is neither saved nor hit
      obtain ⟨rfl, -⟩ := hmade i hmk
      refine ⟨Or.inr ⟨hmk, hid⟩, fun hs => ?_, fun hs => ?_⟩
      · exact absurd (hO.fresh _ (Or.inr hs)) (Nat.lt_irrefl _)
      · exact absurd (hO.fresh _ (Or.inl ⟨_, (hhit _ hs.2).1⟩)) (Nat.lt_irrefl _)
  opened := by
    intro s' i hs'
    rw [createdFor_snoc, savedFile_snoc, not_or]
    obtain ⟨hc, hns⟩ := hO.opened s' i hs'
    exact ⟨Or.inl hc, hns, hopen s' i hs'⟩
  fresh := by
    intro i hi
    have hle := FileOp.next_le fs op
    have hold : (∃ id, CreatedFor h id i) ∨ SavedFile h i → i < (op.apply fs).next :=
      fun hs => lt_of_lt_of_le (hO.fresh i hs) hle
    rcases hi with ⟨id, hc⟩ | hs
    · rcases createdFor_snoc.mp hc with hc | ⟨hmk, -⟩
      · exact hold (Or.inl ⟨id, hc⟩)
      · obtain ⟨rfl, hlt⟩ := hmade i hmk
        exact hlt
    · rcases savedFile_snoc.mp hs with hs | ⟨-, hh⟩
      · exact hold (Or.inr hs)
      · exact hold (Or.inl ⟨_, (hhit i hh).1⟩)
  frame := hO.frame.snoc hhit

/-- Opening the temporary file: an own one is truncated, a new one becomes the
transfer's, and is then open. -/
theorem Owns.openTrunc (hO : Owns P fs L O h) {s : ActiveTransferSession} (hs : L s)
    {k : κ} (hk : k ∈ tempKeys P s)
    (hO' : ∀ s' i, O' s' i → O s' i ∨ (s' = s ∧ i = fs.slot k)) :
    Owns P ((FileOp.openTrunc k).apply fs) L O'
      (h ++ [.fileOp s (.openTrunc k) ((FileOp.openTrunc k).hits fs)
        ((FileOp.openTrunc k).makes fs)]) := by
  have hbase : Owns P ((FileOp.openTrunc k).apply fs) L O
      (h ++ [.fileOp s (.openTrunc k) ((FileOp.openTrunc k).hits fs)
        ((FileOp.openTrunc k).makes fs)]) := by
    refine hO.fileOp ?_ ?_ ?_ (by simp)
    · intro i hi
      exact hO.own s k i hs hk hi
    · intro i hi
      simp only [FileOp.makes] at hi
      split at hi
      · cases hi
      · rename_i hnew
        cases hi
        simp [FileOp.apply, hnew]
    · intro s' k' i hs' hk' hi
      simp only [FileOp.apply] at hi
      by_cases hkk : k' = k
      · subst hkk
        simp only [Function.update_self, Option.some.injEq] at hi
        cases hold : fs.names k' with
        | some j =>
            left
            simp only [FileStore.slot, hold, Option.getD_some] at hi
            simp [hi]
        | none =>
            right
            simp only [FileStore.slot, hold, Option.getD_none] at hi
            exact ⟨by simp [FileOp.makes, FileStore.exists?, hold, hi],
              hO.excl s s' k' hs hs' hk hk'⟩
      · rw [Function.update_of_ne hkk] at hi
        exact Or.inl ⟨hi, by simp⟩
  refine { hbase with opened := ?_ }
  intro s' i hs'
  rcases hO' s' i hs' with hold | ⟨rfl, rfl⟩
  · exact hbase.opened s' i hold
  · exact hbase.own s' k _ hs hk (by simp [FileOp.apply])

/-- Removing the file at a temporary path. -/
theorem Owns.remove (hO : Owns P fs L O h) {s : ActiveTransferSession} (hs : L s)
    {k : κ} (hk : k ∈ tempKeys P s) :
    Owns P ((FileOp.remove k).apply fs) L O
      (h ++ [.fileOp s (.remove k) ((FileOp.remove k).hits fs)
        ((FileOp.remove k).makes fs)]) := by
  refine hO.fileOp ?_ (by simp [FileOp.makes]) ?_ (by simp)
  · intro i hi
    simp only [FileOp.hits] at hi
    split at hi
    · exact hO.own s k i hs hk hi
    · cases hi
  · intro s' k' i hs' hk' hi
    refine Or.inl ⟨?_, by simp⟩
    simp only [FileOp.apply] at hi
    split at hi
    · by_cases hkk : k' = k
      · subst hkk
        simp at hi
      · simpa [Function.update_of_ne hkk] using hi
    · exact hi

/-- Renaming the file at a temporary path to a name that is not one. -/
theorem Owns.rename (hO : Owns P fs L O h) (hwf : fs.WF) {s : ActiveTransferSession}
    (hs : L s) {src dst : κ} (hk : src ∈ tempKeys P s)
    (hdst : ∀ s', L s' → dst ∉ tempKeys P s')
    (hclosed : ∀ s' i, O s' i → ¬(fs.movable src = true ∧ fs.names src = some i)) :
    Owns P ((FileOp.rename src dst).apply fs) L O
      (h ++ [.fileOp s (.rename src dst) ((FileOp.rename src dst).hits fs)
        ((FileOp.rename src dst).makes fs)]) := by
  refine hO.fileOp ?_ (by simp [FileOp.makes]) ?_ ?_
  · intro i hi
    simp only [FileOp.hits] at hi
    split at hi
    · exact hO.own s src i hs hk hi
    · cases hi
  · intro s' k' i hs' hk' hi
    refine Or.inl ?_
    simp only [FileOp.apply, FileOp.hits] at hi ⊢
    split at hi
    · rename_i hmov
      have hkd : k' ≠ dst := fun heq => hdst s' hs' (heq ▸ hk')
      have hks : k' ≠ src := by
        rintro rfl
        simp [Function.update_of_ne hkd] at hi
      simp only [Function.update_of_ne hkd, Function.update_of_ne hks] at hi
      refine ⟨hi, ?_⟩
      rintro ⟨-, hit⟩
      rw [if_pos hmov] at hit
      exact hks (hwf.inj k' src i hi hit)
    · rename_i hmov
      exact ⟨hi, by simp [hmov]⟩
  · rintro s' i hs' ⟨-, hit⟩
    simp only [FileOp.hits] at hit
    split at hit
    · rename_i hmov
      exact hclosed s' i hs' ⟨hmov.1, hit⟩
    · cases hit

/-- Writing to a file that is open for the transfer, or closing it. -/
theorem Owns.stream (hO : Owns P fs L O h) {s : ActiveTransferSession} {op : FileOp κ}
    (hop : (∃ i pos data, op = .write i pos data ∧ (data ≠ [] → O s i)) ∨
      (∃ i pos data, op = .close i pos data ∧ (data ≠ [] → O s i)) ∨
      ∃ i, op = .openRead i) :
    Owns P (op.apply fs) L O
      (h ++ [.fileOp s op (op.hits fs) (op.makes fs)]) := by
  have hdata : ∀ {i j : Nat} {data : Bytes}, (data ≠ [] → O s i) →
      (if data = [] then none else some i) = some j →
      CreatedFor h s.transferId j ∧ ¬SavedFile h j := by
    intro i j data himp heq
    split at heq
    · cases heq
    · rename_i hne
      cases heq
      exact hO.opened s i (himp hne)
  rcases hop with ⟨i, pos, data, rfl, himp⟩ | ⟨i, pos, data, rfl, himp⟩ | ⟨i, rfl⟩
  · exact hO.fileOp (fun j hj => hdata himp hj) (by simp [FileOp.makes])
      (fun s' k j _ _ hi => Or.inl ⟨hi, by simp⟩) (by simp)
  · exact hO.fileOp (fun j hj => hdata himp hj) (by simp [FileOp.makes])
      (fun s' k j _ _ hi => Or.inl ⟨hi, by simp⟩) (by simp)
  · exact hO.fileOp (by simp [FileOp.hits]) (by simp [FileOp.makes])
      (fun s' k j _ _ hi => Or.inl ⟨hi, by simp⟩) (by simp)

/-- Another program puts a file at a name that is no temporary path. -/
theorem Owns.create (hO : Owns P fs L O h) {k : κ} {data : Bytes}
    (hfree : fs.exists? k = false) (hk : ∀ s, L s → k ∉ tempKeys P s) :
    Owns P ((FileOp.create k data).apply fs) L O (h ++ [.created k]) := by
  have hquiet : Owns P fs L O (h ++ [.created k]) :=
    hO.quiet (fun _ hs => hs) (fun _ _ hs => hs) (by simp [TransferEvent.isFileOp])
  refine { hquiet with own := ?_, fresh := ?_ }
  · intro s k' i hs hk' hi
    have hkk : k' ≠ k := fun heq => hk s hs (heq ▸ hk')
    simp only [FileOp.apply, hfree, Bool.false_eq_true, if_false,
      Function.update_of_ne hkk] at hi
    exact hquiet.own s k' i hs hk' hi
  · intro i hi
    exact lt_of_lt_of_le (hquiet.fresh i hi) (FileOp.next_le fs _)

end Rules

/-! ## Reserved paths -/

section Condition

variable [DecidableEq κ] (P : Platform κ) (H : IncrementalHash)

/-- The sessions a step registers. -/
def registersOf (w : World κ H) (a : TransferAction κ) : List ActiveTransferSession :=
  match transferStep P H w a with
  | some (_, es) =>
      es.filterMap fun e => match e with
        | .registered s => some s
        | _ => none
  | none => []

/-- The name at which a step may put a file other than a temporary one: a
connection's final name, or another program's. -/
def putsAt {H : IncrementalHash} (w : World κ H) : TransferAction κ → Option κ
  | .conn c _ =>
      match w.conns[c]? with
      | some (.serving _ _ (.upload (.rename finalPath))) => P.qtKey finalPath
      | _ => none
  | .create k _ => some k
  | _ => none

/-- Temporary paths are reserved: a session is registered only when the live
sessions with its temporary path are of the same transfer, and a file is
there only if there is such a session; and no other file is put at the
temporary path of a live session. -/
def PathsReserved : StepCond (World κ H) (TransferAction κ) (TransferEvent κ) :=
  fun w _ a =>
    (∀ s ∈ registersOf P H w a, ∀ k ∈ tempKeys P s,
      (∀ s' ∈ liveSessions w, k ∈ tempKeys P s' → s'.transferId = s.transferId) ∧
      (w.fs.exists? k = true → ∃ s' ∈ liveSessions w, k ∈ tempKeys P s')) ∧
    ∀ k ∈ (putsAt P w a).toList, ∀ s ∈ liveSessions w, k ∉ tempKeys P s

instance : ∀ w h a, Decidable (PathsReserved P H w h a) := fun _ _ _ =>
  inferInstanceAs (Decidable (_ ∧ _))

end Condition

/-! ## Sessions and streams in one step -/

/-- The file a connection has open for writing, with its session. -/
def Connection.writes {H : IncrementalHash} :
    Connection H → Option (ActiveTransferSession × Nat)
  | .serving _ s (.upload pc) => pc.out.map fun o => (s, o.file)
  | _ => none

/-- A file is open for writing. -/
def Writing {H : IncrementalHash} (w : World κ H) (s : ActiveTransferSession) (i : Nat) :
    Prop :=
  ∃ (c : Nat) (conn : Connection H), w.conns[c]? = some conn ∧ conn.writes = some (s, i)

section Tables

variable {t t' : Tables} {es : List (TransferEvent κ)}

theorem TransferEvent.minor_no_fileOp {e : TransferEvent κ} (he : e.minor = true) :
    e.isFileOp = false := by
  cases e with
  | fileOp s op hit made => cases he
  | _ => rfl

theorem TableStep.no_fileOp (ht : TableStep t t' es) : ∀ e ∈ es, e.isFileOp = false := by
  cases ht with
  | offer _ _ _ _ _ hpre hpost =>
      intro e he
      simp only [List.mem_append, List.mem_cons] at he
      rcases he with he | rfl | rfl | he
      · exact TransferEvent.minor_no_fileOp (hpre e he)
      · rfl
      · rfl
      · exact TransferEvent.minor_no_fileOp (hpost e he)
  | reoffer _ _ _ _ _ hpost =>
      intro e he
      rcases List.mem_cons.mp he with rfl | he
      · rfl
      · exact TransferEvent.minor_no_fileOp (hpost e he)
  | told hes => exact fun e he => TransferEvent.minor_no_fileOp (hes e he)
  | _ => simp [TransferEvent.isFileOp]

/-- The table only gains the session that is registered, when no temporary
files are being removed. -/
theorem TableStep.sessions_cases (ht : TableStep t t' es) :
    (∀ id s, t'.sessions.lookup id = some s → t.sessions.lookup id = some s) ∨
      (t.cleaning = .idle ∧ t'.cleaning = .idle ∧ ∃ s, .registered s ∈ es ∧
        ∀ id s', t'.sessions.lookup id = some s' →
          s' = s ∨ t.sessions.lookup id = some s') := by
  have hinsert : ∀ s : ActiveTransferSession, ∀ id s',
      (t.sessions.insert s.transferId s).lookup id = some s' →
        s' = s ∨ t.sessions.lookup id = some s' := by
    intro s id s' hl
    by_cases hid : id = s.transferId
    · subst hid
      rw [AList.lookup_insert, Option.some.injEq] at hl
      exact Or.inl hl.symm
    · rw [AList.lookup_insert_ne hid] at hl
      exact Or.inr hl
  cases ht with
  | quiet | cancelBegin | cancelNone | stopBegin | stopNext | complete | told | signal
  | withdraw => exact Or.inl fun _ _ hl => hl
  | offer hidle => exact Or.inr ⟨hidle, hidle, _, by simp, hinsert _⟩
  | reoffer hidle => exact Or.inr ⟨hidle, hidle, _, by simp, hinsert _⟩
  | @cancelEnd s =>
      left
      intro id s' hl
      by_cases hid : id = s.transferId
      · subst hid
        simp at hl
      · rwa [AList.lookup_erase_ne hid] at hl
  | stopEnd => exact Or.inl fun _ _ hl => by simp at hl

/-- The sessions whose files are being removed. -/
def Cleaning.sessions : Cleaning → List ActiveTransferSession
  | .idle => []
  | .cancel s => [s]
  | .stop todo => todo

/-- The sessions whose files are being removed are registered. -/
def Tables.CleansRegistered (t : Tables) : Prop :=
  ∀ s ∈ t.cleaning.sessions, ∃ id, t.sessions.lookup id = some s

theorem TableStep.cleansRegistered (ht : TableStep t t' es) (hclean : t.CleansRegistered) :
    t'.CleansRegistered := by
  cases ht with
  | quiet | complete | cancelNone | told | signal | withdraw => exact hclean
  | offer hidle => simp [Tables.CleansRegistered, hidle, Cleaning.sessions]
  | reoffer hidle => simp [Tables.CleansRegistered, hidle, Cleaning.sessions]
  | cancelBegin hidle hentry =>
      intro s hs
      simp only [Cleaning.sessions, List.mem_singleton] at hs
      subst hs
      exact ⟨_, hentry⟩
  | cancelEnd | stopEnd => simp [Tables.CleansRegistered, Cleaning.sessions]
  | stopBegin hidle horder =>
      intro s hs
      obtain ⟨⟨id, s'⟩, hmem, rfl⟩ := List.mem_map.mp (horder.mem_iff.mp hs)
      exact ⟨id, AList.mem_lookup_iff.mpr hmem⟩
  | stopNext hc =>
      intro s hs
      exact hclean s (by rw [hc]; exact List.mem_cons_of_mem _ hs)

end Tables

section Steps

variable {P : Platform κ} {H : IncrementalHash} {srv : FileTransferServer}
  {fs : FileStore κ} {conn conn' : Connection H} {inp : Input}
  {eff : Option (ActiveTransferSession × Effect κ)}

/-- A connection gets to act on a temporary path by its lookup only. -/
theorem ConnectionStep.tempUser (hmove : ConnectionStep P srv fs conn inp conn' eff)
    {s : ActiveTransferSession} (hs : conn'.tempUser = some s) :
    conn.tempUser = some s ∨ ∃ id, srv.sessions.lookup id = some s := by
  cases hmove with
  | greeted | ends => cases hs
  | found hidle hfind =>
      obtain ⟨id, hl, -⟩ := findSession_some hfind
      cases hs
      exact Or.inr ⟨id, hl⟩
  | authenticated =>
      simp only [Connection.tempUser, Pc.usesTemp, if_true, Option.some.injEq] at hs
      exact Or.inl (by simp [Connection.tempUser, hs])
  | @serves _ hs' s' pc pc' e hserve =>
      left
      simp only [Connection.tempUser] at hs ⊢
      split at hs
      · rename_i hafter
        have hbefore : pc.usesTemp = true := by
          cases pc with
          | dispatch b => rfl
          | upload u =>
              cases u with
              | saved f =>
                  simp only [serve, serveUpload] at hserve
                  split at hserve <;> cases hserve
                  cases hafter
              | _ => rfl
          | download d =>
              rcases (serveDownload_mode hserve).1 with ⟨d', rfl⟩ | ⟨error, rfl⟩ | rfl <;>
                cases hafter
          | failed e =>
              simp only [serve] at hserve
              split at hserve <;> cases hserve
              cases hafter
          | done => simp [serve] at hserve
        rw [if_pos hbefore]
        exact hs
      · cases hs

/-- A connection that is receiving has its stream's file open. -/
theorem Connection.writes_serving {hs : FileTransferHandshake}
    {s s' : ActiveTransferSession} {pc : Pc H} {i : Nat} :
    (Connection.serving hs s pc).writes = some (s', i) ↔
      s = s' ∧ pc.openFile = some i ∧ ∃ u, pc = .upload u := by
  cases pc with
  | upload u =>
      cases hout : u.out with
      | none => simp [Connection.writes, Pc.openFile, hout]
      | some o => simp [Connection.writes, Pc.openFile, hout]
  | _ => simp [Connection.writes]

/-- A stream for writing was open before, or has just been opened at a
temporary path. -/
theorem ConnectionStep.writes (hmove : ConnectionStep P srv fs conn inp conn' eff)
    {s : ActiveTransferSession} {i : Nat} (hw : conn'.writes = some (s, i)) :
    conn.writes = some (s, i) ∨
      ∃ k, eff = some (s, .file (.openTrunc k)) ∧ i = fs.slot k := by
  cases hmove with
  | greeted | ends | found | authenticated => cases hw
  | @serves _ hs s' pc pc' e hserve =>
      obtain ⟨rfl, hopen, u', rfl⟩ := Connection.writes_serving.mp hw
      have hstream := serve_stream hserve
      obtain ⟨hmode, -, hreads, -⟩ := serve_mode hserve
      -- a body that is receiving was receiving before, or had nothing open
      have hbefore : pc.openFile = some i → (Connection.serving hs s' pc).writes =
          some (s', i) := by
        intro hpc
        refine Connection.writes_serving.mpr ⟨rfl, hpc, ?_⟩
        cases pc with
        | upload u => exact ⟨u, rfl⟩
        | download d => simp [Pc.mode] at hmode
        | dispatch b => cases hpc
        | failed error => cases hpc
        | done => cases hpc
      cases e with
      | file op =>
          cases op with
          | openTrunc k =>
              obtain ⟨-, hafter⟩ := hstream
              rw [hopen, Option.some.injEq] at hafter
              exact Or.inr ⟨k, rfl, hafter⟩
          | openRead j =>
              obtain ⟨d, rfl⟩ := hreads rfl
              simp [Pc.mode] at hmode
          | close j pos data => exact absurd (hopen.symm.trans hstream.2) (by simp)
          | write j pos data =>
              have hij := hopen.symm.trans hstream.2
              rw [Option.some.injEq] at hij
              subst hij
              exact Or.inl (hbefore hstream.1)
          | rename src dst => exact absurd (hopen.symm.trans hstream.2) (by simp)
          | remove k => exact absurd (hopen.symm.trans hstream.2) (by simp)
          | create k data => exact hstream.elim
      | _ => exact Or.inl (hbefore (hstream.trans hopen))

/-- A body that performs a file operation in mode 0 is not past its rename. -/
theorem serveUpload_usesTemp {v : View κ} {s : ActiveTransferSession} {u : UploadPc H}
    {pc' : Pc H} {op : FileOp κ}
    (h : serveUpload P H v s u inp = some (pc', .file op)) :
    (Pc.upload u).usesTemp = true := by
  cases u with
  | saved finalPath =>
      simp only [serveUpload] at h
      split at h <;> cases h
  | _ => rfl

end Steps

/-! ## The invariant -/

section Runs

variable [DecidableEq κ] {P : Platform κ} {H : IncrementalHash} {w w' : World κ H}
  {a : TransferAction κ} {h es : List (TransferEvent κ)}

/-- Sessions of connections come from the table or were live before. -/
theorem Transition.tempUser (ht : Transition P w a w' es) {c : Nat}
    {conn' : Connection H} (hc : w'.conns[c]? = some conn')
    {s : ActiveTransferSession} (hs : conn'.tempUser = some s) : s ∈ liveSessions w := by
  rcases step_conn ht hc with ⟨-, hold⟩ | rfl | ⟨inp, conn, eff, -, hold, hmove, -⟩
  · exact mem_liveSessions.mpr (Or.inr ⟨c, conn', hold, hs⟩)
  · cases hs
  · rcases hmove.tempUser hs with hbefore | htable
    · exact mem_liveSessions.mpr (Or.inr ⟨c, conn, hold, hbefore⟩)
    · exact mem_liveSessions.mpr (Or.inl htable)

/-- No session becomes live unless the table gains it. -/
theorem Transition.live (ht : Transition P w a w' es)
    (htable : ∀ id s, w'.manager.server.sessions.lookup id = some s →
      w.manager.server.sessions.lookup id = some s)
    {s : ActiveTransferSession} (hs : s ∈ liveSessions w') : s ∈ liveSessions w := by
  rcases mem_liveSessions.mp hs with ⟨id, hl⟩ | ⟨c, conn', hc, huser⟩
  · exact mem_liveSessions.mpr (Or.inl ⟨id, htable id s hl⟩)
  · exact ht.tempUser hc huser

/-- Files open for writing were open before, or have just been opened. -/
theorem Transition.writing (ht : Transition P w a w' es) {s : ActiveTransferSession}
    {i : Nat} (hw : Writing w' s i) :
    Writing w s i ∨ ∃ c k es', es = .connection c s (.file (.openTrunc k)) :: es' ∧
      i = w.fs.slot k := by
  obtain ⟨c, conn', hc, hwrites⟩ := hw
  rcases step_conn ht hc with ⟨-, hold⟩ | rfl | ⟨inp, conn, eff, -, hold, hmove, hes⟩
  · exact Or.inl ⟨c, conn', hold, hwrites⟩
  · cases hwrites
  · rcases hmove.writes hwrites with hbefore | ⟨k, heff, hi⟩
    · exact Or.inl ⟨c, conn, hold, hbefore⟩
    · obtain ⟨es', rfl⟩ := hes s _ heff
      exact Or.inr ⟨c, k, es', rfl, hi⟩

/-- What holds in runs with reserved paths. -/
structure FrameInv (P : Platform κ) (w : World κ H) (h : List (TransferEvent κ)) :
    Prop where
  store : StoreInv w
  clean : w.manager.tables.CleansRegistered
  owns : Owns P w.fs (· ∈ liveSessions w) (Writing w) h

theorem mem_registersOf {s : ActiveTransferSession}
    (hs : transferStep P H w a = some (w', es)) (hmem : .registered s ∈ es) :
    s ∈ registersOf P H w a := by
  simp only [registersOf, hs, List.mem_filterMap]
  exact ⟨_, hmem, rfl⟩

/-- A step without a file operation and without a registration. -/
private theorem owns_quiet (hI : FrameInv P w h) (ht : Transition P w a w' es)
    (hfs : w'.fs = w.fs)
    (htable : ∀ id s, w'.manager.server.sessions.lookup id = some s →
      w.manager.server.sessions.lookup id = some s)
    (hes : ∀ e ∈ es, e.isFileOp = false) (hno : ∀ c s k es',
      es ≠ .connection c s (.file (.openTrunc k)) :: es') :
    Owns P w'.fs (· ∈ liveSessions w') (Writing w') (h ++ es) := by
  rw [hfs]
  refine hI.owns.quiet (fun s hs => ht.live htable hs) ?_ hes
  intro s i hw
  rcases ht.writing hw with hold | ⟨c, k, es', heq, -⟩
  · exact hold
  · exact absurd heq (hno c s k es')

/-- A file operation of a connection. -/
private theorem owns_connFile (hI : FrameInv P w h) {c : Nat} {inp : Input}
    (hok : PathsReserved P H w h (.conn c inp)) {conn conn' : Connection H}
    {s : ActiveTransferSession} {op : FileOp κ} (hc : w.conns[c]? = some conn)
    (hmove : ConnectionStep P w.manager.server w.fs conn inp conn' (some (s, .file op)))
    {O' : ActiveTransferSession → Nat → Prop} (hO' : ∀ s' i, O' s' i → Writing w s' i ∨
      ∃ k, s' = s ∧ op = .openTrunc k ∧ i = w.fs.slot k) :
    Owns P (op.apply w.fs) (· ∈ liveSessions w) O'
      (h ++ [.connection c s (.file op), .fileOp s op (op.hits w.fs) (op.makes w.fs)]) := by
  rw [show h ++ [.connection c s (.file op), .fileOp s op (op.hits w.fs) (op.makes w.fs)] =
    (h ++ [.connection c s (.file op)]) ++ [.fileOp s op (op.hits w.fs) (op.makes w.fs)] by
      simp]
  have hO : Owns P w.fs (· ∈ liveSessions w) (Writing w)
      (h ++ [.connection c s (.file op)]) :=
    hI.owns.quiet (fun _ hs => hs) (fun _ _ hs => hs) (by simp [TransferEvent.isFileOp])
  have hsame : (∀ k, op ≠ .openTrunc k) → ∀ s' i, O' s' i → Writing w s' i := by
    intro hne s' i hs'
    rcases hO' s' i hs' with hold | ⟨k, -, hop, -⟩
    · exact hold
    · exact absurd hop (hne k)
  cases hmove with
  | @serves _ hs _ pc pc' _ hserve =>
      have hstream := serve_stream hserve
      obtain ⟨-, hchanges, -, -⟩ := serve_mode hserve
      -- what an operation of mode 0 says about the session and its path
      have hmode : (Effect.file op).changesFile = true → s ∈ liveSessions w ∧
          (∀ k, op = .openTrunc k → P.stdKey s.tempFilePath = some k) ∧
          (∀ k, op = .remove k → P.qtKey s.tempFilePath = some k) ∧
          (∀ src dst, op = .rename src dst → P.qtKey s.tempFilePath = some src ∧
            putsAt P w (.conn c inp) = some dst) := by
        intro hch
        obtain ⟨u, rfl⟩ := hchanges hch
        obtain ⟨hopen, hremove, hrename⟩ := serveUpload_paths hserve
        refine ⟨mem_liveSessions.mpr (Or.inr ⟨c, _, hc, ?_⟩), fun k hk => (hopen k hk).2,
          fun k hk => (hremove k hk).2, ?_⟩
        · rw [Connection.tempUser, serveUpload_usesTemp hserve, if_pos rfl]
        · intro src dst hop
          obtain ⟨hsrc, -, -, finalPath, rfl, -, hdst⟩ := hrename src dst hop
          exact ⟨hsrc, by simp [putsAt, hc, hdst]⟩
      have hwriting : ∀ {i : Nat}, (Effect.file op).changesFile = true →
          pc.openFile = some i → Writing w s i := by
        intro i hch hpc
        obtain ⟨u, rfl⟩ := hchanges hch
        exact ⟨c, _, hc, Connection.writes_serving.mpr ⟨rfl, hpc, u, rfl⟩⟩
      cases op with
      | openTrunc k =>
          obtain ⟨hlive, hkey, -, -⟩ := hmode rfl
          refine hO.openTrunc hlive (mem_tempKeys_std P (hkey k rfl)) ?_
          intro s' i hs'
          rcases hO' s' i hs' with hold | ⟨k', rfl, heq, hi⟩
          · exact Or.inl hold
          · cases heq
            exact Or.inr ⟨rfl, hi⟩
      | openRead i =>
          exact (hO.stream (Or.inr (Or.inr ⟨i, rfl⟩))).weaken (fun _ hs => hs)
            (hsame (by simp))
      | write i pos data =>
          have hopen := hwriting rfl hstream.1
          exact (hO.stream (Or.inl ⟨i, pos, data, rfl, fun _ => hopen⟩)).weaken
            (fun _ hs => hs) (hsame (by simp))
      | close i pos data =>
          have hopen : data ≠ [] → Writing w s i := fun hdata =>
            hwriting (by simp [Effect.changesFile, hdata]) hstream.1
          exact (hO.stream (Or.inr (Or.inl ⟨i, pos, data, rfl, hopen⟩))).weaken
            (fun _ hs => hs) (hsame (by simp))
      | remove k =>
          obtain ⟨hlive, -, hkey, -⟩ := hmode rfl
          exact (hO.remove hlive (mem_tempKeys_qt P (hkey k rfl))).weaken (fun _ hs => hs)
            (hsame (by simp))
      | rename src dst =>
          obtain ⟨hlive, -, -, hpath⟩ := hmode rfl
          obtain ⟨hsrc, hputs⟩ := hpath src dst rfl
          refine (hO.rename hI.store.wf hlive (mem_tempKeys_qt P hsrc) ?_ ?_).weaken
            (fun _ hs => hs) (hsame (by simp))
          · intro s' hs'
            exact hok.2 dst (by simp [hputs]) s' hs'
          · -- a file open for writing is not movable
            rintro s' i ⟨c', conn', hc', hwrites⟩ ⟨hmov, hi⟩
            have hopen : conn'.openFile = some i := by
              cases conn' with
              | serving hs' s'' pc'' =>
                  exact (Connection.writes_serving.mp hwrites).2.1
              | _ => cases hwrites
            rw [hI.store.not_movable hc' hopen hi] at hmov
            cases hmov
      | create k data => exact hstream.elim

/-- The removal of a temporary file by the holder of the lock. -/
private theorem owns_cleanFile (hI : FrameInv P w h) {s : ActiveTransferSession} {k : κ}
    (htarget : w.manager.server.cleaning.target = some s)
    (hkey : P.qtKey s.tempFilePath = some k) :
    Owns P ((FileOp.remove k).apply w.fs) (· ∈ liveSessions w) (Writing w)
      (h ++ [.fileOp s (.remove k) ((FileOp.remove k).hits w.fs)
        ((FileOp.remove k).makes w.fs)]) := by
  have hmem : s ∈ w.manager.tables.cleaning.sessions := by
    change s ∈ w.manager.server.cleaning.sessions
    cases hcl : w.manager.server.cleaning with
    | idle => simp [hcl, Cleaning.target] at htarget
    | cancel s' => simpa [hcl, Cleaning.target, Cleaning.sessions, eq_comm] using htarget
    | stop todo =>
        cases todo with
        | nil => simp [hcl, Cleaning.target] at htarget
        | cons s' todo =>
            simp only [hcl, Cleaning.target, Option.some.injEq] at htarget
            simp [Cleaning.sessions, htarget]
  exact hI.owns.remove (mem_liveSessions.mpr (Or.inl (hI.clean s hmem)))
    (mem_tempKeys_qt P hkey)

/-- **One step.** -/
theorem frameInv_step (hI : FrameInv P w h) (hok : PathsReserved P H w h a)
    (hs : transferStep P H w a = some (w', es)) : FrameInv P w' (h ++ es) := by
  have ht := step_cases hs
  refine { store := storeInv_step hI.store ht, clean := ?_, owns := ?_ }
  · cases ht with
    | control _ htable => exact htable.cleansRegistered hI.clean
    | clean _ htable => exact htable.cleansRegistered hI.clean
    | callback _ _ htable => exact htable.cleansRegistered hI.clean
    | cleanFile _ _ htable => exact htable.cleansRegistered hI.clean
    | accept | connQuiet | connFile | create => exact hI.clean
    | connEffect _ _ _ htables =>
        rw [htables]
        exact hI.clean
  · cases ht with
    | @control _ m _ hcall htable =>
        have hes := htable.no_fileOp
        rcases htable.sessions_cases with hsub | ⟨-, -, s, hreg, hadd⟩
        · exact owns_quiet hI (step_cases hs) rfl hsub hes fun c s k es' heq =>
            htable.not_connection c s _ (by rw [heq]; exact List.mem_cons_self)
        · have hreserved := hok.1 s (mem_registersOf hs hreg)
          have hlive : ∀ s' ∈ liveSessions { w with manager := m },
              s' = s ∨ s' ∈ liveSessions w := by
            intro s' hs'
            rcases mem_liveSessions.mp hs' with ⟨id, hl⟩ | hconn
            · exact (hadd id s' hl).imp_right fun hl =>
                mem_liveSessions.mpr (Or.inl ⟨id, hl⟩)
            · exact Or.inr (mem_liveSessions.mpr (Or.inr hconn))
          exact (hI.owns.register hlive (fun k hk => (hreserved k hk).1)
            (fun k hk => (hreserved k hk).2)).quiet (fun _ hs => hs) (fun _ _ hs => hs) hes
    | clean hbusy htable =>
        rcases htable.sessions_cases with hsub | ⟨hidle, -⟩
        · exact owns_quiet hI (step_cases hs) rfl hsub htable.no_fileOp
            fun c s k es' heq =>
              htable.not_connection c s _ (by rw [heq]; exact List.mem_cons_self)
        · exact absurd hidle hbusy
    | cleanFile htarget hkey htable =>
        have hO := owns_cleanFile hI htarget hkey
        rw [List.append_cons]
        refine hO.quiet ?_ (fun _ _ hs => hs) htable.no_fileOp
        rcases htable.sessions_cases with hsub | ⟨hidle, -⟩
        · exact fun s hs' => (step_cases hs).live hsub hs'
        · change w.manager.server.cleaning = .idle at hidle
          rw [hidle] at htarget
          cases htarget
    | accept =>
        exact owns_quiet hI (step_cases hs) rfl (fun _ _ hl => hl) (by simp) (by simp)
    | connQuiet hc hmove =>
        exact owns_quiet hI (step_cases hs) rfl (fun _ _ hl => hl) (by simp) (by simp)
    | connFile hc hmove =>
        refine (owns_connFile hI hok hc (Connection.step_cases hmove) ?_).weaken
          (fun s' hs' => (step_cases hs).live (fun _ _ hl => hl) hs') (fun _ _ hs => hs)
        intro s' i hw
        rcases (step_cases hs).writing hw with hold | ⟨c, k, es', heq, hi⟩
        · exact Or.inl hold
        · simp only [List.cons.injEq, TransferEvent.connection.injEq,
            Effect.file.injEq] at heq
          obtain ⟨⟨-, rfl, rfl⟩, -⟩ := heq
          exact Or.inr ⟨k, rfl, rfl, hi⟩
    | callback hcb hstep htable =>
        refine owns_quiet hI (step_cases hs) rfl ?_ htable.no_fileOp fun c s k es' heq =>
          htable.not_connection c s _ (by rw [heq]; exact List.mem_cons_self)
        simp only
        rw [FileTransferManager.onFinished_server hstep]
        exact fun _ _ hl => hl
    | connEffect hc hmove hfile htables hminor =>
        refine owns_quiet hI (step_cases hs) rfl ?_ ?_ ?_
        · intro id s hl
          have hsessions := congrArg Tables.sessions htables
          simp only [FileTransferManager.tables] at hsessions
          rwa [← hsessions]
        · intro e he
          rcases List.mem_cons.mp he with rfl | he
          · rfl
          · exact TransferEvent.minor_no_fileOp (hminor e he)
        · intro c s k es' heq
          simp only [List.cons.injEq, TransferEvent.connection.injEq] at heq
          exact hfile _ heq.1.2.2
    | @create k data hfree =>
        refine (hI.owns.create hfree ?_).weaken
          (fun s' hs' => (step_cases hs).live (fun _ _ hl => hl) hs') (fun _ _ hs => hs)
        exact fun s' hs' => hok.2 k (by simp [putsAt]) s' hs'

theorem frameInv_init (hw : (transferMachine P H).Init w) : FrameInv P w [] := by
  refine { store := storeInv_init hw, clean := ?_, owns := ?_ }
  all_goals obtain ⟨-, -, hmanager, hconns⟩ := hw
  · simp [hmanager, Tables.CleansRegistered, FileTransferManager.tables, Cleaning.sessions]
  · have hlive : ∀ s, s ∉ liveSessions w := by
      intro s hs
      simp [liveSessions, hmanager, hconns] at hs
    refine
      { excl := fun s _ _ hs => absurd hs (hlive s)
        own := fun s _ _ hs => absurd hs (hlive s)
        opened := ?_
        fresh := by simp [CreatedFor, SavedFile]
        frame := by simp [FrameKept] }
    rintro s i ⟨c, conn, hc, -⟩
    simp [hconns] at hc

/-! ## Whole runs -/

/-- Files change by one operation of the server or of another program; the
event of a server's operation is in the history. -/
theorem Transition.files (ht : Transition P w a w' es) :
    (w'.fs = w.fs ∧ ∀ e ∈ es, e.isFileOp = false) ∨
      ∃ op, w'.fs = op.apply w.fs ∧
        ((∃ s, ∃ es₁ es₂, es = es₁ ++ .fileOp s op (op.hits w.fs) (op.makes w.fs) :: es₂ ∧
            (∀ e ∈ es₁, e.isFileOp = false) ∧ ∀ e ∈ es₂, e.isFileOp = false) ∨
          (op.hits w.fs = none ∧ ∀ e ∈ es, e.isFileOp = false)) := by
  cases ht with
  | control _ htable => exact Or.inl ⟨rfl, htable.no_fileOp⟩
  | clean _ htable => exact Or.inl ⟨rfl, htable.no_fileOp⟩
  | callback _ _ htable => exact Or.inl ⟨rfl, htable.no_fileOp⟩
  | cleanFile _ _ htable =>
      exact Or.inr ⟨_, rfl, Or.inl ⟨_, [], _, rfl, by simp, htable.no_fileOp⟩⟩
  | accept | connQuiet => exact Or.inl ⟨rfl, by simp⟩
  | connFile hc hmove =>
      exact Or.inr ⟨_, rfl, Or.inl ⟨_, [_], [], rfl,
        by simp [TransferEvent.isFileOp], by simp⟩⟩
  | connEffect hc hmove hfile htables hminor =>
      refine Or.inl ⟨rfl, ?_⟩
      intro e he
      rcases List.mem_cons.mp he with rfl | he
      · rfl
      · exact TransferEvent.minor_no_fileOp (hminor e he)
  | @create k data hfree =>
      exact Or.inr ⟨.create k data, rfl, Or.inr ⟨rfl, by simp [TransferEvent.isFileOp]⟩⟩

/-- File `i` has the name `k` and the content `data`, and the server must not
touch it: it did not create it, or it saved it. -/
structure Guarded (w : World κ H) (h : List (TransferEvent κ)) (k : κ) (i : Nat)
    (data : Bytes) : Prop where
  name : w.fs.names k = some i
  content : w.fs.bytes i = data
  foreign : (∀ id, ¬CreatedFor h id i) ∨ SavedFile h i

/-- A guarded file stays guarded. -/
theorem guarded_step (hI : FrameInv P w h) (hok : PathsReserved P H w h a)
    (hs : transferStep P H w a = some (w', es)) {k : κ} {i : Nat} {data : Bytes}
    (hg : Guarded w h k i data) : Guarded w' (h ++ es) k i data := by
  have hframe := (frameInv_step hI hok hs).owns.frame
  have hlt : i < w.fs.next := hI.store.wf.nameLt k i hg.name
  have hsame : (∀ e ∈ es, e.isFileOp = false) →
      (∀ id, ¬CreatedFor (h ++ es) id i) ∨ SavedFile (h ++ es) i := by
    intro hes
    simp only [createdFor_append_quiet hes, savedFile_append_quiet hes]
    exact hg.foreign
  rcases (step_cases hs).files with ⟨hfs, hes⟩ | ⟨op, hfs, hop⟩
  · exact ⟨hfs ▸ hg.name, hfs ▸ hg.content, hsame hes⟩
  · have hkeep : op.hits w.fs ≠ some i →
        w'.fs.names k = some i ∧ w'.fs.bytes i = data := by
      intro hhit
      rw [hfs]
      exact ⟨FileOp.names_frame op hg.name hhit,
        (FileOp.bytes_frame op hlt hhit).trans hg.content⟩
    rcases hop with ⟨s, es₁, es₂, rfl, hes₁, hes₂⟩ | ⟨hnone, hes⟩
    · -- the server's operations hit only its own unsaved files
      have hhit : op.hits w.fs ≠ some i := by
        intro hhit
        rw [hhit] at hframe
        obtain ⟨hc, hns⟩ := hframe (h ++ es₁) s op i (op.makes w.fs) es₂ (by simp)
        rw [createdFor_append_quiet hes₁] at hc
        rw [savedFile_append_quiet hes₁] at hns
        rcases hg.foreign with hnc | hsaved
        · exact hnc _ hc
        · exact hns hsaved
      obtain ⟨hname, hcontent⟩ := hkeep hhit
      refine ⟨hname, hcontent, ?_⟩
      rw [← List.append_assoc, List.append_cons]
      simp only [createdFor_append_quiet hes₂, savedFile_append_quiet hes₂,
        createdFor_snoc, savedFile_snoc, createdFor_append_quiet hes₁,
        savedFile_append_quiet hes₁]
      rcases hg.foreign with hnc | hsaved
      · left
        rintro id (hc | ⟨hmade, -⟩)
        · exact hnc id hc
        · -- a file the operation creates has a number that was not in use
          have := FileOp.makes_eq_next hmade
          omega
      · exact Or.inr (Or.inl hsaved)
    · obtain ⟨hname, hcontent⟩ := hkeep (by simp [hnone])
      exact ⟨hname, hcontent, hsame hes⟩

theorem frameInv_reach (hr : (transferMachine P H).Reach (PathsReserved P H) w h) :
    FrameInv P w h :=
  hr.invariant _ (fun _ hw => frameInv_init hw) fun _ _ _ _ _ hI hok hs =>
    frameInv_step hI hok hs

/-- **The server destroys only its own files**, in every run in which
temporary paths are reserved: what it truncates, overwrites, renames away or
deletes it created for the same transfer and did not save before; and from any
state of the run on, a file it did not create, or saved, keeps its name and
its content. -/
theorem server_destroys_own_files
    (hr : (transferMachine P H).Reach (PathsReserved P H) w h) :
    FrameKept h ∧ ∀ w' h', (transferMachine P H).Steps (PathsReserved P H) w h w' h' →
      ∀ k i, w.fs.names k = some i → ((∀ id, ¬CreatedFor h id i) ∨ SavedFile h i) →
        w'.fs.names k = some i ∧ w'.fs.bytes i = w.fs.bytes i := by
  refine ⟨(frameInv_reach hr).owns.frame, ?_⟩
  intro w' h' hsteps k i hk hforeign
  have hg : Guarded w' h' k i (w.fs.bytes i) := by
    induction hsteps with
    | refl => exact ⟨hk, rfl, hforeign⟩
    | step hbefore hok hs ih =>
        exact guarded_step (frameInv_reach (hr.steps hbefore)) hok hs ih
  exact ⟨hg.name, hg.content⟩

end Runs

/-! ## Concrete runs -/

/-- A conforming run: a file is received and saved next to a file of the
user. -/
theorem server_destroys_own_files_sampleUpload :
    ∃ w h, (transferMachine samplePlatform sha256).Reach
        (PathsReserved samplePlatform sha256) w h ∧
      w.fs.read? "D/Iriseus/a" = some [] ∧ w.fs.read? "D/Iriseus/b" = some [5] ∧
      FrameKept h := by
  obtain ⟨w, h, hr, hh⟩ := Machine.exists_reach_of_exec
    (transferMachine samplePlatform sha256)
    (PathsReserved samplePlatform sha256)
    (s := worldWith [("D/Iriseus/b", [5])]) (worldWith_init _)
    ([.control (.start true), offerAction 1 "a" 0 "" 7] ++ connectActions 0 1 7 0 ++
      receiveEmpty 0)
    (fun w _ => decide (w.fs.read? "D/Iriseus/a" = some [] ∧
      w.fs.read? "D/Iriseus/b" = some [5]))
    (by decide +kernel)
  obtain ⟨ha, hb⟩ := of_decide_eq_true hh
  exact ⟨w, h, hr, ha, hb, (server_destroys_own_files hr).1⟩

/-- The server created no file. -/
def TransferEvent.makesNoFile : TransferEvent κ → Bool
  | .fileOp _ _ _ (some _) => false
  | _ => true

/-- The file `a.part` the program met at its start is removed. -/
def removesPart : TransferEvent String → Bool
  | .fileOp _ (.remove "a.part") (some 1) none => true
  | _ => false

/-- A file is offered next to a file of the user that has its temporary name;
the peer rejects the offer, and the user's file is removed. -/
theorem reject_removes_users_file :
    ¬∀ w h, (transferMachine samplePlatform sha256).Reach Machine.anyStep w h →
      FrameKept h := by
  intro hall
  obtain ⟨w, h, hr, hh⟩ := Machine.exists_reach_of_exec
    (transferMachine samplePlatform sha256) Machine.anyStep
    (s := worldWith [("a", [1]), ("a.part", [2])]) (worldWith_init _)
    [ .control (.start true)
    , .control (.sendFiles 1 ["a"])
    , .control (.sendNext
        { uuid := sampleUuid 1, token := sampleToken 7, opens := true, readLimit := none })
    , .control (.handleFileReject
        (.object [("transferId", .string (formatUuid (sampleUuid 1).bytes))]))
    , .clean .go ]
    (fun w h => decide (w.fs.read? "a.part" = none) && h.all TransferEvent.makesNoFile &&
      h.any removesPart)
    (by decide +kernel)
  simp only [Bool.and_eq_true, List.all_eq_true] at hh
  obtain ⟨⟨-, hnone⟩, hany⟩ := hh
  obtain ⟨e, hmem, he⟩ := List.any_eq_true.mp hany
  obtain ⟨h₁, h₂, heq⟩ := List.append_of_mem hmem
  unfold removesPart at he
  split at he
  · rename_i s
    obtain ⟨⟨s', op, hit, hmade, -⟩, -⟩ := hall w h hr h₁ s _ 1 none h₂ heq
    have := hnone _ (by rw [heq]; exact List.mem_append_left _ hmade)
    simp [TransferEvent.makesNoFile] at this
  · cases he

end Iriseus.Core
