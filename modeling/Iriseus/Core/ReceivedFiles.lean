import Iriseus.Core.OpenStreams

/-!
# The content of received files

A receiving connection hashes and counts the bytes that come from the socket,
and writes them to the file at its session's temporary path.  What it saves is
what it has hashed as long as the file at that name is its own: no other
connection that shares the temporary path opens it, and no file is put there
or renamed there meanwhile.

`Intact` is what a connection's variables say about the file at the name it
claims, for every point of mode 0.  A step of the connection itself keeps it
(`serveUpload_intact`), and so does every file operation of others that leaves
the claimed name alone (`UploadPc.Knows.frame`).

## Main results

* `received_files_intact` — in runs whose local file operations succeed and in
  which claimed names are left alone, every saved file has the announced size
  and hash when its success is reported.
-/

namespace Iriseus.Core

open Iriseus.Verified
open Iriseus.Verified.ByteStream
open Iriseus.Verified.Machine

variable {κ : Type} {P : Platform κ} {H : IncrementalHash}

/-! ## What a connection knows about its file -/

/-- The content has the announced size and, if one was announced, hash. -/
def AsAnnounced (H : IncrementalHash) (s : ActiveTransferSession) (data : Bytes) : Prop :=
  data.length = s.expectedSize.toNat ∧
    (s.expectedSha256 ≠ "" → toHex (H.digest data) = s.expectedSha256)

/-- The bytes stored and buffered so far. -/
def Receiving.data (fs : FileStore κ) (r : Receiving H) : Bytes :=
  fs.bytes r.out.file ++ r.out.pending

/-- The loop's variables describe the file at `k`: the stream is at its end,
and what is stored and buffered is what was hashed and counted. -/
structure Receiving.Tracks (fs : FileStore κ) (k : κ) (r : Receiving H) : Prop where
  name : fs.names k = some r.out.file
  good : r.out.good = true
  pos : r.out.pos = (fs.bytes r.out.file).length
  hashed : H.Absorbed r.shaState (r.data fs)
  total : r.totalReceived = UInt64.ofNat (r.data fs).length
  bound : (r.data fs).length ≤ FileStore.maxFileBytes

/-- The name a body claims: that of its temporary file from opening it to
renaming it, then the final one. -/
def UploadPc.claim (P : Platform κ) (s : ActiveTransferSession) : UploadPc H → Option κ
  | .openTemp => none
  | .dropInterrupted => none
  | .interrupted => none
  | .dropBadHash => none
  | .dropUnsaved => none
  | .saved finalPath => P.qtKey finalPath
  | _ => P.stdKey s.tempFilePath

/-- What the variables of a body say about the file at the claimed name. -/
def UploadPc.Knows (s : ActiveTransferSession) (fs : FileStore κ) (k : κ) :
    UploadPc H → Prop
  | .recvHead r => r.Tracks fs k
  | .recvLen r => r.Tracks fs k
  | .recvChunk r _ => r.Tracks fs k
  | .recvWrite r _ => r.Tracks fs k
  | .recvReport r => r.Tracks fs k
  | .closeTemp r _ => r.Tracks fs k
  | .recvCheck shaState totalReceived _ => ∀ data, fs.read? k = some data →
      H.Absorbed shaState data ∧ totalReceived = UInt64.ofNat data.length ∧
        data.length ≤ FileStore.maxFileBytes
  | .verify shaState => ∀ data, fs.read? k = some data →
      H.Absorbed shaState data ∧ data.length = s.expectedSize.toNat
  | .resolve _ _ => ∀ data, fs.read? k = some data → AsAnnounced H s data
  | .rename _ => ∀ data, fs.read? k = some data → AsAnnounced H s data
  | .saved _ => ∃ data, fs.read? k = some data ∧ AsAnnounced H s data
  | _ => True

/-- The body claims no name any more, or not yet. -/
def UploadPc.claimless : UploadPc H → Bool
  | .openTemp => true
  | .dropInterrupted => true
  | .interrupted => true
  | .dropBadHash => true
  | .dropUnsaved => true
  | _ => false

/-- A body that claims a name knows what is there. -/
def UploadPc.Intact (P : Platform κ) (s : ActiveTransferSession) (fs : FileStore κ)
    (pc : UploadPc H) : Prop :=
  pc.claimless = true ∨ ∃ k, pc.claim P s = some k ∧ pc.Knows s fs k

/-- The file has an open stream, or has just been saved. -/
def UploadPc.holds (pc : UploadPc H) : Bool :=
  match pc with
  | .saved _ => true
  | _ => pc.out.isSome

/-- An intact body with an open stream claims the name of its file. -/
theorem UploadPc.Intact.stream {s : ActiveTransferSession} {fs : FileStore κ}
    {pc : UploadPc H} (hI : pc.Intact P s fs) {o : OutStream} (hout : pc.out = some o) :
    ∃ k, pc.claim P s = some k ∧ fs.names k = some o.file := by
  rcases hI with hfree | ⟨k, hclaim, hknows⟩
  · cases pc <;> simp [UploadPc.claimless, UploadPc.out] at hfree hout
  · refine ⟨k, hclaim, ?_⟩
    cases pc with
    | recvHead | recvLen | recvChunk | recvWrite | recvReport | closeTemp =>
        cases hout
        exact hknows.name
    | _ => cases hout

/-! ## Operations of others -/

section Frame

variable [DecidableEq κ] {fs : FileStore κ} {op : FileOp κ} {k : κ}

theorem Receiving.Tracks.frame {r : Receiving H} (ht : r.Tracks fs k) (hwf : fs.WF)
    (hputs : op.puts ≠ some k) (htakes : op.takes = some k → fs.movable k = false)
    (hwrites : ∀ i, fs.names k = some i → op.writesTo ≠ some i) :
    r.Tracks (op.apply fs) k := by
  have hbytes := FileOp.bytes_kept hwf hputs (hwrites _ ht.name) ht.name
  have hdata : r.data (op.apply fs) = r.data fs := congrArg (· ++ r.out.pending) hbytes
  exact
    { name := FileOp.names_kept hputs htakes ht.name
      good := ht.good
      pos := by rw [hbytes]; exact ht.pos
      hashed := by rw [hdata]; exact ht.hashed
      total := by rw [hdata]; exact ht.total
      bound := by rw [hdata]; exact ht.bound }

/-- No new content appears at a name that is left alone. -/
theorem read?_of_apply (hwf : fs.WF) (hputs : op.puts ≠ some k)
    (hwrites : ∀ i, fs.names k = some i → op.writesTo ≠ some i) {data : Bytes}
    (h : (op.apply fs).read? k = some data) : fs.read? k = some data := by
  obtain ⟨i, hi, hdata⟩ := FileOp.read?_eq_some.mp h
  have hold := FileOp.names_of_apply hputs hi
  rw [FileOp.bytes_kept hwf hputs (hwrites i hold) hold] at hdata
  exact FileOp.read?_eq_some.mpr ⟨i, hold, hdata⟩

/-- **Frame.**  An operation that puts no file at the claimed name, does not
write into the file there and does not take it away while it is held keeps
what the body knows. -/
theorem UploadPc.Knows.frame {s : ActiveTransferSession} {pc : UploadPc H}
    (hk : pc.Knows s fs k) (hwf : fs.WF) (hputs : op.puts ≠ some k)
    (htakes : pc.holds = true → op.takes = some k → fs.movable k = false)
    (hwrites : ∀ i, fs.names k = some i → op.writesTo ≠ some i) :
    pc.Knows s (op.apply fs) k := by
  cases pc with
  | recvHead | recvLen | recvChunk | recvWrite | recvReport | closeTemp =>
      exact Receiving.Tracks.frame hk hwf hputs (htakes rfl) hwrites
  | recvCheck | verify | resolve | rename =>
      exact fun data hdata => hk data (read?_of_apply hwf hputs hwrites hdata)
  | saved finalPath =>
      obtain ⟨data, hdata, hann⟩ := hk
      obtain ⟨i, hi, rfl⟩ := FileOp.read?_eq_some.mp hdata
      exact ⟨_, FileOp.read?_eq_some.mpr ⟨i, FileOp.names_kept hputs (htakes rfl) hi,
        FileOp.bytes_kept hwf hputs (hwrites i hi) hi⟩, hann⟩
  | openTemp | dropInterrupted | interrupted | dropBadHash | dropUnsaved => trivial

end Frame

/-! ## The connection's own steps -/

/-- The local file operations of a step succeed. -/
def UploadPc.succeeds (inp : Input) : UploadPc H → Bool
  | .openTemp => inp ≠ .fail
  | .recvWrite _ _ => match inp with
      | .stored _ => true
      | _ => false
  | .closeTemp _ _ => inp = .go
  | .rename _ => inp ≠ .fail
  | .dropInterrupted => inp ≠ .fail
  | .dropBadHash => inp ≠ .fail
  | .dropUnsaved => inp ≠ .fail
  | _ => true

/-- The files after an effect. -/
def Effect.after [DecidableEq κ] (fs : FileStore κ) : Effect κ → FileStore κ
  | .file op => op.apply fs
  | _ => fs

section Serve

variable [DecidableEq κ] {v : View κ} {s : ActiveTransferSession}

/-- Opening the temporary file. -/
theorem tracks_open (fs : FileStore κ) (k : κ) :
    Receiving.Tracks ((FileOp.openTrunc k).apply fs) k
      ({ out := { file := fs.slot k, pos := 0, pending := [], good := true }
         shaState := H.init, totalReceived := 0 } : Receiving H) where
  name := by simp [FileOp.apply]
  good := rfl
  pos := by simp [FileOp.apply]
  hashed := by simpa [Receiving.data, FileOp.apply] using H.absorbed_init
  total := by simp [Receiving.data, FileOp.apply]
  bound := by simp [Receiving.data, FileOp.apply]

/-- Writing a chunk appends it to what is stored and buffered. -/
theorem write_data {fs : FileStore κ} {k : κ} {r : Receiving H} (ht : r.Tracks fs k)
    (chunk : Bytes) (n : Nat) :
    let data := r.out.pending ++ chunk
    (FileOp.apply fs (.write r.out.file r.out.pos (data.take n))).bytes r.out.file ++
      data.drop n = r.data fs ++ chunk := by
  simp only [FileOp.apply, Function.update_self, ht.pos, FileStore.overwrite_end,
    Receiving.data]
  rw [List.append_assoc, List.take_append_drop, List.append_assoc]

/-- Writing a chunk and hashing it. -/
theorem tracks_write {fs : FileStore κ} {k : κ} {r : Receiving H}
    (ht : r.Tracks fs k) {chunk : Bytes} {n : Nat} {out : OutStream} {op : FileOp κ}
    (h : r.out.write chunk (.stored n) = some (out, op)) :
    Receiving.Tracks (op.apply fs) k
      { out := out, shaState := H.update r.shaState chunk
        totalReceived := r.totalReceived + UInt64.ofNat chunk.length } := by
  simp only [OutStream.write, ht.good, if_true] at h
  split at h
  · rename_i hfit
    cases h
    have hdata := write_data ht chunk n
    have hlen : (r.data fs ++ chunk).length = (r.data fs).length + chunk.length :=
      List.length_append
    refine
      { name := ht.name
        good := rfl
        pos := ?_
        hashed := ?_
        total := ?_
        bound := ?_ }
    · have htake : ((r.out.pending ++ chunk).take n).length = n := by
        rw [List.length_take]
        exact Nat.min_eq_left hfit.1
      simp only [FileOp.apply, Function.update_self, ht.pos, FileStore.overwrite_end,
        List.length_append, htake]
    · rw [Receiving.data, hdata]
      exact ht.hashed.update chunk
    · rw [Receiving.data, hdata, hlen, UInt64.ofNat_add, ← ht.total]
    · rw [Receiving.data, hdata, hlen]
      have hroom := hfit.2
      simp only [ht.pos, Receiving.data, List.length_append] at hroom ⊢
      omega
  · cases h

/-- Closing the stream stores what it buffers. -/
theorem read?_close {fs : FileStore κ} {k : κ} {r : Receiving H}
    (ht : r.Tracks fs k) :
    ((FileOp.close r.out.file r.out.pos r.out.pending).apply fs).read? k =
      some (r.data fs) := by
  refine FileOp.read?_eq_some.mpr ⟨r.out.file, ht.name, ?_⟩
  simp only [FileOp.apply, Function.update_self]
  rw [ht.pos]
  exact FileStore.overwrite_end _ _

/-- A count below the bound is the length counted. -/
theorem length_of_total {n : Nat} {total : UInt64}
    (htotal : total = UInt64.ofNat n) (hbound : n ≤ FileStore.maxFileBytes) :
    n = total.toNat := by
  have hlt : n < 2 ^ 64 := by
    have : FileStore.maxFileBytes < 2 ^ 64 := by decide
    omega
  rw [htotal, UInt64.toNat_ofNat_of_lt' hlt]

/-- Once the stream is closed the file holds what was hashed and counted. -/
theorem UploadPc.Knows.close {fs : FileStore κ} {k : κ} {r : Receiving H} {error : Bool}
    (hk : (UploadPc.closeTemp r error).Knows s fs k) :
    (UploadPc.recvCheck r.shaState r.totalReceived error).Knows s
      ((FileOp.close r.out.file r.out.pos r.out.pending).apply fs) k := by
  have ht : r.Tracks fs k := hk
  intro data hdata
  rw [read?_close ht, Option.some.injEq] at hdata
  subst hdata
  exact ⟨ht.hashed, ht.total, ht.bound⟩

omit [DecidableEq κ] in
/-- What passes the size check has the announced size. -/
theorem UploadPc.Knows.check {fs : FileStore κ} {k : κ} {shaState : H.State}
    {totalReceived : UInt64} {error : Bool}
    (hk : (UploadPc.recvCheck shaState totalReceived error).Knows s fs k)
    (htotal : totalReceived = s.expectedSize) :
    (UploadPc.verify shaState).Knows s fs k := by
  intro data hdata
  obtain ⟨habs, hcount, hbound⟩ := hk data hdata
  exact ⟨habs, by rw [← htotal]; exact length_of_total hcount hbound⟩

omit [DecidableEq κ] in
/-- What passes the hash check is as announced. -/
theorem UploadPc.Knows.verify {fs : FileStore κ} {k : κ} {shaState : H.State}
    {finalPath : String} {count : Nat} (hk : (UploadPc.verify shaState).Knows s fs k)
    (hsha : ¬(s.expectedSha256 ≠ "" ∧ toHex (H.final shaState) ≠ s.expectedSha256)) :
    (UploadPc.resolve finalPath count : UploadPc H).Knows s fs k := by
  intro data hdata
  obtain ⟨habs, hlen⟩ := hk data hdata
  refine ⟨hlen, fun hannounced => ?_⟩
  rw [← habs.final]
  simpa [hannounced] using hsha

/-- The renamed file is as announced. -/
theorem UploadPc.Knows.rename {fs : FileStore κ} {src dst : κ} {finalPath : String}
    (hk : (UploadPc.rename finalPath : UploadPc H).Knows s fs src)
    (hmov : fs.movable src = true) (hfree : fs.exists? dst = false) :
    (UploadPc.saved finalPath : UploadPc H).Knows s
      ((FileOp.rename src dst).apply fs) dst := by
  obtain ⟨data, hdata⟩ := FileStore.read?_of_movable hmov
  exact ⟨data, (FileOp.read?_rename hmov hfree).trans hdata, hk data hdata⟩

/-- **The body's own step** keeps what it knows, if its file operations succeed
and the file it renames is the one it wrote. -/
theorem serveUpload_intact {pc pc' : UploadPc H} {inp : Input} {e : Effect κ}
    (h : serveUpload P H v s pc inp = some (.upload pc', e))
    (hsucceeds : pc.succeeds inp = true)
    (hown : ∀ src dst, e = .file (.rename src dst) → P.stdKey s.tempFilePath = some src)
    (hI : pc.Intact P s v.fs) : pc'.Intact P s (e.after v.fs) := by
  cases pc with
  | openTemp =>
      simp only [serveUpload] at h
      split at h
      · split at h <;> cases h
        rename_i k hk
        exact Or.inr ⟨k, hk, tracks_open v.fs k⟩
      · cases h
      · cases h
  | recvHead r =>
      obtain ⟨k, hclaim, hknows⟩ := hI.resolve_left (by simp [UploadPc.claimless])
      simp only [serveUpload] at h
      (repeat' split at h) <;> cases h <;> exact Or.inr ⟨k, hclaim, hknows⟩
  | recvLen r =>
      obtain ⟨k, hclaim, hknows⟩ := hI.resolve_left (by simp [UploadPc.claimless])
      simp only [serveUpload] at h
      (repeat' split at h) <;> cases h <;> exact Or.inr ⟨k, hclaim, hknows⟩
  | recvChunk r chunkSize =>
      obtain ⟨k, hclaim, hknows⟩ := hI.resolve_left (by simp [UploadPc.claimless])
      simp only [serveUpload] at h
      (repeat' split at h) <;> cases h <;> exact Or.inr ⟨k, hclaim, hknows⟩
  | recvWrite r chunk =>
      obtain ⟨k, hclaim, hknows⟩ := hI.resolve_left (by simp [UploadPc.claimless])
      cases inp with
      | stored n =>
          simp only [serveUpload] at h
          split at h
          · rename_i out op hop
            cases h
            exact Or.inr ⟨k, hclaim, tracks_write hknows hop⟩
          · cases h
      | _ => cases hsucceeds
  | recvReport r =>
      obtain ⟨k, hclaim, hknows⟩ := hI.resolve_left (by simp [UploadPc.claimless])
      simp only [serveUpload] at h
      split at h <;> cases h
      exact Or.inr ⟨k, hclaim, hknows⟩
  | closeTemp r error =>
      obtain ⟨k, hclaim, hknows⟩ := hI.resolve_left (by simp [UploadPc.claimless])
      cases inp with
      | go =>
          cases h
          exact Or.inr ⟨k, hclaim, hknows.close⟩
      | _ => cases hsucceeds
  | recvCheck shaState totalReceived error =>
      obtain ⟨k, hclaim, hknows⟩ := hI.resolve_left (by simp [UploadPc.claimless])
      simp only [serveUpload] at h
      split at h
      · split at h
        · cases h
          exact Or.inl rfl
        · rename_i hcheck
          cases h
          simp only [Bool.or_eq_true, decide_eq_true_eq, ne_eq, not_or, not_not] at hcheck
          exact Or.inr ⟨k, hclaim, hknows.check hcheck.2⟩
      · cases h
  | verify shaState =>
      obtain ⟨k, hclaim, hknows⟩ := hI.resolve_left (by simp [UploadPc.claimless])
      simp only [serveUpload] at h
      split at h
      · split at h
        · cases h
          exact Or.inl rfl
        · rename_i hcheck
          cases h
          exact Or.inr ⟨k, hclaim, hknows.verify hcheck⟩
      · cases h
  | resolve finalPath count =>
      obtain ⟨k, hclaim, hknows⟩ := hI.resolve_left (by simp [UploadPc.claimless])
      simp only [serveUpload] at h
      (repeat' split at h) <;> cases h <;> exact Or.inr ⟨k, hclaim, hknows⟩
  | rename finalPath =>
      obtain ⟨k, hclaim, hknows⟩ := hI.resolve_left (by simp [UploadPc.claimless])
      simp only [serveUpload] at h
      split at h
      · split at h
        · rename_i src dst hsrc hdst
          split at h
          · rename_i hmov
            cases h
            -- the file moved is the one the body wrote
            have hk : k = src := Option.some.inj (hclaim.symm.trans (hown src dst rfl))
            subst hk
            exact Or.inr ⟨dst, hdst, hknows.rename hmov.1 hmov.2⟩
          · cases h
            exact Or.inl rfl
        · cases h
          exact Or.inl rfl
      · cases h
        exact Or.inl rfl
      · cases h
  | dropInterrupted | dropBadHash | dropUnsaved =>
      simp only [serveUpload] at h
      split at h <;> cases h <;> exact Or.inl rfl
  | interrupted | saved =>
      simp only [serveUpload] at h
      split at h <;> cases h

end Serve

/-! ## The condition on runs -/

section Condition

variable (P : Platform κ) {H : IncrementalHash}

/-- The rename a body is about to perform: it goes through if the temporary
file can be moved and nothing has the final name. -/
def UploadPc.renames (fs : FileStore κ) (s : ActiveTransferSession) :
    UploadPc H → Option (κ × κ)
  | .rename finalPath =>
      match P.qtKey s.tempFilePath, P.qtKey finalPath with
      | some src, some dst =>
          if fs.movable src ∧ fs.exists? dst = false then some (src, dst) else none
      | _, _ => none
  | _ => none

/-- The name at which a body is about to put a file. -/
def UploadPc.putsAt (fs : FileStore κ) (s : ActiveTransferSession) (pc : UploadPc H) :
    Option κ :=
  match pc with
  | .openTemp => P.stdKey s.tempFilePath
  | _ => (pc.renames P fs s).map Prod.snd

def Connection.claim : Connection H → Option κ
  | .serving _ s (.upload pc) => pc.claim P s
  | _ => none

/-- The name under which a connection has just saved its file. -/
def Connection.savedAt : Connection H → Option κ
  | .serving _ _ (.upload (.saved finalPath)) => P.qtKey finalPath
  | _ => none

/-- The session and the body of the receiving connection that moves. -/
def receivingOf (w : World κ H) :
    TransferAction κ → Option (ActiveTransferSession × UploadPc H × Input)
  | .conn c inp =>
      match w.conns[c]? with
      | some (.serving _ s (.upload pc)) => some (s, pc, inp)
      | _ => none
  | _ => none

/-- The connections that do not move. -/
def othersOf (w : World κ H) : TransferAction κ → List (Connection H)
  | .conn c _ => w.conns.eraseIdx c
  | _ => w.conns

/-- The name at which a step puts a file. -/
def putsOf (w : World κ H) (a : TransferAction κ) : Option κ :=
  match a with
  | .create k _ => some k
  | _ => (receivingOf w a).bind fun r => r.2.1.putsAt P w.fs r.1

/-- The name at which a step removes a file. -/
def removesOf (w : World κ H) (a : TransferAction κ) : Option κ :=
  match a with
  | .clean _ => w.manager.server.cleaning.target.bind fun s => P.qtKey s.tempFilePath
  | _ => (receivingOf w a).bind fun r =>
      if r.2.1.drops then P.qtKey r.1.tempFilePath else none

/-- The local file operations of the receiving connections succeed. -/
def LocalOpsSucceed : StepCond (World κ H) (TransferAction κ) (TransferEvent κ) :=
  fun w _ a => ∀ r ∈ receivingOf w a, r.2.1.succeeds r.2.2 = true

/-- A connection renames the file it wrote: the two readings of its temporary
path are one name. -/
def RenamesOwn : StepCond (World κ H) (TransferAction κ) (TransferEvent κ) :=
  fun w _ a => ∀ r ∈ receivingOf w a, ∀ p ∈ r.2.1.renames P w.fs r.1,
    P.stdKey r.1.tempFilePath = some p.1

/-- No file is put at a name that another connection is receiving into or has
just saved its file at, and no file just saved is removed. -/
def NamesLeftAlone : StepCond (World κ H) (TransferAction κ) (TransferEvent κ) :=
  fun w _ a =>
    (∀ k ∈ putsOf P w a, ∀ conn ∈ othersOf w a, conn.claim P ≠ some k) ∧
      ∀ k ∈ removesOf P w a, ∀ conn ∈ othersOf w a, conn.savedAt P ≠ some k

/-- The three together. -/
def ExclusiveNames : StepCond (World κ H) (TransferAction κ) (TransferEvent κ) :=
  fun w h a => LocalOpsSucceed w h a ∧ RenamesOwn P w h a ∧ NamesLeftAlone P w h a

variable [DecidableEq κ]

instance : ∀ (w : World κ H) (h : List (TransferEvent κ)) (a : TransferAction κ),
    Decidable (LocalOpsSucceed w h a) := fun w _ a =>
  inferInstanceAs (Decidable (∀ r ∈ receivingOf w a, r.2.1.succeeds r.2.2 = true))

instance : ∀ (w : World κ H) (h : List (TransferEvent κ)) (a : TransferAction κ),
    Decidable (RenamesOwn P w h a) := fun w _ a =>
  inferInstanceAs (Decidable (∀ r ∈ receivingOf w a, ∀ p ∈ r.2.1.renames P w.fs r.1,
    P.stdKey r.1.tempFilePath = some p.1))

instance : ∀ (w : World κ H) (h : List (TransferEvent κ)) (a : TransferAction κ),
    Decidable (NamesLeftAlone P w h a) := fun _ _ _ =>
  inferInstanceAs (Decidable (_ ∧ _))

instance : ∀ (w : World κ H) (h : List (TransferEvent κ)) (a : TransferAction κ),
    Decidable (ExclusiveNames P w h a) := fun _ _ _ =>
  inferInstanceAs (Decidable (_ ∧ _))

end Condition

/-! ## The invariant -/

/-- A connection's step either keeps its claim or claims the name at which it
puts a file. -/
theorem serveUpload_claim {v : View κ} {s : ActiveTransferSession}
    {pc pc' : UploadPc H} {inp : Input} {e : Effect κ}
    (h : serveUpload P H v s pc inp = some (.upload pc', e)) {k : κ}
    (hk : pc'.claim P s = some k) :
    pc.claim P s = some k ∨ pc.putsAt P v.fs s = some k := by
  cases pc with
  | openTemp =>
      simp only [serveUpload] at h
      (repeat' split at h) <;> cases h
      exact Or.inr hk
  | rename finalPath =>
      simp only [serveUpload] at h
      split at h
      · split at h
        · rename_i src dst hsrc hdst
          split at h
          · rename_i hmov
            cases h
            right
            simp only [UploadPc.claim] at hk
            simp only [UploadPc.putsAt, UploadPc.renames, hsrc, hdst, hmov, if_true,
              and_self, Option.map_some]
            exact hdst.symm.trans hk
          · cases h
            cases hk
        · cases h
          cases hk
      · cases h
        cases hk
      · cases h
  | recvHead | recvLen | recvChunk | recvWrite | recvReport | closeTemp | recvCheck
  | verify | resolve =>
      simp only [serveUpload] at h
      (repeat' split at h) <;> cases h <;> first | exact Or.inl hk | cases hk
  | dropInterrupted | interrupted | dropBadHash | dropUnsaved | saved =>
      simp only [serveUpload] at h
      split at h <;> cases h
      all_goals cases hk

section Runs

variable {w w' : World κ H} {a : TransferAction κ} {h es : List (TransferEvent κ)}

/-- Every receiving connection is intact, and no two claim one name. -/
structure ReceiveInv (P : Platform κ) (w : World κ H) : Prop where
  store : StoreInv w
  excl : ∀ (c c' : Nat) (conn conn' : Connection H) (k : κ), w.conns[c]? = some conn →
    w.conns[c']? = some conn' → conn.claim P = some k → conn'.claim P = some k → c = c'
  intact : ∀ (c : Nat) (hs : FileTransferHandshake) (s : ActiveTransferSession)
    (pc : UploadPc H), w.conns[c]? = some (.serving hs s (.upload pc)) →
      pc.Intact P s w.fs

/-- The same for a connection. -/
theorem ConnectionStep.claim {srv : FileTransferServer} {c : Nat} {inp : Input}
    {conn conn' : Connection H} {eff : Option (ActiveTransferSession × Effect κ)}
    (hc : w.conns[c]? = some conn)
    (hmove : ConnectionStep P srv w.fs conn inp conn' eff) {k : κ}
    (hk : conn'.claim P = some k) :
    conn.claim P = some k ∨ putsOf P w (.conn c inp) = some k := by
  cases hmove with
  | greeted | ends | found | authenticated => cases hk
  | @serves _ hs s pc pc' e hserve =>
      cases pc' with
      | upload u' =>
          cases pc with
          | upload u =>
              have hputs : putsOf P w (.conn c inp) = u.putsAt P w.fs s := by
                simp [putsOf, receivingOf, hc]
              rw [hputs]
              exact serveUpload_claim hserve hk
          | dispatch b =>
              simp only [serve] at hserve
              (repeat' split at hserve) <;> cases hserve
              cases hk
          | download d => simpa [Pc.mode] using (serve_mode hserve).1
          | failed error => simpa [Pc.mode] using (serve_mode hserve).1
          | done => simpa [Pc.mode] using (serve_mode hserve).1
      | _ => cases hk

/-- A connection's file operation puts files at the names its step is said to
put one. -/
theorem ConnectionStep.op_puts {srv : FileTransferServer} {c : Nat} {inp : Input}
    {conn conn' : Connection H} {s : ActiveTransferSession} {op : FileOp κ}
    (hc : w.conns[c]? = some conn)
    (hmove : ConnectionStep P srv w.fs conn inp conn' (some (s, .file op))) {k : κ}
    (hk : op.puts = some k) : putsOf P w (.conn c inp) = some k := by
  cases hmove with
  | @serves _ hs _ pc pc' _ hserve =>
      have hreceiving : ∀ u, pc = .upload u →
          receivingOf w (.conn c inp) = some (s, u, inp) := by
        rintro u rfl
        simp [receivingOf, hc]
      cases op with
      | openTrunc k' =>
          cases hk
          obtain ⟨u, rfl⟩ := (serve_mode hserve).2.1 rfl
          obtain ⟨rfl, hkey⟩ := (serveUpload_paths hserve).1 k rfl
          simp [putsOf, hreceiving _ rfl, UploadPc.putsAt, hkey]
      | rename src dst =>
          cases hk
          obtain ⟨u, rfl⟩ := (serve_mode hserve).2.1 rfl
          obtain ⟨hsrc, hmov, hfree, finalPath, rfl, -, hdst⟩ :=
            (serveUpload_paths hserve).2.2 src k rfl
          simp [putsOf, hreceiving _ rfl, UploadPc.putsAt, UploadPc.renames, hsrc, hdst, hmov,
            hfree]
      | create k' data => exact (serve_stream hserve).elim
      | openRead | write | close | remove => cases hk

/-- A connection's file operation puts files at the names its step is said to
put one, takes away its own temporary file only, and writes into its own
stream. -/
theorem ConnectionStep.op_names {srv : FileTransferServer} {c : Nat} {inp : Input}
    {conn conn' : Connection H} {s : ActiveTransferSession} {op : FileOp κ}
    (hc : w.conns[c]? = some conn)
    (hmove : ConnectionStep P srv w.fs conn inp conn' (some (s, .file op)))
    (hown : RenamesOwn P w h (.conn c inp)) :
    (∀ k, op.puts = some k → putsOf P w (.conn c inp) = some k) ∧
      (∀ k, op.takes = some k →
        removesOf P w (.conn c inp) = some k ∨ conn.claim P = some k) ∧
      (∀ i, op.writesTo = some i → ∃ hs u o, conn = .serving hs s (.upload u) ∧
        u.out = some o ∧ o.file = i) := by
  refine ⟨fun k hk => hmove.op_puts hc hk, ?_⟩
  cases hmove with
  | @serves _ hs _ pc pc' _ hserve =>
      have hstream := serve_stream hserve
      have hmode := (serve_mode hserve).2.1
      have hreceiving : ∀ u, pc = .upload u →
          receivingOf w (.conn c inp) = some (s, u, inp) := by
        rintro u rfl
        simp [receivingOf, hc]
      cases op with
      | openTrunc k =>
          exact ⟨by simp [FileOp.takes], by simp [FileOp.writesTo]⟩
      | openRead i => exact ⟨by simp [FileOp.takes], by simp [FileOp.writesTo]⟩
      | write i pos data =>
          obtain ⟨u, rfl⟩ := hmode rfl
          obtain ⟨o, hout, rfl⟩ := Option.map_eq_some_iff.mp hstream.1
          refine ⟨by simp [FileOp.takes], ?_⟩
          intro j hj
          simp only [FileOp.writesTo, Option.ite_none_left_eq_some] at hj
          exact ⟨hs, u, o, rfl, hout, Option.some.inj hj.2⟩
      | close i pos data =>
          refine ⟨by simp [FileOp.takes], ?_⟩
          intro j hj
          simp only [FileOp.writesTo, Option.ite_none_left_eq_some] at hj
          obtain ⟨u, rfl⟩ := hmode (by simp [Effect.changesFile, hj.1])
          obtain ⟨o, hout, rfl⟩ := Option.map_eq_some_iff.mp hstream.1
          exact ⟨hs, u, o, rfl, hout, Option.some.inj hj.2⟩
      | remove k =>
          obtain ⟨u, rfl⟩ := hmode rfl
          obtain ⟨hdrops, hkey⟩ := (serveUpload_paths hserve).2.1 k rfl
          refine ⟨?_, by simp [FileOp.writesTo]⟩
          intro k' hk'
          cases hk'
          exact Or.inl (by simp [removesOf, hreceiving u rfl, hdrops, hkey])
      | rename src dst =>
          obtain ⟨u, rfl⟩ := hmode rfl
          obtain ⟨hsrc, hmov, hfree, finalPath, rfl, -, hdst⟩ :=
            (serveUpload_paths hserve).2.2 src dst rfl
          have hrenames : (UploadPc.rename finalPath : UploadPc H).renames P w.fs s =
              some (src, dst) := by
            simp only [UploadPc.renames, hsrc, hdst]
            exact if_pos ⟨hmov, hfree⟩
          refine ⟨?_, by simp [FileOp.writesTo]⟩
          intro k hk
          cases hk
          exact Or.inr (hown _ (hreceiving _ rfl) _ hrenames)
      | create k data => exact hstream.elim

variable [DecidableEq κ]

/-- The file store after a step with an effect of a connection. -/
theorem Transition.fs_after (ht : Transition P w a w' es) {c : Nat}
    {s : ActiveTransferSession} {e : Effect κ} {es' : List (TransferEvent κ)}
    (hes : es = .connection c s e :: es') : w'.fs = e.after w.fs := by
  have hmem : .connection c s e ∈ es := by simp [hes]
  cases ht with
  | control _ htable => exact absurd hmem (htable.not_connection c s e)
  | clean _ htable => exact absurd hmem (htable.not_connection c s e)
  | callback _ _ htable => exact absurd hmem (htable.not_connection c s e)
  | cleanFile => cases hes
  | accept | connQuiet => cases hes
  | create => cases hes
  | connFile =>
      cases hes
      rfl
  | connEffect _ _ hfile =>
      cases hes
      cases e with
      | file op => exact absurd rfl (hfile op)
      | _ => rfl

/-- A connection whose claimed name an operation leaves alone stays intact. -/
private theorem intact_frame (hI : ReceiveInv P w) {c : Nat}
    {hs : FileTransferHandshake} {s : ActiveTransferSession} {pc : UploadPc H}
    (hc : w.conns[c]? = some (.serving hs s (.upload pc))) {op : FileOp κ}
    (hputs : ∀ k, op.puts = some k → pc.claim P s ≠ some k)
    (htakes : ∀ k finalPath, op.takes = some k → pc.claim P s = some k →
      pc ≠ .saved finalPath)
    (hwrites : ∀ k i, op.writesTo = some i → pc.claim P s = some k →
      w.fs.names k ≠ some i) : pc.Intact P s (op.apply w.fs) := by
  rcases hI.intact c hs s pc hc with hfree | ⟨k, hclaim, hknows⟩
  · exact Or.inl hfree
  · refine Or.inr ⟨k, hclaim, hknows.frame hI.store.wf ?_ ?_ ?_⟩
    · exact fun hp => hputs k hp hclaim
    · -- a file taken away is not held: it would be open
      intro hholds ht
      cases hout : pc.out with
      | some o =>
          obtain ⟨k', hclaim', hname⟩ := (hI.intact c hs s pc hc).stream hout
          cases hclaim.symm.trans hclaim'
          exact hI.store.not_movable hc (i := o.file)
            (by simp [Connection.openFile, Pc.openFile, hout]) hname
      | none =>
          cases pc with
          | saved finalPath => exact absurd rfl (htakes k finalPath ht hclaim)
          | _ => simp [UploadPc.holds, hout] at hholds
    · exact fun i hi hw => hwrites k i hw hclaim hi

/-- A connection that does not move stays intact. -/
private theorem intact_other (hI : ReceiveInv P w) (hok : ExclusiveNames P w h a)
    (ht : Transition P w a w' es) {c : Nat} (hstill : ∀ inp, a ≠ .conn c inp)
    {hs : FileTransferHandshake} {s : ActiveTransferSession} {pc : UploadPc H}
    (hc : w.conns[c]? = some (.serving hs s (.upload pc))) : pc.Intact P s w'.fs := by
  obtain ⟨-, hown, hputs, hremoves⟩ := hok
  -- what the condition says about this connection
  have hmem : .serving hs s (.upload pc) ∈ othersOf w a := by
    cases a with
    | conn c' inp =>
        exact List.mem_eraseIdx_iff_getElem?.mpr
          ⟨c, fun heq => hstill inp (by rw [heq]), hc⟩
    | _ => exact List.mem_of_getElem? hc
  have hputs' : ∀ k, putsOf P w a = some k → pc.claim P s ≠ some k :=
    fun k hk => hputs k hk _ hmem
  have hremoves' : ∀ k finalPath, removesOf P w a = some k → pc.claim P s = some k →
      pc ≠ .saved finalPath := by
    rintro k finalPath hk hclaim rfl
    exact hremoves k hk _ hmem hclaim
  cases ht with
  | control | clean | accept | connQuiet | connEffect | callback =>
      exact hI.intact c hs s pc hc
  | @cleanFile s' k m es htarget hkey =>
      change pc.Intact P s ((FileOp.remove k).apply w.fs)
      refine intact_frame hI hc (by simp [FileOp.puts]) ?_ (by simp [FileOp.writesTo])
      intro k' finalPath hk'
      cases hk'
      exact hremoves' k finalPath (by simp [removesOf, htarget, hkey])
  | @connFile c' inp conn conn' s' op hc' hmove =>
      obtain ⟨hp, ht, hw⟩ := (Connection.step_cases hmove).op_names hc' hown
      have hne : ∀ k, conn.claim P = some k → pc.claim P s ≠ some k := by
        intro k hk hk'
        have := hI.excl c' c conn _ k hc' hc hk hk'
        exact hstill inp (by rw [this])
      refine intact_frame hI hc (fun k hk => hputs' k (hp k hk)) ?_ ?_
      · intro k finalPath hk hclaim
        rcases ht k hk with hremove | hmine
        · exact hremoves' k finalPath hremove hclaim
        · exact absurd hclaim (hne k hmine)
      · intro k i hi hclaim hname
        obtain ⟨hs', u, o, rfl, hout, rfl⟩ := hw i hi
        obtain ⟨k', hclaim', hname'⟩ := (hI.intact c' hs' s' u hc').stream hout
        have hkk : k = k' := hI.store.wf.inj k k' _ hname hname'
        exact hne k' hclaim' (hkk ▸ hclaim)
  | @create k data hfree =>
      change pc.Intact P s ((FileOp.create k data).apply w.fs)
      refine intact_frame hI hc ?_ (by simp [FileOp.takes]) (by simp [FileOp.writesTo])
      intro k' hk'
      cases hk'
      exact hputs' k rfl

/-- **One step.** -/
theorem receiveInv_step (hI : ReceiveInv P w) (hok : ExclusiveNames P w h a)
    (hs : transferStep P H w a = some (w', es)) : ReceiveInv P w' := by
  have ht := step_cases hs
  -- a claim is old or that of the connection that moves
  have hclaims : ∀ (c : Nat) (conn' : Connection H) (k : κ), w'.conns[c]? = some conn' →
      conn'.claim P = some k →
      (∃ conn, w.conns[c]? = some conn ∧ conn.claim P = some k) ∨
        (putsOf P w a = some k ∧ ∃ inp, a = .conn c inp) := by
    intro c conn' k hc hk
    rcases step_conn ht hc with ⟨-, hold⟩ | rfl | ⟨inp, conn, eff, rfl, hold, hmove, -⟩
    · exact Or.inl ⟨conn', hold, hk⟩
    · cases hk
    · rcases hmove.claim hold hk with hbefore | hputs
      · exact Or.inl ⟨conn, hold, hbefore⟩
      · exact Or.inr ⟨hputs, inp, rfl⟩
  have hfresh : ∀ (c c' : Nat) (conn' : Connection H) (k : κ), c ≠ c' →
      putsOf P w a = some k → (∃ inp, a = .conn c inp) → w.conns[c']? = some conn' →
      conn'.claim P ≠ some k := by
    rintro c c' conn' k hne hputs ⟨inp, rfl⟩ hc'
    exact hok.2.2.1 k hputs conn' (List.mem_eraseIdx_iff_getElem?.mpr ⟨c', hne.symm, hc'⟩)
  refine { store := storeInv_step hI.store ht, excl := ?_, intact := ?_ }
  · intro c c' conn conn' k hc hc' hk hk'
    by_contra hne
    rcases hclaims c conn k hc hk with ⟨old, hold, hbefore⟩ | ⟨hputs, hmoves⟩ <;>
      rcases hclaims c' conn' k hc' hk' with ⟨old', hold', hbefore'⟩ | ⟨hputs', hmoves'⟩
    · exact hne (hI.excl c c' old old' k hold hold' hbefore hbefore')
    · exact hfresh c' c old k (Ne.symm hne) hputs' hmoves' hold hbefore
    · exact hfresh c c' old' k hne hputs hmoves hold' hbefore'
    · obtain ⟨inp, rfl⟩ := hmoves
      obtain ⟨inp', heq⟩ := hmoves'
      cases heq
      exact hne rfl
  · intro c hs' s pc hc
    rcases step_conn ht hc with ⟨hstill, hold⟩ | hnew | ⟨inp, conn, eff, rfl, hold, hmove, hes⟩
    · exact intact_other hI hok ht hstill hold
    · cases hnew
    · cases hmove with
      | @serves _ _ _ pc₀ _ e hserve =>
          obtain ⟨es', rfl⟩ := hes s e rfl
          rw [ht.fs_after rfl]
          cases pc₀ with
          | upload u =>
              have hreceiving : receivingOf w (.conn c inp) = some (s, u, inp) := by
                simp [receivingOf, hold]
              refine serveUpload_intact hserve (hok.1 _ hreceiving) ?_
                (hI.intact c hs' s u hold)
              rintro src dst rfl
              obtain ⟨hsrc, hmov, hfree, finalPath, rfl, -, hdst⟩ :=
                (serveUpload_paths hserve).2.2 src dst rfl
              refine hok.2.1 _ hreceiving (src, dst) ?_
              simp only [UploadPc.renames, hsrc, hdst]
              exact if_pos ⟨hmov, hfree⟩
          | dispatch b =>
              simp only [serve] at hserve
              (repeat' split at hserve) <;> cases hserve
              exact Or.inl rfl
          | download d => simpa [Pc.mode] using (serve_mode hserve).1
          | failed error => simpa [Pc.mode] using (serve_mode hserve).1
          | done => simpa [Pc.mode] using (serve_mode hserve).1

/-- Every connection that is about to report a saved file has put it, with the
announced size and hash, at its final name. -/
def SavedAsAnnounced (P : Platform κ) (w : World κ H) : Prop :=
  ∀ (c : Nat) (hs : FileTransferHandshake) (s : ActiveTransferSession)
    (finalPath : String), w.conns[c]? = some (.serving hs s (.upload (.saved finalPath))) →
    ∃ k data, P.qtKey finalPath = some k ∧ w.fs.read? k = some data ∧
      AsAnnounced H s data

/-- **Received files are as announced** whenever a connection reports them
(`serve_finished`: it does so only from `saved`), in every run whose local
file operations succeed and in which the names connections claim are left
alone. -/
theorem received_files_intact
    (hr : (transferMachine P H).Reach (ExclusiveNames P) w h) : SavedAsAnnounced P w := by
  have hI : ReceiveInv P w := by
    refine Machine.Reach.invariant (fun w _ => ReceiveInv P w) ?_ ?_ hr
    · intro w hw
      refine { store := storeInv_init hw, excl := ?_, intact := ?_ }
      all_goals simp [hw.2.2.2]
    · intro w h a w' es hI hok hs
      exact receiveInv_step hI hok hs
  intro c hs s finalPath hc
  obtain ⟨k, hclaim, data, hdata, hann⟩ :=
    (hI.intact c hs s _ hc).resolve_left (by simp [UploadPc.claimless])
  exact ⟨k, data, hclaim, hdata, hann⟩

end Runs

/-! ## Concrete runs -/

/-- The actions by which connection `c` receives one chunk and announces it as
the whole file. -/
def receiveChunk (c : Nat) (chunk : Bytes) : List (TransferAction String) :=
  [ .conn c .go, .conn c .go, .conn c (.bytes (encodeBe32 chunk.length))
  , .conn c (.bytes chunk), .conn c (.stored 0), .conn c .go, .conn c .go, .conn c .go ]

/-- A conforming run: two files are received at the same time, and one is
about to be reported. -/
theorem received_files_intact_sampleUploads :
    ∃ w h, (transferMachine samplePlatform sha256).Reach (ExclusiveNames samplePlatform)
        w h ∧
      (w.conns.any fun conn => (conn.savedAt samplePlatform).isSome) = true ∧
      w.fs.read? "D/Iriseus/a" = some [5, 6] ∧ SavedAsAnnounced samplePlatform w := by
  obtain ⟨w, h, hr, hh⟩ := Machine.exists_reach_of_exec
    (transferMachine samplePlatform sha256) (ExclusiveNames samplePlatform)
    (s := worldWith []) (worldWith_init [])
    ([.control (.start true), offerAction 1 "a" 2 (toHex (sha256.digest [5, 6])) 7
      , offerAction 2 "b" 1 "" 8] ++ connectActions 0 1 7 0 ++ connectActions 1 2 8 0 ++
      [.conn 1 .go] ++ receiveChunk 0 [5, 6] ++ List.replicate 4 (.conn 0 .go))
    (fun w _ => (w.conns.any fun conn => (conn.savedAt samplePlatform).isSome) &&
      decide (w.fs.read? "D/Iriseus/a" = some [5, 6]))
    (by decide +kernel)
  simp only [Bool.and_eq_true, decide_eq_true_eq] at hh
  exact ⟨w, h, hr, hh.1, hh.2, received_files_intact hr⟩

/-- The connection is about to report its two bytes as saved. -/
def savedTwo : Option (Connection sha256) → Bool
  | some (.serving _ s (.upload (.saved finalPath))) =>
      decide (s.expectedSize = 2 ∧ finalPath = "D/Iriseus/a")
  | _ => false

/-- Two uploads under one name: the second truncates the temporary file of the
first between its last write and its rename, and the first reports an empty
file as saved. -/
theorem shared_temp_saved_empty :
    ¬∀ w h, (transferMachine samplePlatform sha256).Reach LocalOpsSucceed w h →
      SavedAsAnnounced samplePlatform w := by
  intro hall
  obtain ⟨w, h, hr, hh⟩ := Machine.exists_reach_of_exec
    (transferMachine samplePlatform sha256) LocalOpsSucceed
    (s := worldWith []) (worldWith_init [])
    ([.control (.start true), offerAction 1 "a" 2 "" 7, offerAction 2 "a" 0 "" 8] ++
      connectActions 0 1 7 0 ++ connectActions 1 2 8 0 ++ receiveChunk 0 [5, 6] ++
      List.replicate 3 (.conn 1 .go) ++ List.replicate 4 (.conn 0 .go))
    (fun (w : World String sha256) _ =>
      savedTwo w.conns[0]? && decide (w.fs.read? "D/Iriseus/a" = some []))
    (by decide +kernel)
  simp only [Bool.and_eq_true, decide_eq_true_eq] at hh
  obtain ⟨hconn, hempty⟩ := hh
  unfold savedTwo at hconn
  split at hconn
  · rename_i hs s finalPath hc
    obtain ⟨hsize, rfl⟩ := of_decide_eq_true hconn
    obtain ⟨k, data, hk, hdata, hlen, -⟩ := hall w h hr 0 hs s _ hc
    cases hk
    rw [hempty, Option.some.injEq] at hdata
    subst hdata
    simp [hsize] at hlen
  · cases hconn

end Iriseus.Core
