import Iriseus.Core.UploadRun

/-!
# What a successful upload has stored

The loop counts and hashes the bytes that come from the socket.  The stream
stores what it can: a write that fails stores only a part and puts the stream
into a failed state, and a stream in that state ignores all further writes.
Nobody looks at the state, not even after the close.

The ledger of an upload says, at every point, how the bytes received, the bytes
of the temporary file and the bytes lost are related.  What is counted and
hashed is always what was received; the file is that only if nothing was lost.

## Main results

* `success_stored_iff` — an upload reported as a success is stored as received
  exactly if no write, flush or close has lost bytes.
-/

namespace Iriseus.Core

open Iriseus.Verified
open Iriseus.Verified.ByteStream
open Iriseus.Verified.Machine
open UploadEvent

variable {κ : Type}

/-! ## The ledger -/

/-- A file with the content `data`, of what has been received and lost. -/
structure Balanced (received lost data : Bytes) : Prop where
  length : data.length + lost.length = received.length
  same : lost = [] → data = received
  bound : data.length ≤ FileStore.maxFileBytes

/-- The loop's variables after `received`, of which `lost` is not stored. -/
structure Receiving.Keeps {H : IncrementalHash} (fs : FileStore κ) (r : Receiving H)
    (received lost : Bytes) : Prop where
  pos : r.out.pos = (fs.bytes r.out.file).length
  balanced : Balanced received lost (r.data fs)
  hashed : H.Absorbed r.shaState received
  total : r.totalReceived = UInt64.ofNat received.length

/-- The file called `k`, if it is still there, balances. -/
def BalancedAt (k : κ) (fs : FileStore κ) (received lost : Bytes) : Prop :=
  ∀ data, fs.read? k = some data → Balanced received lost data

/-- The announced hash, if there is one, is that of the bytes. -/
def HashMatches (H : IncrementalHash) (s : ActiveTransferSession) (bs : Bytes) : Prop :=
  s.expectedSha256 = "" ∨ toHex (H.digest bs) = s.expectedSha256

/-- Size and hash of the bytes have been checked. -/
def Checked (H : IncrementalHash) (s : ActiveTransferSession) (bs : Bytes) : Prop :=
  UInt64.ofNat bs.length = s.expectedSize ∧ HashMatches H s bs

variable {P : Platform κ} {H : IncrementalHash} {s : ActiveTransferSession} {k : κ}
variable {fs₀ : FileStore κ} {u : Upload κ H} {h : List (UploadEvent κ)}

/-- What is known at each point of an upload about the bytes received and
lost. -/
def Upload.Ledger (P : Platform κ) (s : ActiveTransferSession) (k : κ) (u : Upload κ H)
    (received lost : Bytes) : Prop :=
  match u.pc with
  | .dispatch _ => received = [] ∧ lost = []
  | .upload .openTemp => received = [] ∧ lost = []
  | .upload (.recvHead r) => r.Keeps u.fs received lost
  | .upload (.recvLen r) => r.Keeps u.fs received lost
  | .upload (.recvChunk r _) => r.Keeps u.fs received lost
  | .upload (.recvWrite r chunk) =>
      ∃ before, received = before ++ chunk ∧ r.Keeps u.fs before lost
  | .upload (.recvReport r) => r.Keeps u.fs received lost
  | .upload (.closeTemp r _) => r.Keeps u.fs received lost
  | .upload (.recvCheck shaState totalReceived _) => H.Absorbed shaState received ∧
      totalReceived = UInt64.ofNat received.length ∧ BalancedAt k u.fs received lost
  | .upload (.verify shaState) => H.Absorbed shaState received ∧
      UInt64.ofNat received.length = s.expectedSize ∧ BalancedAt k u.fs received lost
  | .upload (.resolve _ _) => Checked H s received ∧ BalancedAt k u.fs received lost
  | .upload (.rename _) => Checked H s received ∧ BalancedAt k u.fs received lost
  | .upload (.saved finalPath) => Checked H s received ∧
      ∃ dst data, P.qtKey finalPath = some dst ∧ u.fs.read? dst = some data ∧
        Balanced received lost data
  | _ => True

section Ledger

variable [DecidableEq κ]

omit [DecidableEq κ] in
/-- A write passes on the beginning of what is buffered and handed over, keeps a
part of the rest and drops the others. -/
theorem OutStream.write_parts {o out : OutStream} {chunk : Bytes} {a : UploadLabel}
    {op : FileOp κ} (hwrite : o.write chunk (o.answer chunk a) = some (out, op))
    (hbound : o.pos + o.pending.length ≤ FileStore.maxFileBytes) :
    ∃ written, op = .write o.file o.pos written ∧ out.file = o.file ∧
      out.pos = o.pos + written.length ∧
      written ++ out.pending ++ o.drops chunk a = o.pending ++ chunk ∧
      o.pos + (written ++ out.pending).length ≤ FileStore.maxFileBytes := by
  unfold OutStream.drops
  unfold OutStream.answer at hwrite ⊢
  simp only at hwrite ⊢
  generalize hn : min a.count (min (o.pending ++ chunk).length
    (FileStore.maxFileBytes - o.pos)) = n at hwrite ⊢
  have hle : n ≤ (o.pending ++ chunk).length := by omega
  have htake : ((o.pending ++ chunk).take n).length = n := by
    rw [List.length_take, Nat.min_eq_left hle]
  cases hgood : o.good with
  | false =>
      -- a stream in a failed state
      simp only [hgood, if_true, OutStream.write, Bool.false_eq_true, if_false,
        Option.some.injEq, Prod.mk.injEq] at hwrite
      obtain ⟨rfl, rfl⟩ := hwrite
      exact ⟨[], rfl, rfl, rfl, by simp, by simpa using hbound⟩
  | true =>
      simp only [hgood, Bool.true_eq_false, if_false, if_true] at hwrite ⊢
      split at hwrite
      · -- the write fails
        rename_i hfails
        simp only [OutStream.write, hgood, hle, and_self, if_true, Option.some.injEq,
          Prod.mk.injEq] at hwrite
        obtain ⟨rfl, rfl⟩ := hwrite
        refine ⟨_, rfl, rfl, by rw [htake], ?_, ?_⟩
        · simp only [hfails, if_true, List.append_nil, List.take_append_drop]
        · rw [List.append_nil, htake]
          omega
      · -- all bytes are stored or buffered
        rename_i hfits
        have hroom : o.pos + (o.pending ++ chunk).length ≤ FileStore.maxFileBytes := by
          simp only [not_or, Nat.not_lt] at hfits
          exact hfits.2
        simp only [OutStream.write, hgood, if_true, hle, hroom, and_self, Option.some.injEq,
          Prod.mk.injEq] at hwrite
        obtain ⟨rfl, rfl⟩ := hwrite
        refine ⟨_, rfl, rfl, by rw [htake], ?_, ?_⟩
        · simp only [hfits, if_false, List.append_nil, List.take_append_drop]
        · rw [List.take_append_drop]
          exact hroom

/-- Writing a chunk: what does not go to the file or the buffer is lost. -/
theorem keeps_write {fs : FileStore κ} {r : Receiving H} {before lost chunk : Bytes}
    (hkeeps : r.Keeps fs before lost) {a : UploadLabel} {out : OutStream} {op : FileOp κ}
    (hwrite : r.out.write chunk (r.out.answer chunk a) = some (out, op)) :
    (r.absorb out chunk).Keeps (op.apply fs) (before ++ chunk)
      (lost ++ r.out.drops chunk a) := by
  have hbound := hkeeps.balanced.bound
  have hlength := hkeeps.balanced.length
  rw [Receiving.data, List.length_append] at hbound hlength
  obtain ⟨written, rfl, hfile, hpos, hparts, hroom⟩ := OutStream.write_parts hwrite (by
    rw [hkeeps.pos]
    exact hbound)
  have hbytes : ((FileOp.write r.out.file r.out.pos written).apply fs).bytes out.file =
      fs.bytes r.out.file ++ written := by
    rw [hfile, hkeeps.pos]
    simp only [FileOp.apply, Function.update_self, FileStore.overwrite_end]
  have hlen := congrArg List.length hparts
  simp only [List.length_append] at hlen hroom
  refine
    { pos := ?_
      balanced := { length := ?_, same := ?_, bound := ?_ }
      hashed := hkeeps.hashed.update chunk
      total := ?_ }
  · simp only [Receiving.absorb]
    rw [hbytes, hpos, List.length_append, hkeeps.pos]
  · simp only [Receiving.data, Receiving.absorb, hbytes, List.length_append]
    omega
  · intro hnone
    obtain ⟨hlost, hdrops⟩ := List.append_eq_nil_iff.mp hnone
    rw [hdrops, List.append_nil] at hparts
    simp only [Receiving.data, Receiving.absorb, hbytes]
    rw [List.append_assoc, hparts, ← List.append_assoc]
    exact congrArg (· ++ chunk) (hkeeps.balanced.same hlost)
  · simp only [Receiving.data, Receiving.absorb, hbytes, List.length_append]
    rw [hkeeps.pos] at hroom
    omega
  · simp only [Receiving.absorb, hkeeps.total, List.length_append, UInt64.ofNat_add]

/-- Closing the stream: what is still buffered is stored or lost. -/
theorem balanced_close {fs : FileStore κ} {r : Receiving H} {received lost : Bytes}
    (hkeeps : r.Keeps fs received lost) (hname : fs.names k = some r.out.file)
    {data dropped : Bytes} (hsplit : data ++ dropped = r.out.pending) :
    BalancedAt k ((FileOp.close r.out.file r.out.pos data).apply fs) received
      (lost ++ dropped) := by
  intro content hcontent
  obtain ⟨i, hi, rfl⟩ := FileOp.read?_eq_some.mp hcontent
  cases hname.symm.trans hi
  have hbalanced := hkeeps.balanced
  have hlength := hbalanced.length
  have hbound := hbalanced.bound
  rw [Receiving.data, ← hsplit] at hlength hbound
  simp only [FileOp.apply, Function.update_self, hkeeps.pos, FileStore.overwrite_end]
  simp only [List.length_append] at hlength hbound
  refine { length := ?_, same := ?_, bound := ?_ }
  · simp only [List.length_append]
    omega
  · intro hnone
    obtain ⟨hlost, hdropped⟩ := List.append_eq_nil_iff.mp hnone
    have hsame := hbalanced.same hlost
    rw [Receiving.data, ← hsplit, hdropped, List.append_nil] at hsame
    exact hsame
  · simp only [List.length_append]
    omega

/-- Opening the temporary file: nothing has been received. -/
theorem keeps_fresh (fs : FileStore κ) (k : κ) :
    (Receiving.fresh H fs k).Keeps ((FileOp.openTrunc k).apply fs) [] [] := by
  have hempty : (Receiving.fresh H fs k).data ((FileOp.openTrunc k).apply fs) = [] := by
    simp [Receiving.fresh, Receiving.data, FileOp.apply]
  refine
    { pos := by simp [Receiving.fresh, FileOp.apply]
      balanced := { length := ?_, same := ?_, bound := ?_ }
      hashed := H.absorbed_init
      total := rfl }
  · rw [hempty]
    rfl
  · exact fun _ => hempty
  · rw [hempty]
    exact Nat.zero_le _

/-- What is known of a file that is left alone. -/
theorem BalancedAt.before {received lost : Bytes} (hb : BalancedAt k u.fs received lost)
    (hinv : UploadInv k fs₀ u h) (hqt : P.qtKey s.tempFilePath = some k) (a : UploadLabel) :
    BalancedAt k (u.before P s a).fs received lost := by
  rcases before_files (s := s) hqt u a with heq | ⟨hmov, heq⟩
  · rwa [heq]
  · intro data hdata
    rw [heq, FileStore.read?, names_remove (hinv.closed hmov).2] at hdata
    cases hdata

/-- What others do before a step does not touch the ledger. -/
theorem Upload.Ledger.before {received lost : Bytes} (hl : u.Ledger P s k received lost)
    (hinv : UploadInv k fs₀ u h) (hqt : P.qtKey s.tempFilePath = some k) (a : UploadLabel) :
    (u.before P s a).Ledger P s k received lost := by
  have hbalanced : ∀ {received lost}, BalancedAt k u.fs received lost →
      BalancedAt k (u.before P s a).fs received lost := fun hb => hb.before hinv hqt a
  -- an open file stays, and so does a saved one
  have hopen : u.pc.openFile ≠ none → (u.before P s a).fs = u.fs := by
    intro hne
    rcases before_files (s := s) hqt u a with heq | ⟨hmov, -⟩
    · exact heq
    · exact absurd (hinv.closed hmov).1 hne
  have hgone : u.fs.names k = none → (u.before P s a).fs = u.fs := by
    intro hnone
    rcases before_files (s := s) hqt u a with heq | ⟨hmov, -⟩
    · exact heq
    · rw [movable_of_vacant hnone] at hmov
      cases hmov
  have hpc : (u.before P s a).pc = u.pc := rfl
  generalize u.before P s a = v at hbalanced hopen hgone hpc
  obtain ⟨fs, pc₀, segs, running, cancelled⟩ := u
  obtain ⟨fs', pc, segs', running', cancelled'⟩ := v
  simp only at hpc hbalanced hopen hgone
  subst hpc
  cases pc with
  | dispatch b => exact hl
  | download pc => trivial
  | failed error => trivial
  | done => trivial
  | upload pc =>
      cases pc with
      | openTemp => exact hl
      | recvHead r | recvLen r | recvChunk r | recvReport r | closeTemp r | recvWrite r =>
          obtain rfl := hopen (by simp [Pc.openFile, UploadPc.out])
          exact hl
      | recvCheck shaState totalReceived error | verify shaState =>
          exact ⟨hl.1, hl.2.1, hbalanced hl.2.2⟩
      | resolve finalPath count | rename finalPath => exact ⟨hl.1, hbalanced hl.2⟩
      | saved finalPath =>
          obtain ⟨-, dst, hadded⟩ := hinv.result
          obtain rfl := hgone hadded.gone
          exact hl
      | dropInterrupted | interrupted | dropBadHash | dropUnsaved => trivial

/-- **One move.** -/
theorem Upload.Ledger.move {received lost : Bytes} (hl : u.Ledger P s k received lost)
    (hinv : UploadInv k fs₀ u h) {a : UploadLabel} {fs : FileStore κ} {pc : Pc H}
    {segs : List Bytes} {es : List (UploadEvent κ)}
    (hmove : UploadMove P H s k a u u.pc fs pc segs es) :
    ({ u with fs := fs, pc := pc, segs := segs } : Upload κ H).Ledger P s k
      (received ++ receivedBytes es) (lost ++ lostBytes es) := by
  obtain ⟨fs₁, pc₁, segs₁, running, cancelled⟩ := u
  simp only at hmove
  cases hmove with
  | opensNot | badHash | dropsInterrupted | dropsBadHash | dropsUnsaved | givesUp | movesNot
  | succeeds | fails | incomplete => trivial
  | begins =>
      obtain ⟨rfl, rfl⟩ : received = [] ∧ lost = [] := hl
      exact ⟨rfl, rfl⟩
  | goesOn | leaves | length | badLength | badChunk | reports | taken | free =>
      simpa [Upload.Ledger, receivedBytes, lostBytes] using hl
  | opens hopens =>
      obtain ⟨rfl, rfl⟩ : received = [] ∧ lost = [] := hl
      exact keeps_fresh fs₁ k
  | chunk hread =>
      have hkeeps : Receiving.Keeps fs₁ _ received lost := hl
      exact ⟨received, by simp [receivedBytes], by simpa [lostBytes] using hkeeps⟩
  | writes hwrite =>
      obtain ⟨before, hreceived, hkeeps⟩ := hl
      have hafter := keeps_write hkeeps hwrite
      simpa [Upload.Ledger, receivedBytes, lostBytes, hreceived] using hafter
  | closes hsplit hlost =>
      have hkeeps : Receiving.Keeps fs₁ _ received lost := hl
      have hheld : HeldOnce k _ fs₁ := hinv.temp
      have hb := balanced_close hkeeps hheld.name hsplit
      refine ⟨?_, ?_, ?_⟩
      · simpa [receivedBytes] using hkeeps.hashed
      · simpa [receivedBytes] using hkeeps.total
      · simpa [receivedBytes, lostBytes] using hb
  | complete hlive =>
      obtain ⟨habs, htotal, hb⟩ := hl
      simpa [Upload.Ledger, receivedBytes, lostBytes] using
        And.intro habs (And.intro htotal.symm hb)
  | verifies hgood =>
      obtain ⟨habs, htotal, hb⟩ := hl
      rw [habs.final] at hgood
      have hchecked : Checked H s received := ⟨htotal, hgood⟩
      simpa [Upload.Ledger, receivedBytes, lostBytes] using And.intro hchecked hb
  | moves hdst hmov hfree =>
      rename_i finalPath dst
      obtain ⟨hchecked, hb⟩ := hl
      have hres : outcomes h = [] ∧ Outside k fs₀ fs₁ := hinv.result
      have hread := (added_rename hres.2 hinv.wf hmov hfree).2
      obtain ⟨data, hdata⟩ := FileStore.read?_of_movable hmov
      refine ⟨?_, dst, data, hdst, hread.trans hdata, ?_⟩
      · simpa [receivedBytes] using hchecked
      · simpa [receivedBytes, lostBytes] using hb _ hdata

/-! ## Runs -/

/-- The step's write or close stores all the bytes it is given. -/
def Upload.Lossless (u : Upload κ H) (a : UploadLabel) : Prop :=
  match u.pc with
  | .upload (.recvWrite r chunk) => r.out.drops chunk a = []
  | .upload (.closeTemp r _) => a.loses = true → r.out.pending.length ≤ a.count
  | _ => True

omit [DecidableEq κ] in
theorem lostBytes_flow (u : Upload κ H) (a : UploadLabel) :
    lostBytes (u.flow a) = [] ↔ u.Lossless a := by
  obtain ⟨fs, pc, segs, running, cancelled⟩ := u
  cases pc with
  | upload pc =>
      cases pc with
      | recvWrite r chunk => simp [Upload.flow, Upload.Lossless, lostBytes]
      | closeTemp r error =>
          cases hloses : a.loses <;>
            simp [Upload.flow, Upload.Lossless, lostBytes, hloses, List.drop_eq_nil_iff]
      | recvChunk r chunkSize =>
          simp only [Upload.flow, Upload.Lossless, iff_true]
          split <;> rfl
      | _ => simp [Upload.flow, Upload.Lossless, lostBytes]
  | _ => simp [Upload.flow, Upload.Lossless, lostBytes]

/-- A step loses nothing exactly if it is lossless. -/
theorem lostBytes_step {u' : Upload κ H} {a : UploadLabel} {es : List (UploadEvent κ)}
    (hs : uploadStep P H s u a = some (u', es)) : lostBytes es = [] ↔ u.Lossless a := by
  simp only [uploadStep, Option.map_eq_some_iff, Prod.mk.injEq] at hs
  obtain ⟨r, -, -, rfl⟩ := hs
  exact lostBytes_flow (u.before P s a) a

/-- A run that has lost nothing is a run of lossless steps. -/
theorem lossless_run_iff (hr : (uploadMachine P H s).Reach anyStep u h) :
    (uploadMachine P H s).Reach (fun u _ a => u.Lossless a) u h ↔ lostBytes h = [] := by
  constructor
  · intro hlossless
    refine hlossless.invariant (fun _ h => lostBytes h = []) (fun _ _ => rfl) ?_
    intro u h a u' es hnone hok hs
    rw [lostBytes_append, hnone, (lostBytes_step hs).mpr hok]
    rfl
  · induction hr with
    | init hu => exact fun _ => .init hu
    | step _ _ hs ih =>
        intro hnone
        rw [lostBytes_append, List.append_eq_nil_iff] at hnone
        exact .step (ih hnone.1) ((lostBytes_step hs).mp hnone.2) hs

/-- **The ledger holds at every point of every run.** -/
theorem ledger_reach (hstd : P.stdKey s.tempFilePath = some k)
    (hqt : P.qtKey s.tempFilePath = some k) (hr : (uploadMachine P H s).Reach anyStep u h) :
    (∃ fs₀, UploadInv k fs₀ u h) ∧ u.Ledger P s k (receivedBytes h) (lostBytes h) := by
  refine hr.invariant (fun u h => (∃ fs₀, UploadInv k fs₀ u h) ∧
    u.Ledger P s k (receivedBytes h) (lostBytes h)) ?_ ?_
  · rintro ⟨fs, pc, segs, running, cancelled⟩ ⟨hwf, rfl, hclosed⟩
    exact ⟨⟨fs, uploadInv_start hwf (hclosed k hstd) segs running cancelled⟩, rfl, rfl⟩
  · rintro u h a u' es ⟨⟨fs₀, hinv⟩, hl⟩ - hs
    obtain ⟨fs, pc, segs, rfl, hmove⟩ := hinv.step_cases hstd hqt hs
    have hbefore := hinv.before hqt a
    refine ⟨⟨fs₀, hbefore.move hmove⟩, ?_⟩
    rw [receivedBytes_append, lostBytes_append]
    exact (hl.before hinv hqt a).move hbefore hmove

/-- Only a saved file is reported as a success. -/
theorem saved_of_report {u' : Upload κ H} {a : UploadLabel}
    {es : List (UploadEvent κ)} (hstd : P.stdKey s.tempFilePath = some k)
    (hqt : P.qtKey s.tempFilePath = some k) (hinv : UploadInv k fs₀ u h)
    (hs : uploadStep P H s u a = some (u', es))
    (hreport : .effect (.finished true "") ∈ es) :
    ∃ finalPath, u.pc = .upload (.saved finalPath) ∧ u'.fs = (u.before P s a).fs := by
  obtain ⟨fs, pc, segs, rfl, hmove⟩ := hinv.step_cases hstd hqt hs
  generalize u.before P s a = v at hmove ⊢
  generalize u.pc = pc₀ at hmove ⊢
  cases hmove with
  | succeeds => exact ⟨_, rfl, rfl⟩
  | _ => simp at hreport

/-- The file at `finalPath`, the path the body has renamed its file to, is what
the connection has received, and that is as many bytes as announced. -/
def StoredAsReceived (P : Platform κ) (s : ActiveTransferSession) (u : Upload κ H)
    (fs : FileStore κ) (received : Bytes) : Prop :=
  ∃ finalPath dst, u.pc = .upload (.saved finalPath) ∧ P.qtKey finalPath = some dst ∧
    fs.read? dst = some received ∧ received.length = s.expectedSize.toNat

/-- **What a success has stored.**  Whenever an upload is reported as a success,
its file is what was received, of the announced size, exactly if every write
and the close of the temporary stream have stored all they were given. -/
theorem success_stored_iff (hstd : P.stdKey s.tempFilePath = some k)
    (hqt : P.qtKey s.tempFilePath = some k) {u' : Upload κ H} {a : UploadLabel}
    {es : List (UploadEvent κ)} (hr : (uploadMachine P H s).Reach anyStep u h)
    (hs : (uploadMachine P H s).step u a = some (u', es))
    (hreport : .effect (.finished true "") ∈ es) :
    StoredAsReceived P s u u'.fs (receivedBytes h) ↔
      (uploadMachine P H s).Reach (fun u _ a => u.Lossless a) u h := by
  obtain ⟨⟨fs₀, hinv⟩, hl⟩ := ledger_reach hstd hqt hr
  obtain ⟨finalPath, hpc, hfs⟩ := saved_of_report hstd hqt hinv hs hreport
  have hledger := hl.before hinv hqt a
  have hpc' : (u.before P s a).pc = .upload (.saved finalPath) := hpc
  unfold Upload.Ledger at hledger
  rw [hpc'] at hledger
  obtain ⟨⟨hsize, -⟩, dst, data, hdst, hread, hbalanced⟩ := hledger
  have hlength := hbalanced.length
  have hbound := hbalanced.bound
  rw [lossless_run_iff hr, hfs, StoredAsReceived]
  constructor
  · rintro ⟨finalPath', dst', hsaved, hdst', hread', -⟩
    cases hpc.symm.trans hsaved
    cases hdst.symm.trans hdst'
    cases hread.symm.trans hread'
    exact List.eq_nil_of_length_eq_zero (by omega)
  · intro hnone
    obtain rfl := hbalanced.same hnone
    have hlt : (receivedBytes h).length < 2 ^ 64 := by
      simp only [FileStore.maxFileBytes] at hbound
      omega
    refine ⟨finalPath, dst, hpc, hdst, hread, ?_⟩
    rw [← hsize, UInt64.toNat_ofNat_of_lt' hlt]

end Ledger

/-! ## A disk with room and a full one -/

/-- A step in which nothing goes wrong. -/
def calm : UploadLabel where
  stops := false
  cancels := false
  cleans := false
  opens := true
  moves := true
  loses := false
  count := 0

/-- The sample content is on its way to `D/a`, in one chunk. -/
def oneChunk : Upload String sha256 where
  fs := filesAt []
  pc := startUpload sha256
  segs := [[0, 0, 0, 3, 1, 2, 3]]
  running := true
  cancelled := false

theorem oneChunk_init :
    (uploadMachine samplePlatform sha256 (sampleSession "D/a" .mobileUploadToPc)).Init
      oneChunk :=
  ⟨filesAt_wf [], rfl, fun _ _ => notOpen_of_vacant rfl⟩

/-- The steps of `oneChunk` up to the report; `write` is how the write ends. -/
def savesOneChunk (write : UploadLabel) : List UploadLabel :=
  List.replicate 5 calm ++ [write] ++ List.replicate 7 calm

/-- The next step reports that the file at `D/a` is saved. -/
def reportsSaved (u : Upload String sha256) : Bool :=
  (match u.pc with
    | .upload (.saved finalPath) => decide (finalPath = "D/a")
    | _ => false) &&
  (uploadStep samplePlatform sha256 (sampleSession "D/a" .mobileUploadToPc) u calm).any
    fun r => decide (UploadEvent.effect (.finished true "") ∈ r.2)

theorem reportsSaved_iff {u : Upload String sha256} (hreports : reportsSaved u = true) :
    u.pc = .upload (.saved "D/a") ∧ ∃ u' es,
      uploadStep samplePlatform sha256 (sampleSession "D/a" .mobileUploadToPc) u calm =
        some (u', es) ∧ .effect (.finished true "") ∈ es := by
  simp only [reportsSaved, Bool.and_eq_true, Option.any_eq_true, decide_eq_true_eq] at hreports
  obtain ⟨hpc, ⟨u', es⟩, hs, hreport⟩ := hreports
  refine ⟨?_, u', es, hs, hreport⟩
  split at hpc
  · rename_i finalPath heq
    rw [heq, of_decide_eq_true hpc]
  · cases hpc

/-- With room on the disk the file is stored as received. -/
theorem success_stored_sample :
    ∃ (u u' : Upload String sha256) (h : List (UploadEvent String)),
      StoredAsReceived samplePlatform (sampleSession "D/a" .mobileUploadToPc) u u'.fs
        (receivedBytes h) := by
  obtain ⟨u, h, hr, hh⟩ := Machine.exists_reach_of_exec
    (uploadMachine samplePlatform sha256 (sampleSession "D/a" .mobileUploadToPc))
    Machine.anyStep oneChunk_init (savesOneChunk calm)
    (fun u h => reportsSaved u && decide (lostBytes h = [])) (by decide +kernel)
  rw [Bool.and_eq_true, decide_eq_true_eq] at hh
  obtain ⟨-, u', es, hs, hreport⟩ := reportsSaved_iff hh.1
  exact ⟨u, u', h, (success_stored_iff (k := "D/a.part") rfl rfl hr hs hreport).mpr
    ((lossless_run_iff hr).mpr hh.2)⟩

/-- The disk is full after the first of three bytes: the file at `D/a` has one
byte, and a success is reported. -/
theorem full_disk_reports_success :
    ¬∀ (u : Upload String sha256) (h : List (UploadEvent String)) (a : UploadLabel)
      (u' : Upload String sha256) (es : List (UploadEvent String)),
      (uploadMachine samplePlatform sha256
        (sampleSession "D/a" .mobileUploadToPc)).Reach anyStep u h →
      (uploadMachine samplePlatform sha256
        (sampleSession "D/a" .mobileUploadToPc)).step u a = some (u', es) →
      .effect (.finished true "") ∈ es →
      StoredAsReceived samplePlatform (sampleSession "D/a" .mobileUploadToPc) u u'.fs
        (receivedBytes h) := by
  intro hall
  obtain ⟨u, h, hr, hh⟩ := Machine.exists_reach_of_exec
    (uploadMachine samplePlatform sha256 (sampleSession "D/a" .mobileUploadToPc))
    Machine.anyStep oneChunk_init (savesOneChunk { calm with loses := true, count := 1 })
    (fun u h => reportsSaved u && decide (receivedBytes h = [1, 2, 3]) &&
      (uploadStep samplePlatform sha256 (sampleSession "D/a" .mobileUploadToPc) u calm).any
        fun (v, _) => decide (v.fs.read? "D/a" = some [1])) (by decide +kernel)
  simp only [Bool.and_eq_true, decide_eq_true_eq, Option.any_eq_true] at hh
  obtain ⟨⟨hreports, hreceived⟩, ⟨u', es⟩, hs, hfile⟩ := hh
  obtain ⟨hpc, u'', es', hs', hreport⟩ := reportsSaved_iff hreports
  cases hs.symm.trans hs'
  obtain ⟨finalPath, dst, hsaved, hdst, hread, -⟩ := hall u h calm u' es hr hs hreport
  cases hpc.symm.trans hsaved
  cases hdst
  rw [hfile, hreceived] at hread
  cases hread

end Iriseus.Core
