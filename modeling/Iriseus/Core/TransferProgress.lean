import Iriseus.Core.DownloadWire

/-!
# What a transfer reports on its way

Both loops of `handleConnection` report the number of bytes they have moved
after every chunk, and the outcome at the end.  The user interface draws a bar
from these reports, so they have to grow, may not run ahead of the data and must
be complete before a success.

The numbers are 64-bit counters.  Sending cannot wrap them, as a chunk is never
larger than what is left; receiving takes whole chunks and can, but only for an
announced size within one chunk of 2^64.

## Main results

* `progress_exact` — the reports of a connection, in every run of the system.
-/

namespace Iriseus.Core

open Iriseus.Verified
open Iriseus.Verified.ByteStream
open Iriseus.Verified.Framing
open Iriseus.Verified.Machine

variable {κ : Type}

/-- The reports of `m_onProgress`. -/
def progressOf (h : List (SessionEffect κ)) : List Nat :=
  h.filterMap fun e => match e.2 with
    | .progress bytes => some bytes.toNat
    | _ => none

@[simp] theorem progressOf_append (h es : List (SessionEffect κ)) :
    progressOf (h ++ es) = progressOf h ++ progressOf es :=
  List.filterMap_append

/-! ## Climbing to a number -/

/-- The numbers climb from above 0 to `n`, which is 0 before the first. -/
structure Climbs (l : List Nat) (n : Nat) : Prop where
  sorted : l.Pairwise (· < ·)
  pos : ∀ x ∈ l, 0 < x
  le : ∀ x ∈ l, x ≤ n
  last : l.getLast?.getD 0 = n

theorem Climbs.nil : Climbs [] 0 where
  sorted := .nil
  pos := by simp
  le := by simp
  last := rfl

theorem Climbs.snoc {l : List Nat} {n m : Nat} (hc : Climbs l n) (hlt : n < m) :
    Climbs (l ++ [m]) m where
  sorted := by
    refine List.pairwise_append.mpr ⟨hc.sorted, List.pairwise_singleton _ _, ?_⟩
    intro x hx y hy
    rw [List.mem_singleton.mp hy]
    exact lt_of_le_of_lt (hc.le x hx) hlt
  pos := by
    intro x hx
    rcases List.mem_append.mp hx with hx | hx
    · exact hc.pos x hx
    · rw [List.mem_singleton.mp hx]
      exact lt_of_le_of_lt (Nat.zero_le n) hlt
  le := by
    intro x hx
    rcases List.mem_append.mp hx with hx | hx
    · exact (hc.le x hx).trans hlt.le
    · exact (List.mem_singleton.mp hx).le
  last := by simp

/-- The reports have climbed to the counter's value. -/
def At (h : List (SessionEffect κ)) (n : UInt64) : Prop := Climbs (progressOf h) n.toNat

/-- The reports have climbed to some number below the announced size and one chunk. -/
def Stopped (s : ActiveTransferSession) (h : List (SessionEffect κ)) : Prop :=
  ∃ n, Climbs (progressOf h) n ∧ n < s.expectedSize.toNat + maxChunkSize

/-! ## The two loops -/

/-- What mode 0 has reported, at each of its points. -/
def UploadPc.ProgressOk {H : IncrementalHash} (s : ActiveTransferSession)
    (h : List (SessionEffect κ)) : UploadPc H → Prop
  | .openTemp => progressOf h = []
  | .recvHead r => At h r.totalReceived ∧
      r.totalReceived.toNat < s.expectedSize.toNat + maxChunkSize
  | .recvLen r => At h r.totalReceived ∧ r.totalReceived < s.expectedSize
  | .recvChunk r chunkSize => At h r.totalReceived ∧ r.totalReceived < s.expectedSize ∧
      0 < chunkSize ∧ chunkSize ≤ maxChunkSize
  | .recvWrite r chunk => At h r.totalReceived ∧ r.totalReceived < s.expectedSize ∧
      0 < chunk.length ∧ chunk.length ≤ maxChunkSize
  | .recvReport r => ∃ n, Climbs (progressOf h) n ∧ n < r.totalReceived.toNat ∧
      r.totalReceived.toNat < s.expectedSize.toNat + maxChunkSize
  | .closeTemp r _ => At h r.totalReceived ∧
      r.totalReceived.toNat < s.expectedSize.toNat + maxChunkSize
  | .recvCheck _ totalReceived _ => At h totalReceived ∧
      totalReceived.toNat < s.expectedSize.toNat + maxChunkSize
  | .verify _ => At h s.expectedSize
  | .resolve _ _ => At h s.expectedSize
  | .rename _ => At h s.expectedSize
  | .saved _ => At h s.expectedSize
  | _ => Stopped s h

/-- What mode 1 has reported. -/
def DownloadPc.ProgressOk (s : ActiveTransferSession) (h : List (SessionEffect κ)) :
    DownloadPc → Prop
  | .openSource => progressOf h = []
  | .sendHead t => At h t.totalSent
  | .sendRead t => At h t.totalSent
  | .sendLen t _ => At h t.totalSent
  | .sendBody t _ => At h t.totalSent
  | .sendReport t _ => At h t.totalSent
  | .closeSource t _ => At h t.totalSent
  | .sendCheck totalSent _ => At h totalSent
  | .sentAll => At h s.expectedSize

/-- What a body has reported. -/
def Pc.ProgressOk {H : IncrementalHash} (s : ActiveTransferSession)
    (h : List (SessionEffect κ)) : Pc H → Prop
  | .dispatch _ => progressOf h = []
  | .upload pc => pc.ProgressOk s h
  | .download pc => pc.ProgressOk s h
  | .failed _ => Stopped s h
  | .done => ∃ n, Climbs (progressOf h) n ∧ n < s.expectedSize.toNat + maxChunkSize ∧
      (true ∈ reportsOf h → n = s.expectedSize.toNat)

section Steps

variable {P : Platform κ} {H : IncrementalHash} {v : View κ}
variable {hs : FileTransferHandshake} {s : ActiveTransferSession}
variable {h : List (SessionEffect κ)} {e : Effect κ}

/-- An effect that reports no progress. -/
theorem At.frame {n : UInt64} (hat : At h n) (hquiet : progressOf [(s, e)] = []) :
    At (h ++ [(s, e)]) n := by
  rw [At, progressOf_append, hquiet, List.append_nil]
  exact hat

theorem Stopped.frame (hst : Stopped s h) (hquiet : progressOf [(s, e)] = []) :
    Stopped s (h ++ [(s, e)]) := by
  rw [Stopped, progressOf_append, hquiet, List.append_nil]
  exact hst

theorem progressOf_file (op : FileOp κ) : progressOf [(s, (.file op : Effect κ))] = [] := rfl

theorem progressOf_qtRemove (path : String) : progressOf [(s, qtRemove P path)] = [] := by
  unfold qtRemove
  split <;> rfl

/-- The counter after a chunk, if it does not wrap. -/
theorem Receiving.toNat_total {r : Receiving H} {chunk : Bytes}
    (hfit : s.expectedSize.toNat + maxChunkSize ≤ 2 ^ 64)
    (hlt : r.totalReceived < s.expectedSize) (hle : chunk.length ≤ maxChunkSize) :
    (r.totalReceived + UInt64.ofNat chunk.length).toNat =
      r.totalReceived.toNat + chunk.length := by
  rw [UInt64.lt_iff_toNat_lt] at hlt
  have hchunk : (UInt64.ofNat chunk.length).toNat = chunk.length :=
    UInt64.toNat_ofNat_of_lt' (lt_of_le_of_lt hle (by decide))
  rw [UInt64.toNat_add, hchunk]
  exact Nat.mod_eq_of_lt (by omega)

theorem progress_upload {u : UploadPc H} {inp : Input} {pc' : Pc H}
    (hfit : s.expectedSize.toNat + maxChunkSize ≤ 2 ^ 64) (hI : u.ProgressOk s h)
    (hm : serveUpload P H v s u inp = some (pc', e)) : pc'.ProgressOk s (h ++ [(s, e)]) := by
  have hzero : (0 : Nat) < s.expectedSize.toNat + maxChunkSize :=
    Nat.add_pos_right _ (by decide)
  have hmax : s.expectedSize.toNat < s.expectedSize.toNat + maxChunkSize :=
    Nat.lt_add_of_pos_right (by decide)
  cases u with
  | openTemp =>
      have hnil : progressOf h = [] := hI
      have hclimbs : Climbs (progressOf h) 0 := hnil ▸ Climbs.nil
      simp only [serveUpload] at hm
      (repeat' split at hm) <;> cases hm
      · have hat : At h 0 := hclimbs
        exact ⟨hat.frame rfl, hzero⟩
      · exact Stopped.frame ⟨0, hclimbs, hzero⟩ rfl
      · exact Stopped.frame ⟨0, hclimbs, hzero⟩ rfl
  | recvHead r =>
      obtain ⟨hat, hlt⟩ := hI
      simp only [serveUpload] at hm
      split at hm
      · split at hm <;> cases hm
        · rename_i hgo
          simp only [Bool.and_eq_true, decide_eq_true_eq] at hgo
          exact ⟨hat.frame rfl, hgo.2⟩
        · exact ⟨hat.frame rfl, hlt⟩
      · cases hm
  | recvLen r =>
      obtain ⟨hat, hlt⟩ := hI
      have hbelow : r.totalReceived.toNat < s.expectedSize.toNat + maxChunkSize :=
        (UInt64.lt_iff_toNat_lt.mp hlt).trans hmax
      simp only [serveUpload] at hm
      split at hm
      · split at hm
        · split at hm <;> cases hm
          · exact ⟨hat.frame rfl, hbelow⟩
          · rename_i hsize
            rw [not_or, Nat.not_lt] at hsize
            exact ⟨hat.frame rfl, hlt, Nat.pos_of_ne_zero hsize.1, hsize.2⟩
        · cases hm
      · cases hm
        exact ⟨hat.frame rfl, hbelow⟩
      · cases hm
  | recvChunk r chunkSize =>
      obtain ⟨hat, hlt, hpos, hle⟩ := hI
      simp only [serveUpload] at hm
      split at hm
      · split at hm <;> cases hm
        rename_i hlen
        subst hlen
        exact ⟨hat.frame rfl, hlt, hpos, hle⟩
      · cases hm
        exact ⟨hat.frame rfl, (UInt64.lt_iff_toNat_lt.mp hlt).trans hmax⟩
      · cases hm
  | recvWrite r chunk =>
      obtain ⟨hat, hlt, hpos, hle⟩ := hI
      have htotal := Receiving.toNat_total hfit hlt hle
      rw [UInt64.lt_iff_toNat_lt] at hlt
      simp only [serveUpload] at hm
      split at hm <;> cases hm
      refine ⟨r.totalReceived.toNat, hat.frame (progressOf_file _), ?_, ?_⟩ <;>
        simp only [htotal] <;> omega
  | recvReport r =>
      obtain ⟨n, hclimbs, hlt, hbound⟩ := hI
      simp only [serveUpload] at hm
      split at hm <;> cases hm
      refine ⟨?_, hbound⟩
      rw [At, progressOf_append]
      exact hclimbs.snoc hlt
  | closeTemp r error =>
      obtain ⟨hat, hlt⟩ := hI
      simp only [serveUpload] at hm
      split at hm <;> cases hm
      exact ⟨hat.frame (progressOf_file _), hlt⟩
  | recvCheck shaState totalReceived error =>
      obtain ⟨hat, hlt⟩ := hI
      simp only [serveUpload] at hm
      split at hm
      · split at hm <;> cases hm
        · exact Stopped.frame ⟨_, hat, hlt⟩ rfl
        · rename_i hgood
          simp only [Bool.or_eq_true, decide_eq_true_eq, not_or, not_not] at hgood
          obtain ⟨-, rfl⟩ := hgood
          exact hat.frame rfl
      · cases hm
  | dropInterrupted | dropBadHash | dropUnsaved =>
      have hst : Stopped s h := hI
      simp only [serveUpload] at hm
      split at hm <;> cases hm
      · exact hst.frame (progressOf_qtRemove _)
      · exact hst.frame rfl
  | interrupted =>
      have hst : Stopped s h := hI
      simp only [serveUpload] at hm
      split at hm <;> cases hm
      exact hst.frame rfl
  | verify shaState =>
      have hat : At h s.expectedSize := hI
      simp only [serveUpload] at hm
      split at hm
      · split at hm <;> cases hm
        · exact Stopped.frame ⟨_, hat, hmax⟩ rfl
        · exact hat.frame rfl
      · cases hm
  | resolve finalPath count =>
      have hat : At h s.expectedSize := hI
      simp only [serveUpload] at hm
      split at hm
      · split at hm <;> cases hm <;> exact hat.frame rfl
      · cases hm
  | rename finalPath =>
      have hat : At h s.expectedSize := hI
      simp only [serveUpload] at hm
      (repeat' split at hm) <;> cases hm
      · exact hat.frame (progressOf_file _)
      · exact Stopped.frame ⟨_, hat, hmax⟩ rfl
      · exact Stopped.frame ⟨_, hat, hmax⟩ rfl
      · exact Stopped.frame ⟨_, hat, hmax⟩ rfl
  | saved finalPath =>
      have hat : At h s.expectedSize := hI
      simp only [serveUpload] at hm
      split at hm <;> cases hm
      exact ⟨_, hat.frame rfl, hmax, fun _ => rfl⟩

theorem progress_download {pc : DownloadPc} {pc' : Pc H} (hsent : pc.SentOk s h)
    (hI : pc.ProgressOk s h) (hm : DownloadMove H v s pc pc' e) :
    pc'.ProgressOk s (h ++ [(s, e)]) := by
  have hbelow : ∀ {n : UInt64} {cs rest ahead}, OnWire s h cs rest ahead →
      n.toNat = cs.flatten.length → n.toNat < s.expectedSize.toNat + maxChunkSize := by
    intro n cs rest ahead hw hcount
    rw [hcount]
    exact lt_of_le_of_lt hw.bound (Nat.lt_add_of_pos_right (by decide))
  cases hm with
  | opens =>
      have hnil : progressOf h = [] := hI
      have hat : At h 0 := by
        rw [At, hnil]
        exact Climbs.nil
      exact hat.frame rfl
  | opensNot =>
      have hnil : progressOf h = [] := hI
      have hst : Stopped s h := by
        refine ⟨0, ?_, Nat.add_pos_right _ (by decide)⟩
        rw [hnil]
        exact Climbs.nil
      exact hst.frame rfl
  | goesOn | leaves | reads | readsNothing | sendsLen | cutsLen | sendsBody | cutsBody
  | closes | completes =>
      exact At.frame hI rfl
  | reports =>
      obtain ⟨cs, hw, hcount, hnext⟩ := hsent
      have hclimbs : At h _ := hI
      have hafter := Sending.counts_advance hcount hnext
      have hpos := hnext.pos
      unfold Sending.Counts at hcount hafter
      rw [Pc.ProgressOk, DownloadPc.ProgressOk, At, progressOf_append]
      refine Climbs.snoc hclimbs ?_
      rw [hafter, hcount]
      simp only [List.flatten_append, List.flatten_cons, List.flatten_nil, List.append_nil,
        List.length_append]
      omega
  | fails =>
      obtain ⟨cs, rest, ahead, hw, hcount, -⟩ := hsent
      exact Stopped.frame ⟨_, hI, hbelow hw hcount⟩ rfl
  | finishes =>
      exact ⟨_, At.frame hI rfl, Nat.lt_add_of_pos_right (by decide), fun _ => rfl⟩

/-- **One step** of a body. -/
theorem progress_serve {pc pc' : Pc H} {inp : Input}
    (hfit : ¬hs.downloads → s.expectedSize.toNat + maxChunkSize ≤ 2 ^ 64)
    (hsent : pc.SentOk hs s h) (hI : pc.ProgressOk s h)
    (hm : serve P H v s pc inp = some (pc', e)) : pc'.ProgressOk s (h ++ [(s, e)]) := by
  have hclimbs : progressOf h = [] → Climbs (progressOf h) 0 := fun hnil => hnil ▸ Climbs.nil
  cases pc with
  | dispatch b =>
      have hnil : progressOf h = [] := hI
      have hsilent : progressOf (h ++ [(s, (.silent : Effect κ))]) = [] := by
        rw [progressOf_append, hnil]
        rfl
      simp only [serve] at hm
      (repeat' split at hm) <;> cases hm
      · exact hsilent
      · exact hsilent
      · refine ⟨0, hsilent ▸ Climbs.nil, Nat.add_pos_right _ (by decide), fun htrue => ?_⟩
        rw [reportsOf_append, hsent.1.reports] at htrue
        cases htrue
  | upload u => exact progress_upload (hfit hsent.2) hI hm
  | download d => exact progress_download hsent.1 hI (serveDownload_cases hm)
  | failed error =>
      obtain ⟨n, hn, hlt⟩ := hI
      simp only [serve] at hm
      split at hm <;> cases hm
      refine ⟨n, by rwa [progressOf_append, show progressOf [(s, (.finished false error :
        Effect κ))] = [] from rfl, List.append_nil], hlt, fun htrue => ?_⟩
      rw [reportsOf_append, hsent.2] at htrue
      simp [reportsOf] at htrue
  | done => simp [serve] at hm

/-- What a connection has reported, if its size fits. -/
def Connection.ProgressOk (h : List (SessionEffect κ)) : Connection H → Prop
  | .serving hs s pc =>
      (¬hs.downloads → s.expectedSize.toNat + maxChunkSize ≤ 2 ^ 64) → pc.ProgressOk s h
  | _ => progressOf h = []

theorem progress_connection {srv : FileTransferServer} {fs : FileStore κ}
    {conn conn' : Connection H} {inp : Input} {eff : Option (SessionEffect κ)}
    (hsent : conn.SentOk h) (hI : conn.ProgressOk h)
    (hm : conn.step P H srv fs inp = some (conn', eff)) :
    conn'.ProgressOk (h ++ eff.toList) := by
  have hframe : ∀ {e : SessionEffect κ}, progressOf [e] = [] → progressOf h = [] →
      progressOf (h ++ (some e).toList) = [] := by
    intro e hquiet hnil
    rw [progressOf_append, hnil]
    exact hquiet
  cases Connection.step_cases hm with
  | greeted =>
      rw [Option.toList_none, List.append_nil]
      exact hI
  | found _ _ => exact hframe rfl hI
  | authenticated _ => exact fun _ => hframe rfl hI
  | serves hserve => exact fun hfit => progress_serve hfit hsent (hI hfit) hserve
  | ends hpre =>
      rw [Option.toList_none, List.append_nil]
      cases conn with
      | serving hs s pc => cases hpre
      | _ => exact hI

theorem progress_reach {conn : Connection H}
    (hr : (connectionMachine P H).Reach anyStep conn h) : conn.ProgressOk h := by
  refine hr.invariant_along (fun conn h => conn.ProgressOk h) ?_ ?_
  · rintro conn rfl
    rfl
  · intro conn h a conn' es hreach hI _ hs
    simp only [connectionMachine, Option.map_eq_some_iff] at hs
    obtain ⟨⟨conn₁, eff⟩, hm, heq⟩ := hs
    cases heq
    exact progress_connection (sentOk_reach hreach) hI hm

/-! ## Reports and data -/

/-- What the peer has found it goes on finding. -/
theorem chunksOf_prefix (h es : List (SessionEffect κ)) : chunksOf h <+: chunksOf (h ++ es) := by
  have hall : Longest kChunkPlaintextSize (sentOf h) (chunksOf h) :=
    longest_frames (by decide) (sentOf h)
  refine prefix_frames (by decide) hall.admissible (hall.start.trans ?_)
  rw [sentOf_append]
  exact List.prefix_append _ _

theorem length_received_le (h es : List (SessionEffect κ)) :
    (chunksOf h).flatten.length ≤ (chunksOf (h ++ es)).flatten.length := by
  obtain ⟨tail, htail⟩ := chunksOf_prefix h es
  rw [← htail, List.flatten_append, List.length_append]
  exact Nat.le_add_right _ _

/-- A connection that sends reports no more than the peer has. -/
def Connection.Behind (h : List (SessionEffect κ)) : Connection H → Prop
  | .serving hs _ _ => hs.downloads → ∀ n ∈ progressOf h, n ≤ (chunksOf h).flatten.length
  | _ => True

/-- A report says how much has been sent. -/
theorem serve_progress {pc pc' : Pc H} {inp : Input} {n : UInt64} (hsent : pc.SentOk hs s h)
    (hdown : hs.downloads) (hm : serve P H v s pc inp = some (pc', (.progress n : Effect κ))) :
    n.toNat = (chunksOf h).flatten.length := by
  cases pc with
  | dispatch b =>
      simp only [serve] at hm
      (repeat' split at hm) <;> cases hm
  | upload u => exact absurd hdown hsent.2
  | download d =>
      have hmove := serveDownload_cases (P := P) (H := H) (v := v) (s := s) hm
      cases hmove with
      | reports =>
          obtain ⟨cs, hw, hcount, hnext⟩ := hsent.1
          have hafter := Sending.counts_advance hcount hnext
          rcases hw.parsed (Or.inl rfl) with ⟨hcs, -⟩ | ⟨-, hnext', -⟩
          · rw [hcs]
            exact hafter
          · exact absurd hnext'.pos (lt_irrefl 0)
  | failed error =>
      simp only [serve] at hm
      split at hm <;> cases hm
  | done => simp [serve] at hm

theorem behind_reach {conn : Connection H}
    (hr : (connectionMachine P H).Reach anyStep conn h) : conn.Behind h := by
  refine hr.invariant_along (fun conn h => conn.Behind h) ?_ ?_
  · rintro conn rfl
    trivial
  · intro conn h a conn' es hreach hI _ hs
    have hprogress := progress_reach hreach
    have hsent := sentOk_reach hreach
    simp only [connectionMachine, Option.map_eq_some_iff] at hs
    obtain ⟨⟨conn₁, eff⟩, hm, heq⟩ := hs
    cases heq
    cases Connection.step_cases hm with
    | greeted | found _ _ | ends _ => trivial
    | authenticated _ =>
        have hnil : progressOf h = [] := hprogress
        intro _ n hn
        rw [Option.toList_some, progressOf_append, hnil] at hn
        cases hn
    | @serves inp hs s pc pc' e hserve =>
        intro hdown n hn
        have hmono := length_received_le h [(s, e)]
        rw [Option.toList_some, progressOf_append, List.mem_append] at hn
        rcases hn with hn | hn
        · exact (hI hdown n hn).trans hmono
        · cases e with
          | progress bytes =>
              have hbytes := serve_progress hsent hdown hserve
              rw [List.mem_singleton.mp hn, hbytes]
              exact hmono
          | _ => cases hn

end Steps

/-! ## The reports of a connection -/

/-- What the user interface may rely on. -/
structure ProgressExact (hs : FileTransferHandshake) (s : ActiveTransferSession)
    (h : List (SessionEffect κ)) : Prop where
  sorted : (progressOf h).Pairwise (· < ·)
  pos : ∀ n ∈ progressOf h, 0 < n
  bound : ∀ n ∈ progressOf h, n < s.expectedSize.toNat + maxChunkSize
  sent : hs.downloads → ∀ n ∈ progressOf h, n ≤ (chunksOf h).flatten.length
  whole : true ∈ reportsOf h → (progressOf h).getLast?.getD 0 = s.expectedSize.toNat

theorem Pc.ProgressOk.climbs {H : IncrementalHash} {hs : FileTransferHandshake}
    {s : ActiveTransferSession} {h : List (SessionEffect κ)} {pc : Pc H}
    (hsent : pc.SentOk hs s h) (hI : pc.ProgressOk s h) :
    ∃ n, Climbs (progressOf h) n ∧ n < s.expectedSize.toNat + maxChunkSize ∧
      (true ∈ reportsOf h → n = s.expectedSize.toNat) := by
  have hzero : (0 : Nat) < s.expectedSize.toNat + maxChunkSize :=
    Nat.add_pos_right _ (by decide)
  have hmax : s.expectedSize.toNat < s.expectedSize.toNat + maxChunkSize :=
    Nat.lt_add_of_pos_right (by decide)
  have hquiet : ∀ {n : Nat}, reportsOf h = [] → true ∈ reportsOf h →
      n = s.expectedSize.toNat := by
    intro n hnil htrue
    rw [hnil] at htrue
    cases htrue
  have hnone : progressOf h = [] → Climbs (progressOf h) 0 := fun hnil => hnil ▸ Climbs.nil
  cases pc with
  | dispatch b => exact ⟨0, hnone hI, hzero, hquiet hsent.1.reports⟩
  | upload u =>
      have hreports := hsent.1.reports
      cases u with
      | openTemp => exact ⟨0, hnone hI, hzero, hquiet hreports⟩
      | recvHead r | closeTemp r _ => exact ⟨_, hI.1, hI.2, hquiet hreports⟩
      | recvCheck _ _ _ => exact ⟨_, hI.1, hI.2, hquiet hreports⟩
      | recvLen r => exact ⟨_, hI.1, (UInt64.lt_iff_toNat_lt.mp hI.2).trans hmax, hquiet hreports⟩
      | recvChunk r _ | recvWrite r _ =>
          exact ⟨_, hI.1, (UInt64.lt_iff_toNat_lt.mp hI.2.1).trans hmax, hquiet hreports⟩
      | recvReport r =>
          obtain ⟨n, hn, hlt, hbound⟩ := hI
          exact ⟨n, hn, hlt.trans hbound, hquiet hreports⟩
      | verify _ | resolve _ _ | rename _ | saved _ => exact ⟨_, hI, hmax, hquiet hreports⟩
      | dropInterrupted | interrupted | dropBadHash | dropUnsaved =>
          obtain ⟨n, hn, hlt⟩ := hI
          exact ⟨n, hn, hlt, hquiet hreports⟩
  | download d =>
      obtain ⟨hd, -, hreports⟩ := hsent
      have hbelow : ∀ {n : UInt64} {cs rest ahead}, At h n → OnWire s h cs rest ahead →
          n.toNat = cs.flatten.length → ∃ n, Climbs (progressOf h) n ∧
            n < s.expectedSize.toNat + maxChunkSize ∧
              (true ∈ reportsOf h → n = s.expectedSize.toNat) := by
        intro n cs rest ahead hat hw hcount
        refine ⟨_, hat, ?_, hquiet hreports⟩
        rw [hcount]
        exact lt_of_le_of_lt hw.bound hmax
      cases d with
      | openSource => exact ⟨0, hnone hI, hzero, hquiet hreports⟩
      | sendHead t | sendRead t | sendLen t _ | sendBody t _ =>
          obtain ⟨cs, hw, hcount⟩ := hd
          first
            | exact hbelow hI hw hcount
            | exact hbelow hI hw hcount.1
      | sendReport t chunk =>
          obtain ⟨cs, hw, hcount, hnext⟩ := hd
          have hroom := hnext.room
          refine ⟨_, hI, ?_, hquiet hreports⟩
          unfold Sending.Counts at hcount
          omega
      | closeSource t _ | sendCheck _ _ =>
          obtain ⟨cs, rest, ahead, hw, hcount, -⟩ := hd
          exact hbelow hI hw hcount
      | sentAll => exact ⟨_, hI, hmax, hquiet hreports⟩
  | failed error =>
      obtain ⟨n, hn, hlt⟩ := hI
      exact ⟨n, hn, hlt, hquiet hsent.2⟩
  | done => exact hI

section Exact

variable {P : Platform κ} {H : IncrementalHash} [DecidableEq κ]

/-- **Progress.**  In every run of the system the reports of a connection climb; sending,
they never run ahead of what the peer has received; receiving, they stay within one
chunk of the announced size; and a success is reported only after the whole size. -/
theorem progress_exact {ok : StepCond (World κ H) (TransferAction κ) (TransferEvent κ)}
    {w : World κ H} {h : List (TransferEvent κ)} (hr : (transferMachine P H).Reach ok w h)
    {c : Nat} {hs : FileTransferHandshake} {s : ActiveTransferSession} {pc : Pc H}
    (hc : w.conns[c]? = some (.serving hs s pc))
    (hfit : ¬hs.downloads → s.expectedSize.toNat + maxChunkSize ≤ 2 ^ 64) :
    ProgressExact hs s (effectsOf c h) := by
  have hreach := connection_reach hr hc
  have hsent : pc.SentOk hs s (effectsOf c h) := sentOk_reach hreach
  have hI : pc.ProgressOk s (effectsOf c h) := progress_reach hreach hfit
  obtain ⟨n, hn, hlt, hwhole⟩ := hI.climbs hsent
  exact
    { sorted := hn.sorted
      pos := hn.pos
      bound := fun x hx => lt_of_le_of_lt (hn.le x hx) hlt
      sent := behind_reach hreach
      whole := fun htrue => hn.last.trans (hwhole htrue) }

end Exact

/-- A file of three bytes is received on connection 0. -/
def receiveThree : List (TransferAction String) :=
  [.control (.start true), offerAction 1 "a" 3 "" 7] ++ connectActions 0 1 7 0 ++
  -- open, loop head, length, chunk, write
  [ .conn 0 .go, .conn 0 .go, .conn 0 (.bytes [0, 0, 0, 3]), .conn 0 (.bytes [97, 98, 99])
  , .conn 0 (.stored 3) ] ++
  -- report, loop head, close, check, verify, resolve, rename, report
  List.replicate 8 (.conn 0 .go)

theorem progress_exact_sample :
    ∃ (h : List (TransferEvent String)) (hs : FileTransferHandshake)
      (s : ActiveTransferSession), progressOf (effectsOf 0 h) = [3] ∧
        reportsOf (effectsOf 0 h) = [true] ∧ ProgressExact hs s (effectsOf 0 h) := by
  obtain ⟨w, h, hr, hh⟩ := exists_reach_of_exec
    (transferMachine samplePlatform sha256) anyStep (s := worldWith []) (worldWith_init _)
    receiveThree
    (fun (w : World String sha256) h => (w.conns[0]?.bind Connection.served?).any fun r =>
      decide (r.2.expectedSize = (3 : UInt64)) && decide (progressOf (effectsOf 0 h) = [3]) &&
        decide (reportsOf (effectsOf 0 h) = [true]))
    (by decide +kernel)
  obtain ⟨r, hserved, hh⟩ := (Option.any_eq_true _ _).mp hh
  obtain ⟨conn, hc, hserved⟩ := Option.bind_eq_some_iff.mp hserved
  obtain ⟨pc, rfl⟩ := Connection.served_eq_some hserved
  simp only [Bool.and_eq_true, decide_eq_true_eq] at hh
  obtain ⟨⟨hsize, hprogress⟩, hreports⟩ := hh
  exact ⟨h, r.1, r.2, hprogress, hreports, progress_exact hr hc fun _ => by rw [hsize]; decide⟩

end Iriseus.Core
