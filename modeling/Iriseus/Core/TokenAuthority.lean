import Iriseus.Core.TransferMachine

/-!
# No file access without the token

The history of a run determines which session an identifier was registered
with last (`entryOf`), and the server's table is exactly that
(`TokenInv.entries`).  A connection that reads or writes a file, or sends
bytes, looked its session up before; the session was then the registered one
for its identifier, the identifier is the presented one up to dashes, and the
32 bytes presented are its token.

The check of the token is skipped when the stored token does not have 32
bytes.  Every registration stores 32 bytes, so that branch is never taken.
-/

namespace Iriseus.Core

open Iriseus.Verified
open Iriseus.Verified.ByteStream

variable {κ : Type}

/-! ## The table, read off the history -/

def afterTableEvent (entries : String → Option ActiveTransferSession) :
    TransferEvent κ → String → Option ActiveTransferSession
  | .registered s => Function.update entries s.transferId (some s)
  | .erased id => Function.update entries id none
  | .cleared => fun _ => none
  | _ => entries

/-- The session registered last for an identifier, unless it was erased. -/
def entryOf (h : List (TransferEvent κ)) : String → Option ActiveTransferSession :=
  h.foldl afterTableEvent fun _ => none

theorem entryOf_append (h es : List (TransferEvent κ)) :
    entryOf (h ++ es) = es.foldl afterTableEvent (entryOf h) := by
  simp [entryOf]

theorem entryOf_snoc (h : List (TransferEvent κ)) (e : TransferEvent κ) :
    entryOf (h ++ [e]) = afterTableEvent (entryOf h) e :=
  entryOf_append h [e]

theorem foldl_minor {entries : String → Option ActiveTransferSession}
    {es : List (TransferEvent κ)} (hes : ∀ e ∈ es, e.minor = true) :
    es.foldl afterTableEvent entries = entries := by
  induction es with
  | nil => rfl
  | cons e es ih =>
      have he : afterTableEvent entries e = entries := by
        have hm := hes e (by simp)
        cases e <;> first | rfl | simp [TransferEvent.minor] at hm
      rw [List.foldl_cons, he]
      exact ih fun x hx => hes x (by simp [hx])

/-- Changes of the tables keep the server's table and the history's in step. -/
theorem TableStep.entries {t t' : Tables} {es : List (TransferEvent κ)}
    (ht : TableStep t t' es) {entries : String → Option ActiveTransferSession}
    (hentries : ∀ id, t.sessions.lookup id = entries id) (id : String) :
    t'.sessions.lookup id = es.foldl afterTableEvent entries id := by
  have hinsert : ∀ s : ActiveTransferSession, (t.sessions.insert s.transferId s).lookup id =
      Function.update entries s.transferId (some s) id := by
    intro s
    by_cases hid : id = s.transferId
    · subst hid
      simp
    · rw [AList.lookup_insert_ne hid, Function.update_of_ne hid, hentries]
  have herase : ∀ i : String, (t.sessions.erase i).lookup id =
      Function.update entries i none id := by
    intro i
    by_cases hid : id = i
    · subst hid
      simp
    · rw [AList.lookup_erase_ne hid, Function.update_of_ne hid, hentries]
  cases ht with
  | quiet | cancelBegin | cancelNone | stopBegin | stopNext | complete | signal | withdraw =>
      exact hentries id
  | told hes =>
      rw [foldl_minor hes]
      exact hentries id
  | offer _ _ _ _ _ hpre hpost =>
      rw [List.foldl_append, foldl_minor hpre, List.foldl_cons, List.foldl_cons,
        foldl_minor hpost]
      exact hinsert _
  | reoffer _ _ _ _ _ hpost =>
      rw [List.foldl_cons, foldl_minor hpost]
      exact hinsert _
  | cancelEnd => exact herase _
  | stopEnd => rfl

/-! ## Authorised accesses -/

/-- The effect reads, writes, creates, renames or deletes a file, or sends
bytes. -/
def Effect.touchesFile (e : Effect κ) : Bool := e.changesFile || e.readsFile

/-- Connection `c` looked up the identifier of `hs` and found `s`: `s` was the
registered session of its identifier, which is the presented one up to
dashes, and has a token of 32 bytes. -/
def FoundAt (h : List (TransferEvent κ)) (c : Nat) (hs : FileTransferHandshake)
    (s : ActiveTransferSession) : Prop :=
  ∃ h₀ h₁, h = h₀ ++ .connection c s (.found hs) :: h₁ ∧
    entryOf h₀ s.transferId = some s ∧
    noDash s.transferId = toHex hs.transferId.bytes ∧
    s.tokenBytes.length = kTokenSize

/-- Connection `c` found `s` and presented its token. -/
def Authorised (h : List (TransferEvent κ)) (c : Nat) (s : ActiveTransferSession) : Prop :=
  ∃ hs, FoundAt h c hs s ∧ hs.token.bytes = s.tokenBytes

theorem FoundAt.append {h : List (TransferEvent κ)} {c : Nat}
    {hs : FileTransferHandshake} {s : ActiveTransferSession} (hf : FoundAt h c hs s)
    (es : List (TransferEvent κ)) : FoundAt (h ++ es) c hs s := by
  obtain ⟨h₀, h₁, rfl, hrest⟩ := hf
  exact ⟨h₀, h₁ ++ es, by simp, hrest⟩

theorem FoundAt.token_length {h : List (TransferEvent κ)} {c : Nat}
    {hs : FileTransferHandshake} {s : ActiveTransferSession} (hf : FoundAt h c hs s) :
    s.tokenBytes.length = kTokenSize := by
  obtain ⟨-, -, -, -, -, hlen⟩ := hf
  exact hlen

theorem token_eq_of_accepted {s : ActiveTransferSession} {token : ByteBlock kTokenSize}
    (hlen : s.tokenBytes.length = kTokenSize) (h : tokenAccepted s token = true) :
    token.bytes = s.tokenBytes := by
  simpa [tokenAccepted, hlen] using h

/-- The table agrees with the history and holds 32-byte tokens under their
own identifiers; a connection past its lookup found its session, past its
check it presented the token; and so did every connection in the past. -/
structure TokenInv {H : IncrementalHash} (w : World κ H) (h : List (TransferEvent κ)) :
    Prop where
  entries : ∀ id, w.manager.server.sessions.lookup id = entryOf h id
  key : ∀ id s, w.manager.server.sessions.lookup id = some s →
    s.transferId = id ∧ s.tokenBytes.length = kTokenSize
  validate : ∀ c hs s, w.conns[c]? = some (.validate hs s) → FoundAt h c hs s
  serving : ∀ c hs s pc, w.conns[c]? = some (.serving hs s pc) →
    FoundAt h c hs s ∧ hs.token.bytes = s.tokenBytes
  found : ∀ h₁ c s hs h₂, h = h₁ ++ .connection c s (.found hs) :: h₂ →
    entryOf h₁ s.transferId = some s
  authenticated : ∀ c s hs, .connection c s (.authenticated hs) ∈ h →
    hs.token.bytes = s.tokenBytes
  access : ∀ h₁ c s e h₂, h = h₁ ++ .connection c s e :: h₂ →
    e.touchesFile = true → Authorised h₁ c s

/-- Registrations use 32-byte tokens and their own identifiers as keys. -/
private theorem TableStep.key {t t' : Tables} {es : List (TransferEvent κ)}
    (ht : TableStep t t' es)
    (hkey : ∀ id s, t.sessions.lookup id = some s →
      s.transferId = id ∧ s.tokenBytes.length = kTokenSize) :
    ∀ id s, t'.sessions.lookup id = some s →
      s.transferId = id ∧ s.tokenBytes.length = kTokenSize := by
  have hinsert : ∀ s : ActiveTransferSession, s.tokenBytes.length = kTokenSize →
      ∀ id s', (t.sessions.insert s.transferId s).lookup id = some s' →
        s'.transferId = id ∧ s'.tokenBytes.length = kTokenSize := by
    intro s htoken id s' hl
    by_cases hid : id = s.transferId
    · subst hid
      rw [AList.lookup_insert, Option.some.injEq] at hl
      exact hl ▸ ⟨rfl, htoken⟩
    · rw [AList.lookup_insert_ne hid] at hl
      exact hkey id s' hl
  cases ht with
  | quiet | cancelBegin | cancelNone | stopBegin | stopNext | complete | told | signal
  | withdraw => exact hkey
  | offer _ _ _ htoken => exact hinsert _ htoken
  | reoffer _ _ _ htoken => exact hinsert _ htoken
  | @cancelEnd s =>
      intro id s' hl
      by_cases hid : id = s.transferId
      · subst hid
        simp at hl
      · rw [AList.lookup_erase_ne hid] at hl
        exact hkey id s' hl
  | stopEnd => simp

section Steps

variable {P : Platform κ} {H : IncrementalHash}

/-- How a step changes the session table: by its table events, after events
that do not concern that table. -/
theorem Transition.sessions [DecidableEq κ] {w w' : World κ H} {a : TransferAction κ}
    {es : List (TransferEvent κ)} (ht : Transition P w a w' es) :
    ∃ pre t' es', es = pre ++ es' ∧ TableStep w.manager.tables t' es' ∧
      t'.sessions = w'.manager.server.sessions ∧
      ∀ entries, pre.foldl afterTableEvent entries = entries := by
  cases ht with
  | control _ ht => exact ⟨[], _, _, rfl, ht, rfl, fun _ => rfl⟩
  | clean _ ht => exact ⟨[], _, _, rfl, ht, rfl, fun _ => rfl⟩
  | callback _ _ ht => exact ⟨[], _, _, rfl, ht, rfl, fun _ => rfl⟩
  | cleanFile _ _ ht => exact ⟨[_], _, _, rfl, ht, rfl, fun _ => rfl⟩
  | accept => exact ⟨[], _, [], rfl, .quiet, rfl, fun _ => rfl⟩
  | connQuiet => exact ⟨[], _, [], rfl, .quiet, rfl, fun _ => rfl⟩
  | connFile => exact ⟨[_, _], _, [], rfl, .quiet, rfl, fun _ => rfl⟩
  | connEffect _ _ _ htables hminor =>
      refine ⟨_ :: _, _, [], (List.append_nil _).symm, .quiet,
        (congrArg Tables.sessions htables).symm, ?_⟩
      intro entries
      rw [List.foldl_cons]
      exact foldl_minor hminor
  | create => exact ⟨[_], _, [], rfl, .quiet, rfl, fun _ => rfl⟩

/-- A lookup finds a registered session under the presented identifier. -/
private theorem TokenInv.foundAt {w : World κ H} {h : List (TransferEvent κ)}
    (hI : TokenInv w h) {c : Nat} {hs : FileTransferHandshake} {inp : Input}
    {s : ActiveTransferSession}
    (hfind : findSession w.manager.server.sessions hs.candidate inp = some (some s)) :
    entryOf h s.transferId = some s ∧
      ∀ es, FoundAt (h ++ .connection c s (.found hs) :: es) c hs s := by
  obtain ⟨id, hl, hdash⟩ := findSession_some hfind
  obtain ⟨rfl, hlen⟩ := hI.key id s hl
  have hentry : entryOf h s.transferId = some s := by rw [← hI.entries]; exact hl
  refine ⟨hentry, fun es => ⟨h, es, rfl, hentry, ?_, hlen⟩⟩
  rw [hdash, FileTransferHandshake.candidate, noDash_formatUuid]

variable [DecidableEq κ]

/-- **One step.** -/
theorem tokenInv_step {w w' : World κ H} {h es : List (TransferEvent κ)}
    {a : TransferAction κ} (hI : TokenInv w h)
    (hs : transferStep P H w a = some (w', es)) : TokenInv w' (h ++ es) := by
  have ht := step_cases hs
  obtain ⟨pre, t', tes, hes, htab, hsessions, hpre⟩ := ht.sessions
  -- a new event of a connection comes from its move
  have hevent : ∀ {h₁ c s e h₂}, h ++ es = h₁ ++ .connection c s e :: h₂ →
      (∃ h₂', h = h₁ ++ .connection c s e :: h₂') ∨
        (h₁ = h ∧ ∃ inp conn conn', w.conns[c]? = some conn ∧
          ConnectionStep P w.manager.server w.fs conn inp conn' (some (s, e))) := by
    intro h₁ c s e h₂ heq
    rcases Machine.append_eq_append_cons heq with ⟨h₂', hold, -⟩ | ⟨es₁, hh₁, hes'⟩
    · exact Or.inl ⟨h₂', hold⟩
    · obtain ⟨rfl, inp, conn, conn', -, hc, -, hmove⟩ := step_connection_event ht hes'
      exact Or.inr ⟨by rw [hh₁, List.append_nil], inp, conn, conn', hc, hmove⟩
  refine { entries := ?_, key := hsessions ▸ htab.key hI.key, validate := ?_, serving := ?_,
           found := ?_, authenticated := ?_, access := ?_ }
  · intro id
    rw [entryOf_append, hes, List.foldl_append, hpre, ← hsessions]
    exact htab.entries hI.entries id
  · intro c hs' s hc
    rcases step_conn ht hc with ⟨-, hold⟩ | hnew | ⟨inp, conn, eff, -, hold, hmove, hfirst⟩
    · exact (hI.validate c hs' s hold).append es
    · cases hnew
    · cases hmove with
      | found hidle hfind =>
          obtain ⟨es', rfl⟩ := hfirst _ _ rfl
          exact (hI.foundAt hfind).2 es'
  · intro c hs' s pc hc
    rcases step_conn ht hc with ⟨-, hold⟩ | hnew | ⟨inp, conn, eff, -, hold, hmove, hfirst⟩
    · exact ⟨(hI.serving c hs' s pc hold).1.append es, (hI.serving c hs' s pc hold).2⟩
    · cases hnew
    · cases hmove with
      | authenticated htoken =>
          have hfound := hI.validate c hs' s hold
          exact ⟨hfound.append es, token_eq_of_accepted hfound.token_length htoken⟩
      | serves hserve =>
          exact ⟨(hI.serving c hs' s _ hold).1.append es, (hI.serving c hs' s _ hold).2⟩
  · intro h₁ c s hs' h₂ heq
    rcases hevent heq with ⟨h₂', hold⟩ | ⟨rfl, inp, conn, conn', hc, hmove⟩
    · exact hI.found h₁ c s hs' h₂' hold
    · cases hmove with
      | found hidle hfind => exact (hI.foundAt (c := c) hfind).1
      | serves hserve =>
          have hhs := (serve_mode hserve).2.2.2
          simp [Effect.ofHandshake] at hhs
  · intro c s hs' hmem
    obtain ⟨h₁, h₂, heq⟩ := List.append_of_mem hmem
    rcases hevent heq with ⟨h₂', hold⟩ | ⟨rfl, inp, conn, conn', hc, hmove⟩
    · exact hI.authenticated c s hs' (by simp [hold])
    · cases hmove with
      | authenticated htoken =>
          exact token_eq_of_accepted (hI.validate c hs' s hc).token_length htoken
      | serves hserve =>
          have hhs := (serve_mode hserve).2.2.2
          simp [Effect.ofHandshake] at hhs
  · intro h₁ c s e h₂ heq htouch
    rcases hevent heq with ⟨h₂', hold⟩ | ⟨rfl, inp, conn, conn', hc, hmove⟩
    · exact hI.access h₁ c s e h₂' hold htouch
    · cases hmove with
      | found => simp [Effect.touchesFile, Effect.changesFile, Effect.readsFile] at htouch
      | authenticated =>
          simp [Effect.touchesFile, Effect.changesFile, Effect.readsFile] at htouch
      | @serves _ hs' _ pc _ _ hserve => exact ⟨hs', hI.serving c hs' s pc hc⟩

theorem tokenInv_reach {ok : Machine.StepCond (World κ H) (TransferAction κ) (TransferEvent κ)}
    {w : World κ H} {h : List (TransferEvent κ)}
    (hr : (transferMachine P H).Reach ok w h) : TokenInv w h := by
  refine Machine.Reach.invariant _ ?_ ?_ hr
  · rintro w ⟨-, -, hm, hconns⟩
    have hempty : w.manager.server.sessions = ∅ := by rw [hm]
    refine { entries := ?_, key := ?_, validate := ?_, serving := ?_, found := ?_,
             authenticated := ?_, access := ?_ } <;> simp [hempty, hconns, entryOf]
  · intro w h a w' es hI _ hs
    exact tokenInv_step hI hs

/-- **No file bytes without the token.**  In every run the table is what the
history registered.  A connection that touches a file for `s` found `s` as the
registered session of its identifier, under the presented bytes up to dashes,
and presented the 32 bytes of its token.  No connection that checks a token
can skip the comparison.  And a connection that presents a token of an earlier
registration of the identifier, different from the registered one, is never
authenticated. -/
theorem fileAccess_needs_token {w : World κ H} {h : List (TransferEvent κ)}
    (hr : (transferMachine P H).Reach Machine.anyStep w h) :
    (∀ id, w.manager.server.sessions.lookup id = entryOf h id) ∧
    (∀ h₁ c s e h₂, h = h₁ ++ .connection c s e :: h₂ → e.touchesFile = true →
      Authorised h₁ c s) ∧
    (∀ (c : Nat) (hs : FileTransferHandshake) (s : ActiveTransferSession),
      w.conns[c]? = some (.validate hs s) → s.tokenBytes.length = kTokenSize) ∧
    (∀ h₁ c s hs h₂, h = h₁ ++ .connection c s (.found hs) :: h₂ →
      entryOf h₁ s.transferId = some s ∧
      ∀ s', .registered s' ∈ h₁ → s'.transferId = s.transferId →
        s'.tokenBytes ≠ s.tokenBytes → hs.token.bytes = s'.tokenBytes →
        .connection c s (.authenticated hs) ∉ h) := by
  have hI := tokenInv_reach hr
  refine ⟨hI.entries, hI.access, ?_, ?_⟩
  · intro c hs s hc
    exact (hI.validate c hs s hc).token_length
  · intro h₁ c s hs h₂ heq
    refine ⟨hI.found h₁ c s hs h₂ heq, ?_⟩
    intro s' _ _ hne htoken hauth
    exact hne (htoken.symm.trans (hI.authenticated c s hs hauth))

end Steps

/-- A run in which a connection with the token creates a file. -/
theorem fileAccess_sampleUpload :
    ∃ w h, (transferMachine samplePlatform sha256).Reach Machine.anyStep w h ∧
      (h.any fun e => match e with
        | .connection 0 _ (.file (.openTrunc _)) => true
        | _ => false) = true ∧
      ∀ h₁ c s e h₂, h = h₁ ++ .connection c s e :: h₂ → e.touchesFile = true →
        Authorised h₁ c s := by
  obtain ⟨w, h, hr, hh⟩ := Machine.exists_reach_of_exec
    (transferMachine samplePlatform sha256) Machine.anyStep
    (s := worldWith []) (worldWith_init [])
    ([.control (.start true), offerAction 1 "a" 4 "" 7] ++ connectActions 0 1 7 0 ++
      [.conn 0 .go])
    (fun _ h => h.any fun e => match e with
      | .connection 0 _ (.file (.openTrunc _)) => true
      | _ => false)
    (by decide +kernel)
  exact ⟨w, h, hr, hh, (fileAccess_needs_token hr).2.1⟩

end Iriseus.Core
