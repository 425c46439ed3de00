import Iriseus.Core.TokenAuthority

/-!
# Which clients are let in

A client that was sent a `file_ready` presents the 16 bytes its identifier
stands for and the token.  The server turns the bytes back into the canonical
text and looks that up, or else the first identifier that agrees with it up to
dashes.  An identifier that a peer wrote with upper-case digits agrees with
neither.

`readyOf` reads the token that was sent last off the history, and `ReadyInv`
says that it is the token of the registered session.

## Main results

* `client_let_in_iff` — the client is let in, whichever entry the lookup meets
  first, exactly if its identifier is `Findable`.
-/

namespace Iriseus.Core

open Iriseus.Verified
open Iriseus.Verified.ByteStream

variable {κ : Type}

/-! ## The token sent last -/

def afterReady (ready : String → Option String) :
    TransferEvent κ → String → Option String
  | .sendTo _ (.fileReady id _ token) => Function.update ready id (some token)
  | .registered s => Function.update ready s.transferId none
  | .erased id => Function.update ready id none
  | .cleared => fun _ => none
  | _ => ready

/-- The token of the last `file_ready` for an identifier, unless the identifier
has been registered again or cancelled since; `stop` cancels all of them. -/
def readyOf (h : List (TransferEvent κ)) : String → Option String :=
  h.foldl afterReady fun _ => none

theorem readyOf_snoc (h : List (TransferEvent κ)) (e : TransferEvent κ) :
    readyOf (h ++ [e]) = afterReady (readyOf h) e := by
  simp [readyOf]

/-- The token sent last is the one of the registered session. -/
def ReadyInv (h : List (TransferEvent κ)) : Prop :=
  ∀ id token, readyOf h id = some token →
    ∃ s, entryOf h id = some s ∧ s.tokenBase64 = token ∧
      PairingCrypto.toBase64 s.tokenBytes = token

def TransferEvent.sendsToken : TransferEvent κ → Bool
  | .sendTo _ (.fileReady _ _ _) => true
  | _ => false

/-- Events without a token. -/
theorem ReadyInv.append {h es : List (TransferEvent κ)} (hI : ReadyInv h)
    (hes : ∀ e ∈ es, e.sendsToken = false) : ReadyInv (h ++ es) := by
  induction es using List.reverseRecOn with
  | nil => rwa [List.append_nil]
  | append_singleton es e ih =>
      have hI := ih fun x hx => hes x (by simp [hx])
      rw [← List.append_assoc]
      intro id token hready
      rw [readyOf_snoc] at hready
      rw [entryOf_snoc]
      cases e with
      | registered s =>
          by_cases hid : id = s.transferId
          · subst hid
            simp [afterReady] at hready
          · rw [afterReady, Function.update_of_ne hid] at hready
            rw [afterTableEvent, Function.update_of_ne hid]
            exact hI id token hready
      | erased id' =>
          by_cases hid : id = id'
          · subst hid
            simp [afterReady] at hready
          · rw [afterReady, Function.update_of_ne hid] at hready
            rw [afterTableEvent, Function.update_of_ne hid]
            exact hI id token hready
      | cleared => cases hready
      | sendTo sessionId msg =>
          have hsend := hes (.sendTo sessionId msg) (by simp)
          cases msg with
          | fileReady => cases hsend
          | _ => exact hI id token hready
      | _ => exact hI id token hready

/-- What a step sends: no token, or as its last two events a registration and
its token. -/
inductive TokenSends : List (TransferEvent κ) → Prop
  | none {es : List (TransferEvent κ)} (hes : ∀ e ∈ es, e.sendsToken = false) :
      TokenSends es
  | ready {pre : List (TransferEvent κ)} {s : ActiveTransferSession} {sessionId : UInt64}
      {port : Nat} (hpre : ∀ e ∈ pre, e.sendsToken = false)
      (htoken : PairingCrypto.toBase64 s.tokenBytes = s.tokenBase64) :
      TokenSends (pre ++
        [ .registered s, .sendTo sessionId (.fileReady s.transferId port s.tokenBase64) ])

theorem ReadyInv.sends {h es : List (TransferEvent κ)} (hI : ReadyInv h)
    (hes : TokenSends es) : ReadyInv (h ++ es) := by
  cases hes with
  | none hes => exact hI.append hes
  | @ready pre s sessionId port hpre htoken =>
      have hI : ReadyInv (h ++ pre ++ [.registered s]) :=
        (hI.append hpre).append (by simp [TransferEvent.sendsToken])
      have hentry : entryOf (h ++ pre ++ [.registered s]) s.transferId = some s := by
        rw [entryOf_snoc, afterTableEvent, Function.update_self]
      rw [show h ++ (pre ++ [.registered s,
          .sendTo sessionId (.fileReady s.transferId port s.tokenBase64)]) =
        h ++ pre ++ [.registered s] ++
          [.sendTo sessionId (.fileReady s.transferId port s.tokenBase64)] by simp]
      intro id token hready
      rw [readyOf_snoc] at hready
      rw [entryOf_snoc]
      by_cases hid : id = s.transferId
      · subst hid
        rw [afterReady, Function.update_self, Option.some.injEq] at hready
        exact ⟨s, hentry, hready, htoken.trans hready⟩
      · rw [afterReady, Function.update_of_ne hid] at hready
        exact hI id token hready

section Steps

variable [DecidableEq κ] {P : Platform κ} {H : IncrementalHash}

omit [DecidableEq κ] in
theorem control_tokenSends {m m' : FileTransferManager} {fs : FileStore κ} {a : Control}
    {es : List (TransferEvent κ)} (h : control P H m fs a = some (m', es)) :
    TokenSends es := by
  cases control_cases P H h with
  | start | stop | stopLock | setCurrentSession | sendFiles | skip | ignored =>
      exact .none (by simp)
  | @offer sessionId payload token offer =>
      exact @TokenSends.ready κ
        [.sendTo sessionId (.fileAccept offer.transferId), .offered _ _] _ _ _
        (by simp [TransferEvent.sendsToken]) rfl
  | accept => exact @TokenSends.ready κ [] _ _ _ (by simp) rfl
  | cancel =>
      rw [FileTransferManager.cancel_events]
      exact .none (by simp)
  | complete => exact .none (by simp [TransferEvent.sendsToken])
  | send _ _ _ hr =>
      rw [hr]
      exact .none (by simp [TransferEvent.sendsToken, FileTransferManager.register])

omit [DecidableEq κ] in
theorem cleanNext_tokenSends (m : FileTransferManager) :
    ∀ e ∈ (m.cleanNext (κ := κ)).2, e.sendsToken = false := by
  unfold FileTransferManager.cleanNext
  split <;> simp [FileTransferManager.finishCancel, TransferEvent.sendsToken]

theorem effect_tokenSends (w : World κ H) (c : Nat) (s : ActiveTransferSession)
    (e : Effect κ) : ∀ x ∈ (w.effect c s e).2, x.sendsToken = false := by
  cases e <;> simp [World.effect, World.perform, TransferEvent.sendsToken]

omit [DecidableEq κ] in
theorem onFinished_tokenSends {m m' : FileTransferManager} {c : Nat} {cb : FinishedCallback}
    {es : List (TransferEvent κ)} (h : m.onFinished c cb = (m', es)) :
    ∀ x ∈ es, x.sendsToken = false := by
  unfold FileTransferManager.onFinished at h
  split at h <;> cases h
  · simp
  · split <;> simp [TransferEvent.sendsToken]
  · simp [TransferEvent.sendsToken]
  · simp [TransferEvent.sendsToken]

theorem step_tokenSends {w w' : World κ H} {a : TransferAction κ}
    {es : List (TransferEvent κ)} (hs : transferStep P H w a = some (w', es)) :
    TokenSends es := by
  have hm := managerStep_cases hs
  cases hm with
  | call hcall => exact control_tokenSends hcall
  | next _ hremoved =>
      refine .none fun e he => ?_
      rcases List.mem_append.mp he with he | he
      · obtain ⟨s, op, hit, made, rfl⟩ := hremoved e he
        rfl
      · exact cleanNext_tokenSends _ e he
  | effect =>
      refine .none fun x hx => ?_
      rcases List.mem_cons.mp hx with rfl | hx
      · rfl
      · exact effect_tokenSends _ _ _ _ x hx
  | callback _ hstep => exact .none (onFinished_tokenSends hstep)
  | same _ hes =>
      refine .none fun e he => ?_
      obtain ⟨k, rfl⟩ := hes e he
      rfl

/-- **Run.**  In every run the token sent last is the registered one. -/
theorem readyInv_reach {ok : Machine.StepCond (World κ H) (TransferAction κ) (TransferEvent κ)}
    {w : World κ H} {h : List (TransferEvent κ)}
    (hr : (transferMachine P H).Reach ok w h) : ReadyInv h := by
  refine Machine.Reach.invariant (fun _ h => ReadyInv h) ?_ ?_ hr
  · intro w _ id token hready
    cases hready
  · intro w h a w' es hI _ hs
    exact hI.sends (step_tokenSends hs)

end Steps

/-! ## Spellings of an identifier -/

/-- The text with its letters in lower case. -/
def lower (id : String) : String := String.ofList (id.toList.map Char.toLower)

/-- The text is a spelling of the UUID: with the dashes of the canonical form
or without any, and with digits of either case. -/
def SpellsUuid (id : String) (uuid : Bytes) : Prop :=
  lower id = formatUuid uuid ∨ lower id = toHex uuid

instance (id : String) (uuid : Bytes) : Decidable (SpellsUuid id uuid) :=
  inferInstanceAs (Decidable (_ ∨ _))

/-- An identifier that agrees with the bytes up to dashes is in lower case. -/
theorem lower_of_noDash {id : String} {uuid : Bytes} (h : noDash id = toHex uuid) :
    lower id = id := by
  have hchar : ∀ c ∈ id.toList, c.toLower = c := by
    intro c hc
    by_cases hdash : c = '-'
    · subst hdash
      rfl
    · have hmem : c ∈ (noDash id).toList := by simp [noDash, hc, hdash]
      rw [h, toList_toHex] at hmem
      exact toLower_of_mem_hexChars hmem
  rw [lower, List.map_congr_left hchar, List.map_id', String.ofList_toList]

/-! ## Clients -/

/-- The handshake of a client that was sent `token` for `id`: the bytes the
identifier stands for, the token decoded, and the direction of the registered
transfer. -/
structure Presents (h : List (TransferEvent κ)) (id token : String)
    (hs : FileTransferHandshake) : Prop where
  spells : SpellsUuid id hs.transferId.bytes
  token : PairingCrypto.fromBase64 token = .ok hs.token.bytes
  direction : ∀ s, entryOf h id = some s → hs.direction = s.direction.toByte

/-- The server can find the identifier by the bytes: it is the canonical text,
or the lower-case digits alone and no other registered identifier has the same
digits. -/
def Findable (sessions : SessionTable) (id : String) (uuid : Bytes) : Prop :=
  id = formatUuid uuid ∨
    id = toHex uuid ∧ ∀ id' ∈ sessions, noDash id' = toHex uuid → id' = id

/-- Connection `c` is let in for `s`: whichever entry its lookup meets first, it
is `s`; the check of the token passes, in any state; and the body takes the
direction of `s`. -/
structure LetIn [DecidableEq κ] (P : Platform κ) {H : IncrementalHash} (w : World κ H)
    (c : Nat) (hs : FileTransferHandshake) (s : ActiveTransferSession) : Prop where
  enabled : ∃ inp w' es, transferStep P H w (.conn c inp) = some (w', es)
  resolved : ∀ inp w' es, transferStep P H w (.conn c inp) = some (w', es) →
    w'.conns[c]? = some (.validate hs s)
  validated : ∀ srv fs, (Connection.validate hs s : Connection H).step P H srv fs .go =
    some (.serving hs s (.dispatch hs.direction), some (s, .authenticated hs))
  direction : (Pc.dispatch hs.direction : Pc H).mode = some s.direction

section Lookup

variable [DecidableEq κ] {P : Platform κ} {H : IncrementalHash} {w w' : World κ H}
  {c : Nat} {hs : FileTransferHandshake} {inp : Input}

/-- A lookup that finds an entry goes on with it. -/
theorem lookup_found {s : ActiveTransferSession} (hc : w.conns[c]? = some (.lookup hs))
    (hidle : w.manager.server.cleaning = .idle)
    (hfind : findSession w.manager.server.sessions hs.candidate inp = some (some s)) :
    transferStep P H w (.conn c inp) =
      some ({ w with conns := w.conns.set c (.validate hs s) },
        [.connection c s (.found hs)]) := by
  simp [transferStep, hc, Connection.step, hidle, hfind, World.effect]

/-- What a step of a connection at its lookup finds. -/
theorem lookup_step {es : List (TransferEvent κ)} (hc : w.conns[c]? = some (.lookup hs))
    (hs' : transferStep P H w (.conn c inp) = some (w', es)) :
    ∃ found, findSession w.manager.server.sessions hs.candidate inp = some found ∧
      w'.conns[c]? = some (match found with
        | some s => .validate hs s
        | none => .closed) := by
  have hlt : c < w.conns.length := (List.getElem?_eq_some_iff.mp hc).1
  simp only [transferStep, hc, Connection.step] at hs'
  by_cases hidle : w.manager.server.cleaning = .idle
  · cases hfind : findSession w.manager.server.sessions hs.candidate inp with
    | none => simp [hidle, hfind] at hs'
    | some found =>
        cases found with
        | none =>
            simp only [hidle, hfind, if_true, Option.some.injEq, Prod.mk.injEq] at hs'
            obtain ⟨rfl, -⟩ := hs'
            exact ⟨none, rfl, by simp [hlt]⟩
        | some s =>
            simp only [hidle, hfind, if_true, Option.some.injEq, Prod.mk.injEq] at hs'
            obtain ⟨rfl, -⟩ := hs'
            exact ⟨some s, rfl, by simp [World.effect, hlt]⟩
  · simp [hidle] at hs'

/-- The entry of a findable identifier is found, and no other. -/
theorem findSession_of_findable {sessions : SessionTable} {id : String}
    {s : ActiveTransferSession} (hl : sessions.lookup id = some s)
    (hspells : noDash id = toHex hs.transferId.bytes)
    (hfindable : Findable sessions id hs.transferId.bytes) :
    (∃ inp, findSession sessions hs.candidate inp = some (some s)) ∧
      ∀ inp found, findSession sessions hs.candidate inp = some found → found = some s := by
  have hcandidate : noDash hs.candidate = toHex hs.transferId.bytes := noDash_formatUuid _
  have hmem : id ∈ sessions := AList.lookup_isSome.mp (by simp [hl])
  by_cases hid : id = hs.candidate
  · subst hid
    refine ⟨⟨.go, by simp [findSession, hl]⟩, ?_⟩
    intro inp found hfind
    simp only [findSession, hl] at hfind
    split at hfind <;> cases hfind
    rfl
  · -- the plain digits: the canonical text is not registered
    obtain ⟨rfl, hunique⟩ : id = toHex hs.transferId.bytes ∧ _ :=
      hfindable.resolve_left hid
    have hnone : sessions.lookup hs.candidate = none := by
      by_contra hsome
      have hmem' : hs.candidate ∈ sessions :=
        AList.lookup_isSome.mp (Option.isSome_iff_ne_none.mpr hsome)
      exact hid (hunique _ hmem' hcandidate).symm
    refine ⟨⟨.pick (toHex hs.transferId.bytes), by
      simp [findSession, hnone, hspells, hcandidate, hl]⟩, ?_⟩
    intro inp found hfind
    simp only [findSession, hnone] at hfind
    split at hfind
    · split at hfind
      · cases hfind
      · rename_i hany
        simp only [List.any_eq_true, not_exists, not_and, decide_eq_true_eq] at hany
        exact absurd (hspells.trans hcandidate.symm) (hany _ hmem)
    · rename_i id'
      split at hfind
      · rename_i hdash
        cases hl' : sessions.lookup id' with
        | none => simp [hl'] at hfind
        | some s' =>
            have hmem' : id' ∈ sessions := AList.lookup_isSome.mp (by simp [hl'])
            obtain rfl := hunique id' hmem' (hdash.trans hcandidate)
            rw [hl] at hl'
            cases hl'
            simpa [hl] using hfind.symm
      · cases hfind
    · cases hfind

/-- If only the entry of `id` is ever found, `id` is findable. -/
theorem findable_of_found {sessions : SessionTable} {id : String}
    (hkey : ∀ id s, sessions.lookup id = some s → s.transferId = id)
    (hspells : SpellsUuid id hs.transferId.bytes)
    {s : ActiveTransferSession} (hl : sessions.lookup id = some s)
    (hfound : ∃ inp, findSession sessions hs.candidate inp = some (some s))
    (honly : ∀ inp s', findSession sessions hs.candidate inp = some (some s') → s' = s) :
    Findable sessions id hs.transferId.bytes := by
  have hcandidate : noDash hs.candidate = toHex hs.transferId.bytes := noDash_formatUuid _
  obtain ⟨inp, hfind⟩ := hfound
  obtain ⟨id', hl', hdash⟩ := findSession_some hfind
  obtain rfl : id' = id := (hkey id' s hl').symm.trans (hkey id s hl)
  have hlower : lower id' = id' := lower_of_noDash (hdash.trans hcandidate)
  rw [SpellsUuid, hlower] at hspells
  by_cases hid' : id' = hs.candidate
  · exact Or.inl hid'
  refine Or.inr ⟨hspells.resolve_left hid', ?_⟩
  intro id hmem hid
  cases hcanonical : sessions.lookup hs.candidate with
  | some s' =>
      -- the canonical text would be found
      obtain rfl := honly .go s' (by simp [findSession, hcanonical])
      exact absurd ((hkey id' _ hl').symm.trans (hkey _ _ hcanonical)) hid'
  | none =>
      obtain ⟨s', hs'⟩ := Option.isSome_iff_exists.mp (AList.lookup_isSome.mpr hmem)
      obtain rfl := honly (.pick id) s' (by
        simp [findSession, hcanonical, hid, hcandidate, hs'])
      exact (hkey id _ hs').symm.trans (hkey id' _ hl')

end Lookup

/-! ## Who is let in -/

section Steps

variable [DecidableEq κ] {P : Platform κ} {H : IncrementalHash}

theorem dispatch_mode (dir : TransferDirection) :
    (Pc.dispatch dir.toByte : Pc H).mode = some dir := by
  cases dir <;> rfl

/-- **A client that follows the protocol is let in.**  In every run, if the
token sent last for `id` still stands and a connection presents it with the
bytes of `id` and the direction of the transfer, then `id` is registered with
that token, and a lookup lets the connection in for this registration if and
only if `id` is findable. -/
theorem client_let_in_iff {w : World κ H} {h : List (TransferEvent κ)}
    (hr : (transferMachine P H).Reach Machine.anyStep w h) {id token : String}
    (hready : readyOf h id = some token) {c : Nat} {hs : FileTransferHandshake}
    (hc : w.conns[c]? = some (.lookup hs)) (hidle : w.manager.server.cleaning = .idle)
    (hclient : Presents h id token hs) :
    ∃ s, entryOf h id = some s ∧ s.tokenBase64 = token ∧
      (LetIn P w c hs s ↔ Findable w.manager.server.sessions id hs.transferId.bytes) := by
  have hT := tokenInv_reach hr
  obtain ⟨s, hentry, htoken, hcoded⟩ := readyInv_reach hr id token hready
  have hl : w.manager.server.sessions.lookup id = some s := (hT.entries id).trans hentry
  obtain ⟨hid, hlen⟩ := hT.key id s hl
  have hbytes : hs.token.bytes = s.tokenBytes := by
    have hdecoded := hclient.token
    rw [← hcoded, PairingCrypto.fromBase64_toBase64, Except.ok.injEq] at hdecoded
    exact hdecoded.symm
  have hvalid : tokenAccepted s hs.token = true := by simp [tokenAccepted, hbytes]
  refine ⟨s, hentry, htoken, ?_⟩
  constructor
  · intro hin
    refine findable_of_found (fun id s hl => (hT.key id s hl).1) hclient.spells hl ?_ ?_
    · obtain ⟨inp, w', es, hstep⟩ := hin.enabled
      obtain ⟨found, hfind, hconn⟩ := lookup_step hc hstep
      rw [hin.resolved inp w' es hstep] at hconn
      cases found with
      | some s' =>
          cases hconn
          exact ⟨inp, hfind⟩
      | none => cases hconn
    · intro inp s' hfind
      have hstep := lookup_found (P := P) (H := H) hc hidle hfind
      have hconn := hin.resolved inp _ _ hstep
      have hlt : c < w.conns.length := (List.getElem?_eq_some_iff.mp hc).1
      simp only [List.getElem?_set_self hlt, Option.some.injEq, Connection.validate.injEq,
        true_and] at hconn
      exact hconn
  · intro hfindable
    have hdash : noDash id = toHex hs.transferId.bytes := by
      rcases hfindable with rfl | ⟨rfl, -⟩
      · exact noDash_formatUuid _
      · exact noDash_toHex _
    obtain ⟨⟨inp, hfind⟩, honly⟩ := findSession_of_findable hl hdash hfindable
    refine
      { enabled := ⟨inp, _, _, lookup_found hc hidle hfind⟩
        resolved := ?_
        validated := ?_
        direction := ?_ }
    · intro inp w' es hstep
      obtain ⟨found, hfind, hconn⟩ := lookup_step hc hstep
      obtain rfl := honly inp found hfind
      exact hconn
    · intro srv fs
      simp [Connection.step, hvalid]
    · rw [hclient.direction s hentry]
      exact dispatch_mode s.direction

end Steps

/-! ## A client that is let in and one that is not -/

/-- Session 1 offers a file under the identifier `id`, and connection 0 presents
sixteen bytes `b`, the token it is sent and the direction of uploads. -/
def clientActions (id : String) (b : UInt8) : List (TransferAction String) :=
  [ .control (.start true)
  , .control (.handleFileOffer 1
      (FileOffer.to_json
        { transferId := id, name := "a", size := 0, mime := "", sha256 := "" })
      (sampleToken 7))
  , .accept
  , .conn 0 (.bytes ((sampleUuid b).bytes ++ (sampleToken 7).bytes ++ [0])) ]

/-- What connection 0 has presented by then. -/
def clientHandshake (b : UInt8) : FileTransferHandshake where
  transferId := sampleUuid b
  token := sampleToken 7
  direction := 0

/-- Connection 0 has presented this and is at its lookup, and the token sent
last for `id` still stands. -/
def clientAtLookup (id : String) (b : UInt8) (w : World String sha256)
    (h : List (TransferEvent String)) : Bool :=
  readyOf h id = some (FileTransferManager.generateToken (sampleToken 7)) &&
    w.manager.server.cleaning = .idle &&
    ((entryOf h id).all fun s : ActiveTransferSession => 0 = s.direction.toByte) &&
    match (w.conns[0]? : Option (Connection sha256)) with
    | some (.lookup hs) => hs = clientHandshake b
    | _ => false

theorem clientAtLookup_iff {id : String} {b : UInt8} {w : World String sha256}
    {h : List (TransferEvent String)} (hat : clientAtLookup id b w h = true)
    (hspells : SpellsUuid id (sampleUuid b).bytes) :
    readyOf h id = some (FileTransferManager.generateToken (sampleToken 7)) ∧
      w.manager.server.cleaning = .idle ∧
      w.conns[0]? = some (.lookup (clientHandshake b)) ∧
      Presents h id (FileTransferManager.generateToken (sampleToken 7))
        (clientHandshake b) := by
  simp only [clientAtLookup, Bool.and_eq_true, decide_eq_true_eq] at hat
  obtain ⟨⟨⟨hready, hidle⟩, hdir⟩, hconn⟩ := hat
  refine ⟨hready, hidle, ?_, ?_⟩
  · split at hconn
    · rename_i hs hc
      rw [hc, decide_eq_true_eq.mp hconn]
    · cases hconn
  · refine { spells := hspells, token := PairingCrypto.fromBase64_toBase64 _, direction := ?_ }
    intro s hs
    simpa [hs, clientHandshake] using hdir

/-- An identifier in its canonical form. -/
theorem client_let_in_sample :
    ∃ (w : World String sha256) (h : List (TransferEvent String)) (s : ActiveTransferSession),
      (transferMachine samplePlatform sha256).Reach Machine.anyStep w h ∧
      entryOf h (formatUuid (sampleUuid 1).bytes) = some s ∧
      LetIn samplePlatform w 0 (clientHandshake 1) s := by
  obtain ⟨w, h, hr, hat⟩ := Machine.exists_reach_of_exec
    (transferMachine samplePlatform sha256) Machine.anyStep (worldWith_init [])
    (clientActions (formatUuid (sampleUuid 1).bytes) 1)
    (clientAtLookup (formatUuid (sampleUuid 1).bytes) 1) (by decide +kernel)
  obtain ⟨hready, hidle, hc, hclient⟩ := clientAtLookup_iff hat (by decide +kernel)
  obtain ⟨s, hentry, -, hiff⟩ := client_let_in_iff hr hready hc hidle hclient
  exact ⟨w, h, s, hr, hentry, hiff.mpr (Or.inl rfl)⟩

/-- A UUID with its letters in upper case. -/
def upperId : String := "AAAAAAAA-AAAA-AAAA-AAAA-AAAAAAAAAAAA"

def Connection.isClosed {H : IncrementalHash} : Connection H → Bool
  | .closed => true
  | _ => false

/-- The offer names its UUID in upper case: the connection is closed. -/
theorem upper_case_not_found :
    ¬∀ (w : World String sha256) (h : List (TransferEvent String)) (id token : String)
      (c : Nat) (hs : FileTransferHandshake),
      (transferMachine samplePlatform sha256).Reach Machine.anyStep w h →
      readyOf h id = some token → w.conns[c]? = some (.lookup hs) →
      w.manager.server.cleaning = .idle → Presents h id token hs →
      ∃ s, entryOf h id = some s ∧ LetIn samplePlatform w c hs s := by
  intro hall
  obtain ⟨w, h, hr, hh⟩ := Machine.exists_reach_of_exec
    (transferMachine samplePlatform sha256) Machine.anyStep (worldWith_init [])
    (clientActions upperId 0xaa)
    (fun w h => clientAtLookup upperId 0xaa w h &&
      (transferStep samplePlatform sha256 w (.conn 0 .go)).any fun r =>
        r.1.conns[0]?.any Connection.isClosed)
    (by decide +kernel)
  simp only [Bool.and_eq_true, Option.any_eq_true] at hh
  obtain ⟨hat, ⟨w', es⟩, hstep, conn, hconn, hclosed⟩ := hh
  obtain ⟨hready, hidle, hc, hclient⟩ := clientAtLookup_iff hat (by decide +kernel)
  obtain ⟨s, -, hin⟩ := hall w h upperId _ 0 _ hr hready hc hidle hclient
  rw [hin.resolved .go w' es hstep] at hconn
  cases hconn
  cases hclosed

end Iriseus.Core
