import Iriseus.Core.MdnsService
import Iriseus.Verified.Machine
import Mathlib.Data.List.Forall2

/-!
# Discovery on a network of services

Any number of PCs announce themselves on one network, which may lose, repeat and delay
packets, and a phone collects what it hears.

The multicast DNS library and the phone are not part of the sources.  They are
parameters: `MdnsLibrary` makes a packet of the records it is given, and the phone is a
`Listener`; `MdnsLibrary.Lawful` and `Listener.Lawful` say what is relied on.  Which
entries a packet that arrives makes the library call `mdnsCallback` for is arbitrary,
and so is the memory that holds the classes.

## Main results

* `discovery` — what a phone finds, in every run.
-/

namespace Iriseus.Core

open Iriseus.Verified
open Iriseus.Verified.Machine
open Iriseus.Verified.ResourceRecords
open MdnsService

/-! ## The library and the network -/

/-- The packet that a call sends, unless its records do not fit the buffer, and the
records of a packet. -/
structure MdnsLibrary (ρ : Type) where
  wire : MdnsCall → Option ρ
  contents : ρ → List MdnsRecord

/-- The records of a packet, with their names as a phone compares them. -/
def MdnsLibrary.heard {ρ : Type} (lib : MdnsLibrary ρ) (p : ρ) : List MdnsRecord :=
  (lib.contents p).map (Record.map lowerCase)

/-- A record as it is sent: without a class it gets class IN, a pointer flushes no cache,
and a goodbye has no time to live. -/
structure SentAs (kind : SendKind) (given sent : MdnsRecord) : Prop where
  fact : sent.fact = given.fact
  inClass : given.rclass = 0 ∨ given.isIN = true → sent.isIN = true
  shared : ∀ inst, given.data = .ptr inst → sent.flushes = false
  ttl : kind ≠ .goodbye → given.ttl ≠ 0 → sent.ttl = given.ttl
  gone : kind = .goodbye → sent.ttl = 0

/-- A packet holds the records it was made of. -/
structure MdnsLibrary.Lawful {ρ : Type} (lib : MdnsLibrary ρ) : Prop where
  holds : ∀ {call p}, lib.wire call = some p →
    List.Forall₂ (SentAs call.kind) call.records (lib.contents p)

/-- The services of a network, the packets that they have sent with their senders and
calls, and what a phone knows. -/
structure MdnsNet (ρ σ : Type) where
  services : Nat → MdnsService
  air : List (Nat × MdnsCall × ρ) := []
  phone : σ

inductive MdnsAction where
  /-- `start`.  The thread of an earlier start has been joined: assigning to one that
  is joinable would end the program. -/
  | start (i : Nat)
  /-- The thread finds these addresses and opens the socket, or fails; `classes` is in
  the memory of its `additional`. -/
  | begin (i : Nat) (addresses : Option (List UInt32)) (sock : Bool) (classes : Classes)
  | test (i : Nat)
  /-- `select` returns, and the entries of a packet are handled, if one has arrived. -/
  | listen (i : Nat) (entries : List MdnsEntry)
  /-- `stop` clears `m_running`. -/
  | stop (i : Nat)
  /-- `stop` joins the thread. -/
  | join (i : Nat)
  /-- The phone hears the packet sent as number `k`. -/
  | hear (k : Nat)
  /-- The phone drops what is too old. -/
  | expire

inductive MdnsEvent (ρ : Type) where
  | up (i : Nat) (addresses : List UInt32) (ctx : ServiceContext)
  | called (i : Nat) (call : MdnsCall)
  | heard (i : Nat) (call : MdnsCall) (p : ρ)
  | expired
  deriving DecidableEq, Repr

section Step

variable {ρ σ : Type}

namespace MdnsNet

def setService (n : MdnsNet ρ σ) (i : Nat) (m : MdnsService) : MdnsNet ρ σ :=
  { n with services := Function.update n.services i m }

def multicast (n : MdnsNet ρ σ) (lib : MdnsLibrary ρ) (i : Nat) (calls : List MdnsCall) :
    MdnsNet ρ σ :=
  { n with air := n.air ++ calls.filterMap fun call => (lib.wire call).map fun p => (i, call, p) }

end MdnsNet

variable (lib : MdnsLibrary ρ) (phone : Listener ρ σ String UInt16 UInt32)

def mdnsStep (n : MdnsNet ρ σ) : MdnsAction → Option (MdnsNet ρ σ × List (MdnsEvent ρ))
  | .start i =>
      let m := n.services i
      if m.thread = none then
        some (n.setService i { m with running := true, thread := some .begin }, [])
      else none
  | .begin i addresses sock classes =>
      let m := n.services i
      let localIp := getLocalIp addresses
      let ctx := m.context localIp
      if m.thread = some .begin then
        if localIp = 0 ∨ sock = false then
          some (n.setService i { m with thread := some .returned }, [])
        else
          some ((n.setService i { m with thread := some (.test ctx classes) }).multicast lib i
            [announcement ctx classes],
            [.up i (addresses.getD []) ctx, .called i (announcement ctx classes)])
      else none
  | .test i =>
      let m := n.services i
      match m.thread with
      | some (.test ctx classes) =>
          if m.running then
            some (n.setService i { m with thread := some (.select ctx classes) }, [])
          else
            some ((n.setService i { m with thread := some .returned }).multicast lib i
              [goodbye ctx classes], [.called i (goodbye ctx classes)])
      | _ => none
  | .listen i entries =>
      let m := n.services i
      match m.thread with
      | some (.select ctx classes) =>
          let calls := entries.filterMap (mdnsCallback ctx)
          some ((n.setService i { m with thread := some (.test ctx classes) }).multicast lib i
            calls, calls.map (.called i))
      | _ => none
  | .stop i =>
      let m := n.services i
      if m.running then
        some (n.setService i { m with running := false, stopping := true }, [])
      else some (n, [])
  | .join i =>
      let m := n.services i
      if m.stopping ∧ m.thread = some .returned then
        some (n.setService i { m with stopping := false, thread := none }, [])
      else none
  | .hear k =>
      match n.air[k]? with
      | some (i, call, p) => some ({ n with phone := phone.hear n.phone p }, [.heard i call p])
      | none => none
  | .expire => some ({ n with phone := phone.expire n.phone }, [.expired])

/-- A network of PCs, which are set up with names that differ whatever the case of their
letters. -/
def mdnsMachine : Machine (MdnsNet ρ σ) MdnsAction (MdnsEvent ρ) where
  Init n := (∀ i, (n.services i).running = false ∧ (n.services i).stopping = false ∧
      (n.services i).thread = none) ∧
    (∀ i j, lowerCase (n.services i).deviceName = lowerCase (n.services j).deviceName →
      i = j) ∧
    n.air = [] ∧ n.phone = phone.fresh
  step := mdnsStep lib phone

end Step

/-! ## What a step can do -/

section Steps

variable {ρ σ : Type} {lib : MdnsLibrary ρ} {phone : Listener ρ σ String UInt16 UInt32}

/-- One step of the network. -/
inductive MdnsStep (lib : MdnsLibrary ρ) (phone : Listener ρ σ String UInt16 UInt32)
    (n : MdnsNet ρ σ) : MdnsNet ρ σ → List (MdnsEvent ρ) → Prop
  | rests : MdnsStep lib phone n n []
  | quiet {i : Nat} {running stopping : Bool} {thread : Option Phase}
      (hsame : serving thread = serving (n.services i).thread) :
      MdnsStep lib phone n (n.setService i
        { n.services i with running := running, stopping := stopping, thread := thread }) []
  | up {i : Nat} {addresses : List UInt32} {ctx : ServiceContext} {classes : Classes}
      (hctx : ctx = (n.services i).context ctx.localIp) (hip : ctx.localIp ≠ 0)
      (haddr : getLocalIp (some addresses) = ctx.localIp) :
      MdnsStep lib phone n ((n.setService i
        { n.services i with thread := some (.test ctx classes) }).multicast lib i
          [announcement ctx classes])
        [.up i addresses ctx, .called i (announcement ctx classes)]
  | answer {i : Nat} {ctx : ServiceContext} {classes : Classes} {entries : List MdnsEntry}
      (hserving : serving (n.services i).thread = some ctx) :
      MdnsStep lib phone n ((n.setService i
        { n.services i with thread := some (.test ctx classes) }).multicast lib i
          (entries.filterMap (mdnsCallback ctx)))
        ((entries.filterMap (mdnsCallback ctx)).map (.called i))
  | bye {i : Nat} {ctx : ServiceContext} {classes : Classes}
      (hserving : serving (n.services i).thread = some ctx) :
      MdnsStep lib phone n ((n.setService i
        { n.services i with thread := some .returned }).multicast lib i [goodbye ctx classes])
        [.called i (goodbye ctx classes)]
  | hear {i : Nat} {call : MdnsCall} {p : ρ} (hair : (i, call, p) ∈ n.air) :
      MdnsStep lib phone n { n with phone := phone.hear n.phone p } [.heard i call p]
  | expire : MdnsStep lib phone n { n with phone := phone.expire n.phone } [.expired]

theorem mdnsStep_cases {n n' : MdnsNet ρ σ} {a : MdnsAction} {es : List (MdnsEvent ρ)}
    (h : mdnsStep lib phone n a = some (n', es)) : MdnsStep lib phone n n' es := by
  cases a with
  | start i =>
      simp only [mdnsStep] at h
      split at h <;> cases h
      rename_i hnone
      exact .quiet (by rw [hnone]; rfl)
  | begin i addresses sock classes =>
      simp only [mdnsStep] at h
      split at h
      · rename_i hbegin
        split at h
        · cases h
          exact .quiet (by rw [hbegin]; rfl)
        · rename_i hup
          cases h
          cases addresses with
          | none => exact absurd (Or.inl rfl) hup
          | some addresses =>
              exact .up rfl (fun hzero => hup (Or.inl hzero)) rfl
      · cases h
  | test i =>
      simp only [mdnsStep] at h
      split at h
      · rename_i ctx classes hthread
        split at h <;> cases h
        · exact .quiet (by rw [hthread]; rfl)
        · exact .bye (by rw [hthread]; rfl)
      · cases h
  | listen i entries =>
      simp only [mdnsStep] at h
      split at h
      · rename_i ctx classes hthread
        cases h
        exact .answer (by rw [hthread]; rfl)
      · cases h
  | stop i =>
      simp only [mdnsStep] at h
      split at h <;> cases h
      · exact .quiet rfl
      · exact .rests
  | join i =>
      simp only [mdnsStep] at h
      split at h <;> cases h
      rename_i hdone
      exact .quiet (by rw [hdone.2]; rfl)
  | hear k =>
      simp only [mdnsStep] at h
      split at h <;> cases h
      rename_i hair
      exact .hear (List.mem_of_getElem? hair)
  | expire =>
      cases h
      exact .expire

/-! ## Every run -/

/-- What the phone hears of an event. -/
def MdnsEvent.hearing : MdnsEvent ρ → Option (Hearing ρ)
  | .heard _ _ p => some (.packet p)
  | .expired => some .expiry
  | _ => none

def hearingsOf (h : List (MdnsEvent ρ)) : List (Hearing ρ) :=
  h.filterMap MdnsEvent.hearing

/-- A call of service `i`. -/
def MdnsEvent.callBy (i : Nat) : MdnsEvent ρ → Option MdnsCall
  | .called j call => if j = i then some call else none
  | _ => none

/-- The calls of service `i`, in order. -/
def callsOf (i : Nat) (h : List (MdnsEvent ρ)) : List MdnsCall :=
  h.filterMap (MdnsEvent.callBy i)

@[simp] theorem hearingsOf_append (h es : List (MdnsEvent ρ)) :
    hearingsOf (h ++ es) = hearingsOf h ++ hearingsOf es :=
  List.filterMap_append

theorem hearingsOf_heard {i : Nat} {call : MdnsCall} {p : ρ} {h h₁ h₂ : List (MdnsEvent ρ)}
    (heq : h = h₁ ++ .heard i call p :: h₂) :
    hearingsOf h = hearingsOf h₁ ++ .packet p :: hearingsOf h₂ := by
  rw [heq, hearingsOf_append]
  rfl

@[simp] theorem callsOf_append (i : Nat) (h es : List (MdnsEvent ρ)) :
    callsOf i (h ++ es) = callsOf i h ++ callsOf i es :=
  List.filterMap_append

theorem heard_of_hearing {h : List (MdnsEvent ρ)} {p : ρ}
    (hp : .packet p ∈ hearingsOf h) : ∃ i call, .heard i call p ∈ h := by
  obtain ⟨e, he, hhearing⟩ := List.mem_filterMap.mp hp
  cases e with
  | heard i call p' =>
      cases hhearing
      exact ⟨i, call, he⟩
  | _ => cases hhearing

theorem expired_of_hearing {h : List (MdnsEvent ρ)} (hp : .expiry ∈ hearingsOf h) :
    .expired ∈ h := by
  obtain ⟨e, he, hhearing⟩ := List.mem_filterMap.mp hp
  cases e with
  | expired => exact he
  | _ => cases hhearing

/-- Service `i` has come up with this context. -/
def CameUp (h : List (MdnsEvent ρ)) (i : Nat) (ctx : ServiceContext) : Prop :=
  ∃ addresses, .up i addresses ctx ∈ h

/-- The packet holds a call that service `i` has made. -/
structure SentBy (lib : MdnsLibrary ρ) (h : List (MdnsEvent ρ)) (i : Nat) (call : MdnsCall)
    (p : ρ) : Prop where
  called : .called i call ∈ h
  wire : lib.wire call = some p

structure MdnsInv (lib : MdnsLibrary ρ) (phone : Listener ρ σ String UInt16 UInt32)
    (n : MdnsNet ρ σ) (h : List (MdnsEvent ρ)) : Prop where
  names : ∀ i j, lowerCase (n.services i).deviceName = lowerCase (n.services j).deviceName →
    i = j
  known : n.phone = phone.after (hearingsOf h)
  contexts : ∀ i addresses ctx, .up i addresses ctx ∈ h →
    ctx = (n.services i).context ctx.localIp ∧ LanAddress addresses ctx.localIp
  running : ∀ i ctx, serving (n.services i).thread = some ctx → CameUp h i ctx
  calls : ∀ i call, .called i call ∈ h → ∃ ctx, CameUp h i ctx ∧ Speaks ctx call
  air : ∀ i call p, (i, call, p) ∈ n.air → SentBy lib h i call p
  heard : ∀ i call p, .heard i call p ∈ h → SentBy lib h i call p
  /-- A service that answers no more has said goodbye last. -/
  farewell : ∀ i, serving (n.services i).thread = none →
    ∀ call, (callsOf i h).getLast? = some call → ∃ ctx classes, call = goodbye ctx classes

variable {n n' : MdnsNet ρ σ} {h es : List (MdnsEvent ρ)}

theorem CameUp.mono {i : Nat} {ctx : ServiceContext} (hup : CameUp h i ctx) :
    CameUp (h ++ es) i ctx :=
  hup.imp fun _ hmem => List.mem_append_left _ hmem

theorem SentBy.mono {i : Nat} {call : MdnsCall} {p : ρ} (hsent : SentBy lib h i call p) :
    SentBy lib (h ++ es) i call p :=
  ⟨List.mem_append_left _ hsent.called, hsent.wire⟩

/-- Service `i` moves: the events tell that it has come up and which calls it makes. -/
structure ServiceEvents (n : MdnsNet ρ σ) (i : Nat) (calls : List MdnsCall)
    (es : List (MdnsEvent ρ)) : Prop where
  events : ∀ e ∈ es, (∃ addresses ctx, e = .up i addresses ctx ∧
      ctx = (n.services i).context ctx.localIp ∧ LanAddress addresses ctx.localIp) ∨
    ∃ call, e = .called i call
  calls : ∀ j, callsOf j es = if j = i then calls else []

theorem callsOf_map (i j : Nat) (calls : List MdnsCall) :
    callsOf j (calls.map fun call => (.called i call : MdnsEvent ρ)) =
      if j = i then calls else [] := by
  by_cases hij : j = i
  · simp [callsOf, List.filterMap_map, MdnsEvent.callBy, Function.comp_def, hij]
  · simp [callsOf, List.filterMap_map, MdnsEvent.callBy, Function.comp_def, hij, Ne.symm hij]

theorem mem_callsOf {i : Nat} {call : MdnsCall} :
    call ∈ callsOf i h ↔ .called i call ∈ h := by
  rw [callsOf, List.mem_filterMap]
  constructor
  · rintro ⟨e, he, hcall⟩
    cases e with
    | called j call' =>
        simp only [MdnsEvent.callBy] at hcall
        split at hcall <;> cases hcall
        subst_vars
        exact he
    | _ => cases hcall
  · exact fun hmem => ⟨_, hmem, if_pos rfl⟩

theorem ServiceEvents.of_calls (n : MdnsNet ρ σ) (i : Nat) (calls : List MdnsCall) :
    ServiceEvents n i calls (calls.map fun call => (.called i call : MdnsEvent ρ)) where
  events := fun e he => by
    obtain ⟨call, -, rfl⟩ := List.mem_map.mp he
    exact Or.inr ⟨call, rfl⟩
  calls := fun j => callsOf_map i j calls

/-- One service moves and makes some calls. -/
theorem MdnsInv.service (hI : MdnsInv lib phone n h) {i : Nat} {m : MdnsService}
    {calls : List MdnsCall} (hes : ServiceEvents n i calls es)
    (hname : m.deviceName = (n.services i).deviceName)
    (hport : m.wsPort = (n.services i).wsPort)
    (hserving : ∀ ctx, serving m.thread = some ctx → CameUp (h ++ es) i ctx)
    (hspeaks : ∀ call ∈ calls, ∃ ctx, CameUp (h ++ es) i ctx ∧ Speaks ctx call)
    (hbye : serving m.thread = none → ∀ call,
      (callsOf i h ++ calls).getLast? = some call → ∃ ctx classes, call = goodbye ctx classes) :
    MdnsInv lib phone ((n.setService i m).multicast lib i calls) (h ++ es) := by
  have hcontext : ∀ j ip,
      (((n.setService i m).multicast lib i calls).services j).context ip =
        (n.services j).context ip ∧
      (((n.setService i m).multicast lib i calls).services j).deviceName =
        (n.services j).deviceName := by
    intro j ip
    by_cases hij : j = i
    · subst hij
      simp [MdnsNet.multicast, MdnsNet.setService, MdnsService.context, hname, hport]
    · simp [MdnsNet.multicast, MdnsNet.setService, hij]
  have hunheard : hearingsOf es = [] := List.filterMap_eq_nil_iff.mpr fun e he => by
    rcases hes.events e he with ⟨_, _, rfl, -⟩ | ⟨_, rfl⟩ <;> rfl
  have hcalled : ∀ j call, .called j call ∈ es → j = i ∧ call ∈ calls := by
    intro j call hmem
    have hin := mem_callsOf.mpr hmem
    rw [hes.calls] at hin
    split at hin
    · exact ⟨‹_›, hin⟩
    · cases hin
  refine
    { names := fun j k hjk => hI.names j k ?_
      known := ?_
      contexts := fun j addresses ctx hmem => ?_
      running := fun j ctx hj => ?_
      calls := fun j call hmem => ?_
      air := fun j call p hmem => ?_
      heard := fun j call p hmem => ?_
      farewell := fun j hj call hlast => ?_ }
  · rwa [(hcontext j 0).2, (hcontext k 0).2] at hjk
  · rw [hearingsOf_append, hunheard, List.append_nil]
    exact hI.known
  · rw [(hcontext j _).1]
    rcases List.mem_append.mp hmem with hmem | hmem
    · exact hI.contexts j addresses ctx hmem
    · rcases hes.events _ hmem with ⟨_, _, heq, hctx, haddr⟩ | ⟨_, heq⟩ <;> cases heq
      exact ⟨hctx, haddr⟩
  · by_cases hij : j = i
    · subst hij
      exact hserving ctx (by simpa [MdnsNet.multicast, MdnsNet.setService] using hj)
    · exact (hI.running j ctx (by simpa [MdnsNet.multicast, MdnsNet.setService, hij] using hj)).mono
  · rcases List.mem_append.mp hmem with hmem | hmem
    · exact (hI.calls j call hmem).imp fun _ ⟨hcame, hspeaks⟩ => ⟨hcame.mono, hspeaks⟩
    · obtain ⟨rfl, hin⟩ := hcalled j call hmem
      exact hspeaks call hin
  · rcases List.mem_append.mp hmem with hmem | hmem
    · exact (hI.air j call p hmem).mono
    · obtain ⟨call', hin, hsent⟩ := List.mem_filterMap.mp hmem
      obtain ⟨p', hwire, heq⟩ := Option.map_eq_some_iff.mp hsent
      cases heq
      refine ⟨List.mem_append_right _ (mem_callsOf.mp ?_), hwire⟩
      rw [hes.calls, if_pos rfl]
      exact hin
  · rcases List.mem_append.mp hmem with hmem | hmem
    · exact (hI.heard j call p hmem).mono
    · rcases hes.events _ hmem with ⟨_, _, heq, -⟩ | ⟨_, heq⟩ <;> cases heq
  · rw [callsOf_append, hes.calls] at hlast
    by_cases hij : j = i
    · subst hij
      rw [if_pos rfl] at hlast
      exact hbye (by simpa [MdnsNet.multicast, MdnsNet.setService] using hj) call hlast
    · rw [if_neg hij, List.append_nil] at hlast
      exact hI.farewell j (by simpa [MdnsNet.multicast, MdnsNet.setService, hij] using hj)
        call hlast

/-- The phone hears a packet, or drops what is too old. -/
theorem MdnsInv.receives (hI : MdnsInv lib phone n h) {e : MdnsEvent ρ} {x : Hearing ρ}
    (he : e.hearing = some x)
    (hheard : ∀ i call p, e = .heard i call p → SentBy lib h i call p) :
    MdnsInv lib phone { n with phone := phone.receive n.phone x } (h ++ [e]) := by
  have hup : ∀ i addresses ctx, e ≠ .up i addresses ctx := by
    rintro i addresses ctx rfl
    cases he
  have hcall : ∀ i call, e ≠ .called i call := by
    rintro i call rfl
    cases he
  refine
    { names := hI.names
      known := ?_
      contexts := fun i addresses ctx hmem => ?_
      running := fun i ctx hserving => (hI.running i ctx hserving).mono
      calls := fun i call hmem => ?_
      air := fun i call p hmem => (hI.air i call p hmem).mono
      heard := fun i call p hmem => ?_
      farewell := fun i hnone call hlast => hI.farewell i hnone call ?_ }
  · have hone : hearingsOf [e] = [x] := by simp [hearingsOf, he]
    rw [hearingsOf_append, hone, Listener.after_append, ← hI.known]
    rfl
  · rcases List.mem_append.mp hmem with hmem | hmem
    · exact hI.contexts i addresses ctx hmem
    · exact absurd (List.mem_singleton.mp hmem).symm (hup i addresses ctx)
  · rcases List.mem_append.mp hmem with hmem | hmem
    · exact (hI.calls i call hmem).imp fun _ ⟨hcame, hspeaks⟩ => ⟨hcame.mono, hspeaks⟩
    · exact absurd (List.mem_singleton.mp hmem).symm (hcall i call)
  · rcases List.mem_append.mp hmem with hmem | hmem
    · exact (hI.heard i call p hmem).mono
    · exact (hheard i call p (List.mem_singleton.mp hmem).symm).mono
  · have hnone : callsOf i [e] = [] := by
      cases e with
      | called j call' => exact absurd rfl (hcall j call')
      | _ => rfl
    rwa [callsOf_append, hnone, List.append_nil] at hlast

/-- **One step.** -/
theorem mdnsInv_step (hI : MdnsInv lib phone n h) (hs : MdnsStep lib phone n n' es) :
    MdnsInv lib phone n' (h ++ es) := by
  cases hs with
  | rests => rwa [List.append_nil]
  | @quiet i running stopping thread hsame =>
      have hmoved := hI.service (ServiceEvents.of_calls n i [])
        (m := { n.services i with running := running, stopping := stopping, thread := thread })
        rfl rfl (fun ctx hctx => (hI.running i ctx (hsame ▸ hctx)).mono) (by simp)
        (fun hnone call hlast => hI.farewell i (hsame ▸ hnone) call
          (by rwa [List.append_nil] at hlast))
      simpa [MdnsNet.multicast] using hmoved
  | @up i addresses ctx classes hctx hip haddr =>
      have hcame : CameUp (h ++ [.up i addresses ctx, .called i (announcement ctx classes)])
          i ctx := ⟨addresses, List.mem_append_right _ List.mem_cons_self⟩
      have hes : ServiceEvents n i [announcement ctx classes]
          [.up i addresses ctx, .called i (announcement ctx classes)] := by
        refine ⟨fun e he => ?_, fun j => ?_⟩
        · rcases List.mem_cons.mp he with rfl | he
          · exact Or.inl ⟨addresses, ctx, rfl, hctx, getLocalIp_spec hip haddr⟩
          · exact Or.inr ⟨_, List.mem_singleton.mp he⟩
        · exact callsOf_map i j [announcement ctx classes]
      refine hI.service hes rfl rfl (fun ctx' hserving => ?_) (fun call hcall => ?_)
        (fun hnone => by cases hnone)
      · cases hserving
        exact hcame
      · rw [List.mem_singleton.mp hcall]
        exact ⟨ctx, hcame, speaks_announcement ctx classes⟩
  | @answer i ctx classes entries hserving =>
      refine hI.service (ServiceEvents.of_calls n i _) rfl rfl (fun ctx' hserving' => ?_)
        (fun call hcall => ?_) (fun hnone => by cases hnone)
      · cases hserving'
        exact (hI.running i ctx hserving).mono
      · obtain ⟨e, -, hanswer⟩ := List.mem_filterMap.mp hcall
        exact ⟨ctx, (hI.running i ctx hserving).mono, speaks_mdnsCallback hanswer⟩
  | @bye i ctx classes hserving =>
      refine hI.service (ServiceEvents.of_calls n i [goodbye ctx classes]) rfl rfl
        (fun ctx' hserving' => by cases hserving') (fun call hcall => ?_)
        (fun _ call hlast => ?_)
      · rw [List.mem_singleton.mp hcall]
        exact ⟨ctx, (hI.running i ctx hserving).mono, speaks_goodbye ctx classes⟩
      · rw [List.getLast?_concat] at hlast
        cases hlast
        exact ⟨ctx, classes, rfl⟩
  | @hear i call p hair =>
      refine hI.receives (e := .heard i call p) rfl fun j call' p' heq => ?_
      cases heq
      exact hI.air i call p hair
  | expire => exact hI.receives (e := .expired) rfl (by simp)

theorem mdnsInv_reach {ok : StepCond (MdnsNet ρ σ) MdnsAction (MdnsEvent ρ)}
    (hr : (mdnsMachine lib phone).Reach ok n h) : MdnsInv lib phone n h := by
  refine hr.invariant (fun n h => MdnsInv lib phone n h) ?_ ?_
  · rintro n ⟨hidle, hnames, hair, hfresh⟩
    refine ⟨hnames, hfresh, by simp, fun i ctx hserving => ?_, by simp, by simp [hair],
      by simp, fun i _ call hlast => by simp [callsOf] at hlast⟩
    rw [(hidle i).2.2] at hserving
    cases hserving
  · intro n h a n' es hI _ hstep
    exact mdnsInv_step hI (mdnsStep_cases hstep)

/-! ## Whose records they are -/

theorem MdnsInv.same_inst (hI : MdnsInv lib phone n h) {i j : Nat} {ctx ctx' : ServiceContext}
    (hi : CameUp h i ctx) (hj : CameUp h j ctx')
    (heq : ctx.lower.serviceInst = ctx'.lower.serviceInst) : i = j := by
  obtain ⟨_, hi⟩ := hi
  obtain ⟨_, hj⟩ := hj
  rw [(hI.contexts i _ ctx hi).1, (hI.contexts j _ ctx' hj).1] at heq
  simp only [ServiceContext.lower, context, lowerCase_append] at heq
  exact hI.names i j ((String.append_left_inj _).mp ((String.append_left_inj _).mp heq))

theorem MdnsInv.same_host (hI : MdnsInv lib phone n h) {i j : Nat} {ctx ctx' : ServiceContext}
    (hi : CameUp h i ctx) (hj : CameUp h j ctx')
    (heq : ctx.lower.hostname = ctx'.lower.hostname) : i = j := by
  obtain ⟨_, hi⟩ := hi
  obtain ⟨_, hj⟩ := hj
  rw [(hI.contexts i _ ctx hi).1, (hI.contexts j _ ctx' hj).1] at heq
  simp only [ServiceContext.lower, context, lowerCase_append] at heq
  exact hI.names i j ((String.append_left_inj _).mp heq)

/-- No two services state the same fact, or two of which one replaces the other. -/
theorem MdnsInv.owner (hI : MdnsInv lib phone n h) {i j : Nat} {ctx ctx' : ServiceContext}
    (hi : CameUp h i ctx) (hj : CameUp h j ctx') {fact fact' : MdnsFact}
    (hfact : fact ∈ ctx.lower.facts) (hfact' : fact' ∈ ctx'.lower.facts)
    (hsame : fact = fact' ∨ fact.1 = fact'.1 ∧ fact.2.rivals false fact'.2) : i = j := by
  simp only [ServiceContext.facts, List.mem_cons, List.not_mem_nil, or_false] at hfact hfact'
  rcases hfact with rfl | rfl | rfl | rfl <;> rcases hfact' with rfl | rfl | rfl | rfl <;>
    simp only [ServiceContext.ptr, ServiceContext.srv, ServiceContext.txt, ServiceContext.a,
      Prod.mk.injEq, Data.ptr.injEq, Data.srv.injEq, Data.a.injEq, reduceCtorEq, and_false,
      Data.rivals, Bool.false_eq_true, false_and, or_false, true_and] at hsame
  · exact hI.same_inst hi hj hsame
  · exact hI.same_inst hi hj (hsame.elim And.left And.left)
  · exact hI.same_inst hi hj (hsame.elim And.left And.left)
  · exact hI.same_host hi hj (hsame.elim And.left And.left)

theorem SentAs.data {kind : SendKind} {given sent : MdnsRecord}
    (has : SentAs kind given sent) : sent.data = given.data :=
  congrArg Prod.snd has.fact

theorem SentAs.flushes {kind : SendKind} {given sent : MdnsRecord}
    (has : SentAs kind given sent) (inst : String) (hinst : sent.data = .ptr inst) :
    sent.flushes = false :=
  has.shared inst (has.data ▸ hinst)

/-- The names of a record do not matter for how it is sent. -/
theorem SentAs.map {kind : SendKind} {given sent : MdnsRecord} (f : String → String)
    (has : SentAs kind given sent) : SentAs kind (given.map f) (sent.map f) where
  fact := congrArg (Fact.map f) has.fact
  inClass := has.inClass
  shared := by
    intro inst hinst
    cases hgiven : given.data with
    | ptr inst' => exact has.shared inst' hgiven
    | _ =>
        rw [Record.map, hgiven] at hinst
        cases hinst
  ttl := has.ttl
  gone := has.gone

/-- A record that is heard is one of the call's. -/
theorem SentBy.given (hlib : lib.Lawful) {i : Nat} {call : MdnsCall} {p : ρ}
    (hsent : SentBy lib h i call p) {r : MdnsRecord} (hr : r ∈ lib.heard p) :
    ∃ given ∈ call.records, SentAs call.kind (given.map lowerCase) r := by
  have hall := hlib.holds hsent.wire
  obtain ⟨sent, hmem, rfl⟩ := List.mem_map.mp hr
  obtain ⟨k, hk, rfl⟩ := List.mem_iff_getElem.mp hmem
  have hk' : k < call.records.length := hall.length_eq ▸ hk
  exact ⟨call.records[k], List.getElem_mem hk', (hall.get hk' hk).map lowerCase⟩

/-- A record of the call is heard. -/
theorem SentBy.sent (hlib : lib.Lawful) {i : Nat} {call : MdnsCall} {p : ρ}
    (hsent : SentBy lib h i call p) {given : MdnsRecord} (hgiven : given ∈ call.records) :
    ∃ r ∈ lib.heard p, SentAs call.kind (given.map lowerCase) r := by
  have hall := hlib.holds hsent.wire
  obtain ⟨k, hk, rfl⟩ := List.mem_iff_getElem.mp hgiven
  have hk' : k < (lib.contents p).length := hall.length_eq ▸ hk
  exact ⟨_, List.mem_map_of_mem (List.getElem_mem hk'), (hall.get hk hk').map lowerCase⟩

/-- The records of a packet are facts of the service that has sent it. -/
theorem MdnsInv.spoken (hI : MdnsInv lib phone n h) (hlib : lib.Lawful) {i : Nat}
    {call : MdnsCall} {p : ρ} (hheard : .heard i call p ∈ h) :
    ∃ ctx, CameUp h i ctx ∧ Speaks ctx call ∧ ∀ r ∈ lib.heard p, r.fact ∈ ctx.lower.facts := by
  have hsent := hI.heard i call p hheard
  obtain ⟨ctx, hcame, hspeaks⟩ := hI.calls i call hsent.called
  refine ⟨ctx, hcame, hspeaks, fun r hr => ?_⟩
  obtain ⟨given, hgiven, has⟩ := hsent.given hlib hr
  rw [has.fact, Record.map_fact]
  exact ServiceContext.lower_mem_facts (hspeaks.facts given hgiven)

/-- What the phone knows has been stated by a service that has come up. -/
theorem MdnsInv.known_fact (hI : MdnsInv lib phone n h) (hlib : lib.Lawful)
    (hphone : phone.Lawful lib.heard) {fact : MdnsFact}
    (hknown : phone.knows n.phone fact) : ∃ i ctx, CameUp h i ctx ∧ fact ∈ ctx.lower.facts := by
  rw [hI.known] at hknown
  obtain ⟨p, hp, r, hr, hstates⟩ := hphone.known_stated hknown
  obtain ⟨i, call, hheard⟩ := heard_of_hearing hp
  obtain ⟨ctx, hcame, -, hfacts⟩ := hI.spoken hlib hheard
  exact ⟨i, ctx, hcame, hstates.fact ▸ hfacts r hr⟩

end Steps

/-! ## Discovery -/

section Discovery

variable {ρ σ : Type} {lib : MdnsLibrary ρ} {phone : Listener ρ σ String UInt16 UInt32}
variable {n : MdnsNet ρ σ} {h : List (MdnsEvent ρ)}

/-- The memory held zero, or class IN. -/
def ClassFits (rclass : UInt16) : Prop := rclass = 0 ∨ (rclass &&& 0x7FFF == 1) = true

/-- What a phone has found.  It tells names apart as `lowerCase` does. -/
structure Discovery (phone : Listener ρ σ String UInt16 UInt32) (n : MdnsNet ρ σ)
    (h : List (MdnsEvent ρ)) : Prop where
  /-- It finds services that have come up, by their own names, with the ports of their
  PCs and addresses that these have had. -/
  sound : ∀ e, phone.resolves n.phone kServiceType e → ∃ i addresses,
    .up i addresses ((n.services i).context e.addr) ∈ h ∧
      e.inst = lowerCase ((n.services i).context e.addr).serviceInst ∧
      e.port = (n.services i).wsPort ∧ LanAddress addresses e.addr
  /-- It has found a service whose announcement it has heard with fitting classes, if
  it has heard of it nothing else since. -/
  found : ∀ i ctx classes p h₁ h₂, h = h₁ ++ .heard i (announcement ctx classes) p :: h₂ →
    ClassFits classes.srv → ClassFits classes.a → .expired ∉ h₂ →
    (∀ call p', .heard i call p' ∈ h₂ →
      call.kind ≠ .goodbye ∧ ∀ r ∈ call.records, r.fact ∈ ctx.facts) →
    phone.resolves n.phone kServiceType ⟨lowerCase ctx.serviceInst, ctx.localIp, ctx.port⟩
  /-- It does not find a service whose goodbye is the last that it has heard of it,
  whatever the classes. -/
  gone : ∀ i ctx classes p h₁ h₂, h = h₁ ++ .heard i (goodbye ctx classes) p :: h₂ →
    (∀ call p', .heard i call p' ∉ h₂) →
    ∀ e, phone.resolves n.phone kServiceType e → e.inst ≠ lowerCase ctx.serviceInst
  /-- The last call of a service that answers no more is a goodbye. -/
  farewell : ∀ i, serving (n.services i).thread = none →
    ∀ call, (callsOf i h).getLast? = some call → ∃ ctx classes, call = goodbye ctx classes

theorem MdnsInv.sound (hI : MdnsInv lib phone n h) (hlib : lib.Lawful)
    (hphone : phone.Lawful lib.heard) {e : Endpoint String UInt16 UInt32}
    (he : phone.resolves n.phone kServiceType e) : ∃ i addresses,
      .up i addresses ((n.services i).context e.addr) ∈ h ∧
        e.inst = lowerCase ((n.services i).context e.addr).serviceInst ∧
        e.port = (n.services i).wsPort ∧ LanAddress addresses e.addr := by
  obtain ⟨-, priority, weight, host, hsrv, ha⟩ := hphone.resolves.mp he
  obtain ⟨i, ctx, hcame, hsrv⟩ := hI.known_fact hlib hphone hsrv
  obtain ⟨j, ctx', hcame', ha⟩ := hI.known_fact hlib hphone ha
  obtain ⟨hinst, hhost, hport⟩ := ServiceContext.srv_mem hsrv
  obtain ⟨hhost', haddr⟩ := ServiceContext.a_mem ha
  obtain rfl : i = j := hI.same_host hcame hcame' (hhost.symm.trans hhost')
  obtain ⟨_, hup⟩ := hcame
  obtain ⟨addresses, hup'⟩ := hcame'
  have hctx := (hI.contexts i _ ctx hup).1
  obtain ⟨hctx', hlan⟩ := hI.contexts i _ ctx' hup'
  replace haddr : e.addr = ctx'.localIp := haddr
  rw [← haddr] at hctx' hlan
  refine ⟨i, addresses, hctx' ▸ hup', ?_, ?_, hlan⟩
  · rw [hinst, hctx]
    rfl
  · rw [hport, hctx]
    rfl

/-- Nothing that the phone hears speaks against a fact of a service, but what that
service says itself. -/
theorem MdnsInv.uncontradicted (hI : MdnsInv lib phone n h) (hlib : lib.Lawful) {i j : Nat}
    {ctx : ServiceContext} (hcame : CameUp h i ctx) {fact : MdnsFact}
    (hfact : fact ∈ ctx.lower.facts) {call : MdnsCall} {p : ρ} (hheard : .heard j call p ∈ h)
    (hself : j = i → call.kind ≠ .goodbye ∧
      ∀ r ∈ call.records, r.fact ∈ ctx.facts) :
    ∀ r ∈ lib.heard p, ¬r.Contradicts fact := by
  obtain ⟨ctx', hcame', hspeaks, hfacts⟩ := hI.spoken hlib hheard
  intro r hr hcontra
  obtain ⟨given, hgiven, has⟩ := (hI.heard j call p hheard).given hlib hr
  rcases hcontra with hwith | ⟨-, hname, hrivals⟩
  · -- it is withdrawn: by a goodbye of the service itself
    have hij := hI.owner hcame hcame' hfact (hfacts r hr) (Or.inl hwith.fact.symm)
    rcases hspeaks.alive with ⟨classes, rfl⟩ | ⟨hkind, halive⟩
    · exact (hself hij.symm).1 rfl
    · have httl : r.ttl = given.ttl := has.ttl hkind (halive given hgiven)
      exact halive given hgiven (httl.symm.trans hwith.gone)
  · -- it is replaced: by another record of the service itself
    have hij := hI.owner hcame hcame' hfact (hfacts r hr)
      (Or.inr ⟨hname.symm, hrivals.of_shared has.flushes⟩)
    have hown := ServiceContext.lower_mem_facts ((hself hij.symm).2 given hgiven)
    rw [← Record.map_fact, ← has.fact] at hown
    exact ServiceContext.facts_agree hfact hown _ hrivals

/-- A fact of an announcement is known until the service says something else. -/
theorem MdnsInv.announced (hI : MdnsInv lib phone n h) (hlib : lib.Lawful)
    (hphone : phone.Lawful lib.heard) {i : Nat} {ctx : ServiceContext} {classes : Classes}
    {p : ρ} {h₁ h₂ : List (MdnsEvent ρ)}
    (heq : h = h₁ ++ .heard i (announcement ctx classes) p :: h₂) (hfresh : .expired ∉ h₂)
    (hrest : ∀ call p', .heard i call p' ∈ h₂ →
      call.kind ≠ .goodbye ∧ ∀ r ∈ call.records, r.fact ∈ ctx.facts)
    {given : MdnsRecord} (hgiven : given ∈ (announcement ctx classes).records)
    (hclass : ClassFits given.rclass) :
    phone.knows n.phone (given.fact.map lowerCase) := by
  have hheard : .heard i (announcement ctx classes) p ∈ h := by simp [heq]
  have hsent := hI.heard i _ p hheard
  obtain ⟨ctx', hcame, hspeaks⟩ := hI.calls i _ hsent.called
  have hsub : ∀ fact ∈ ctx.facts, fact ∈ ctx'.facts := by
    intro fact hfact
    obtain ⟨r, hr, rfl⟩ := announcement_facts classes hfact
    exact hspeaks.facts r hr
  have hfact : given.fact.map lowerCase ∈ ctx'.lower.facts :=
    ServiceContext.lower_mem_facts (hspeaks.facts given hgiven)
  rw [hI.known, hearingsOf_heard heq]
  refine hphone.known_of_stated ?_ (fun hmem => hfresh (expired_of_hearing hmem)) ?_
    fun p' hp' => ?_
  · obtain ⟨r, hr, has⟩ := hsent.sent hlib hgiven
    have httl : given.ttl ≠ 0 := by
      rw [(mem_announcement hgiven).2]
      decide
    have hsame : r.ttl = given.ttl := has.ttl nofun httl
    exact ⟨r, hr, has.fact, has.inClass hclass, ne_of_eq_of_ne hsame httl⟩
  · exact hI.uncontradicted hlib hcame hfact hheard fun _ =>
      ⟨nofun, fun r hr => hspeaks.facts r hr⟩
  · obtain ⟨j, call, hmem⟩ := heard_of_hearing hp'
    have hmem' : .heard j call p' ∈ h :=
      heq ▸ List.mem_append_right _ (List.mem_cons_of_mem _ hmem)
    refine hI.uncontradicted hlib hcame hfact hmem' ?_
    rintro rfl
    exact (hrest call p' hmem).imp_right fun hfacts r hr => hsub _ (hfacts r hr)

theorem MdnsInv.gone (hI : MdnsInv lib phone n h) (hlib : lib.Lawful)
    (hphone : phone.Lawful lib.heard) {i : Nat} {ctx : ServiceContext} {classes : Classes}
    {p : ρ} {h₁ h₂ : List (MdnsEvent ρ)}
    (heq : h = h₁ ++ .heard i (goodbye ctx classes) p :: h₂)
    (hquiet : ∀ call p', .heard i call p' ∉ h₂) : ¬phone.knows n.phone ctx.lower.ptr := by
  have hsent := hI.heard i (goodbye ctx classes) p (by simp [heq])
  obtain ⟨ctx', hcame, hspeaks⟩ := hI.calls i _ hsent.called
  have hptr : recordOf ctx.ptr 0 0 ∈ (goodbye ctx classes).records := List.mem_cons_self
  have hlower : ctx.ptr.map lowerCase = ctx.lower.ptr := by
    simp [ServiceContext.ptr, ServiceContext.lower, Fact.map, Data.map]
  have hown : ctx.lower.ptr ∈ ctx'.lower.facts :=
    hlower ▸ ServiceContext.lower_mem_facts (hspeaks.facts _ hptr)
  rw [hI.known, hearingsOf_heard heq]
  refine hphone.unknown_of_withdrawn ?_ (fun r hr hstates => ?_) fun p' hp' r hr hstates => ?_
  · obtain ⟨r, hr, has⟩ := hsent.sent hlib hptr
    exact ⟨r, hr, has.fact.trans hlower, has.inClass (Or.inl rfl), has.gone rfl⟩
  · obtain ⟨given, hgiven, has⟩ := hsent.given hlib hr
    exact hstates.alive (has.gone rfl)
  · -- another service has another pointer
    obtain ⟨j, call, hmem⟩ := heard_of_hearing hp'
    obtain ⟨ctx'', hcame', -, hfacts⟩ :=
      hI.spoken hlib (heq ▸ List.mem_append_right _ (List.mem_cons_of_mem _ hmem))
    have hij := hI.owner hcame hcame' hown (hfacts r hr) (Or.inl hstates.fact.symm)
    exact hquiet call p' (hij ▸ hmem)

/-- **Discovery.**  Any number of PCs with different names come up, answer and go, in any
order, and the network loses, repeats and delays their packets at will.  Of the library
and the phone only `MdnsLibrary.Lawful` and `Listener.Lawful` are relied on. -/
theorem discovery {ok : StepCond (MdnsNet ρ σ) MdnsAction (MdnsEvent ρ)} (hlib : lib.Lawful)
    (hphone : phone.Lawful lib.heard) (hr : (mdnsMachine lib phone).Reach ok n h) :
    Discovery phone n h := by
  have hI := mdnsInv_reach hr
  refine
    { sound := fun e he => hI.sound hlib hphone he
      found := fun i ctx classes p h₁ h₂ heq hsrv ha hfresh hrest => ?_
      gone := fun i ctx classes p h₁ h₂ heq hquiet e he hinst => ?_
      farewell := hI.farewell }
  · have hknown : ∀ given ∈ (announcement ctx classes).records, ClassFits given.rclass →
        phone.knows n.phone (given.fact.map lowerCase) := fun given hgiven hclass =>
      hI.announced hlib hphone heq hfresh hrest hgiven hclass
    refine hphone.resolves.mpr ⟨?_, 0, 0, lowerCase ctx.hostname, ?_, ?_⟩
    · rw [← lowerCase_kServiceType]
      exact hknown (recordOf ctx.ptr 0 120) (by simp [MdnsCall.records, announcement])
        (Or.inl rfl)
    · exact hknown (recordOf ctx.srv classes.srv 120)
        (by simp [MdnsCall.records, announcement, additionalOf]) hsrv
    · exact hknown (recordOf ctx.a classes.a 120)
        (by simp [MdnsCall.records, announcement, additionalOf]) ha
  · refine hI.gone hlib hphone heq hquiet ?_
    have hptr := (hphone.resolves.mp he).1
    rwa [hinst] at hptr

end Discovery

/-! ## Two PCs -/

/-- What a class keeps of its bits: the one of IN and, but for a pointer, the one that
flushes. -/
def classMask : Data String UInt16 UInt32 → UInt16
  | .ptr _ => 1
  | _ => 0x8001

/-- A record without a class gets IN, and flushes where it is announced. -/
def sentRecord (kind : SendKind) (r : MdnsRecord) : MdnsRecord :=
  let rclass := if r.rclass ≠ 0 then r.rclass else if kind = .announce then 0x8001 else 1
  { r with
    rclass := rclass &&& classMask r.data
    ttl := if kind = .goodbye then 0 else if r.ttl = 0 then 60 else r.ttl }

/-- Packets of any size. -/
def plainLibrary : MdnsLibrary (List MdnsRecord) where
  wire call := some (call.records.map (sentRecord call.kind))
  contents p := p

theorem classMask_isIN {rclass : UInt16} (data : Data String UInt16 UInt32)
    (h : rclass &&& 0x7FFF = 1) : (rclass &&& classMask data) &&& 0x7FFF = 1 := by
  rw [UInt16.and_assoc, UInt16.and_comm (classMask data), ← UInt16.and_assoc, h]
  cases data <;> (simp only [classMask]; decide)

theorem sentAs_sentRecord (kind : SendKind) (r : MdnsRecord) :
    SentAs kind r (sentRecord kind r) where
  fact := rfl
  inClass := by
    intro hclass
    refine beq_iff_eq.mpr (classMask_isIN r.data ?_)
    split
    · rename_i hset
      exact beq_iff_eq.mp (hclass.resolve_left hset)
    · split <;> decide
  shared := by
    intro inst hinst
    have hmask : classMask r.data = 1 := by rw [hinst]; rfl
    have hnone : (1 : UInt16) &&& 0x8000 = 0 := by decide
    simp only [sentRecord, Record.flushes, hmask, UInt16.and_assoc, hnone, UInt16.and_zero]
    rfl
  ttl := fun hkind httl => by simp [sentRecord, hkind, httl]
  gone := fun hkind => by simp [sentRecord, hkind]

theorem plainLibrary_lawful : plainLibrary.Lawful where
  holds := by
    rintro call p hwire
    cases hwire
    exact List.forall₂_map_right_iff.mpr
      (List.forall₂_same.mpr fun r _ => sentAs_sentRecord call.kind r)

def sampleNet : MdnsNet (List MdnsRecord) (List MdnsFact) where
  services i := { deviceName := "PC" ++ String.ofList (List.replicate i 'X'), wsPort := 45678 }
  phone := []

theorem sampleNet_init : (mdnsMachine plainLibrary (noting plainLibrary.heard)).Init sampleNet := by
  refine ⟨fun _ => ⟨rfl, rfl, rfl⟩, fun i j hij => ?_, rfl, rfl⟩
  simp only [sampleNet, lowerCase_append] at hij
  have hsame := congrArg String.length ((String.append_right_inj _).mp hij)
  simpa [lowerCase] using hsame

/-- The phone hears the first PC come and go, misses the announcement of the second one
and asks for it; the memory of that callback holds class IN. -/
theorem discovery_sample :
    ∃ (n : MdnsNet (List MdnsRecord) (List MdnsFact)) (h : List (MdnsEvent (List MdnsRecord))),
      Resolvable (· ∈ n.phone) kServiceType ⟨"pcx._iriseus._tcp.local.", 0xC0A80005, 45678⟩ ∧
        Discovery (noting plainLibrary.heard) n h := by
  obtain ⟨n, h, hr, hh⟩ := exists_reach_of_exec
    (mdnsMachine plainLibrary (noting plainLibrary.heard)) anyStep sampleNet_init
    [.start 0, .start 1, .begin 0 (some [0xC0A80004]) true ⟨0, 0, 0⟩,
      .begin 1 (some [0x7F000001, 0x08080808, 0xC0A80005]) true ⟨7, 7, 7⟩, .hear 0, .test 1,
      .listen 1 [⟨.question, .ptr, ⟨1, 1, 1⟩⟩], .hear 2, .stop 0, .test 0, .hear 3]
    (fun n _ => decide ((kServiceType, .ptr "pcx._iriseus._tcp.local.") ∈ n.phone ∧
      ("pcx._iriseus._tcp.local.", .srv 0 0 "pcx.local." 45678) ∈ n.phone ∧
      ("pcx.local.", .a 0xC0A80005) ∈ n.phone))
    (by decide +kernel)
  obtain ⟨hptr, hsrv, ha⟩ := of_decide_eq_true hh
  exact ⟨n, h, ⟨hptr, 0, 0, _, hsrv, ha⟩,
    discovery plainLibrary_lawful (noting_lawful plainLibrary.heard) hr⟩

end Iriseus.Core
