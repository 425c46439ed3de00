import Iriseus.Verified.ResourceRecords

/-!
# Announcing the service on the local network: `MdnsService`

Port of `MdnsService.cpp`: which address is announced, the records that are handed to
the multicast DNS library, and the points of the thread that announces the service,
answers questions until it is stopped, and then says goodbye.

The source never sets the class of a record.  `ptr` and `answer` are cleared, so theirs
is zero; `additional` is not, so the classes of the other records are what the memory
held.  Addresses are numbers in host order; `ntohl` and `htonl`, which change their
representation only, are left out.

## Main results

* `getLocalIp_spec` — which address is announced.
* `speaks_mdnsCallback` — an answer tells nothing but facts of the service.
-/

namespace Iriseus.Core

open Iriseus.Verified
open Iriseus.Verified.ResourceRecords

abbrev MdnsRecord := Record String UInt16 UInt32

abbrev MdnsFact := Fact String UInt16 UInt32

namespace MdnsService

def kServiceType : String := "_iriseus._tcp.local."

/-- A name as it is compared with others: the case of the letters A to Z does not count. -/
def lowerCase (name : String) : String := String.ofList (name.toList.map Char.toLower)

theorem lowerCase_append (s t : String) : lowerCase (s ++ t) = lowerCase s ++ lowerCase t := by
  simp [lowerCase]

@[simp] theorem lowerCase_kServiceType : lowerCase kServiceType = kServiceType := by
  decide +kernel

/-! ## The local address -/

def isLoopback (ip : UInt32) : Bool := ip >>> 24 == 127

/-- Networks 10, 192.168 and 172.16 to 172.31. -/
def isLocal (ip : UInt32) : Bool :=
  ip >>> 24 == 10 ||
    (ip >>> 24 == 192 && (ip >>> 16) &&& 0xFF == 168) ||
    (ip >>> 24 == 172 && (ip >>> 16) &&& 0xFF >= 16 && (ip >>> 16) &&& 0xFF <= 31)

/-- The variables of the loop of `getLocalIp`. -/
structure IpChoice where
  fallback : UInt32 := 0
  preferred : UInt32 := 0

/-- One round of the loop. -/
def IpChoice.consider (c : IpChoice) (ip : UInt32) : IpChoice :=
  if isLoopback ip then c
  else
    { fallback := if !isLocal ip && c.fallback == 0 then ip else c.fallback
      preferred := if isLocal ip && c.preferred == 0 then ip else c.preferred }

/-- `getLocalIp`; `addresses` is what `getaddrinfo` finds, `none` when it fails. -/
def getLocalIp : Option (List UInt32) → UInt32
  | none => 0
  | some addresses =>
      let c := addresses.foldl IpChoice.consider {}
      if c.preferred ≠ 0 then c.preferred else c.fallback

/-- An address to announce: one of the machine, not the loopback, and one of a local
network if there is any. -/
structure LanAddress (addresses : List UInt32) (ip : UInt32) : Prop where
  mem : ip ∈ addresses
  reachable : isLoopback ip = false
  preferred : isLocal ip = true ∨ ∀ a ∈ addresses, isLoopback a = false → isLocal a = false

/-- What the variables of the loop are after the addresses `seen`. -/
structure IpChoice.Of (c : IpChoice) (seen : List UInt32) : Prop where
  fallback : c.fallback = 0 ∨ c.fallback ∈ seen ∧ isLoopback c.fallback = false
  preferred : c.preferred = 0 ∨
    c.preferred ∈ seen ∧ isLoopback c.preferred = false ∧ isLocal c.preferred = true
  none : c.preferred = 0 → ∀ a ∈ seen, isLoopback a = false → isLocal a = false

theorem isLocal_ne_zero {ip : UInt32} (h : isLocal ip = true) : ip ≠ 0 := by
  rintro rfl
  exact absurd h (by decide)

theorem IpChoice.Of.consider {c : IpChoice} {seen : List UInt32} (h : c.Of seen)
    (ip : UInt32) : (c.consider ip).Of (seen ++ [ip]) := by
  have hleft : ∀ {a}, a ∈ seen → a ∈ seen ++ [ip] := fun ha => List.mem_append_left _ ha
  have hlast : ip ∈ seen ++ [ip] := List.mem_append_right _ List.mem_cons_self
  unfold IpChoice.consider
  cases hloop : isLoopback ip with
  | true =>
      refine ⟨h.fallback.imp_right fun ⟨hmem, hr⟩ => ⟨hleft hmem, hr⟩,
        h.preferred.imp_right fun ⟨hmem, hr⟩ => ⟨hleft hmem, hr⟩, fun hzero a ha hreach => ?_⟩
      rcases List.mem_append.mp ha with ha | ha
      · exact h.none hzero a ha hreach
      · rw [List.mem_singleton.mp ha, hloop] at hreach
        cases hreach
  | false =>
      simp only [Bool.false_eq_true, if_false]
      refine ⟨?_, ?_, fun hzero a ha hreach => ?_⟩
      · dsimp only
        split
        · exact Or.inr ⟨hlast, hloop⟩
        · exact h.fallback.imp_right fun ⟨hmem, hr⟩ => ⟨hleft hmem, hr⟩
      · dsimp only
        split
        · rename_i hset
          exact Or.inr ⟨hlast, hloop, (Bool.and_eq_true_iff.mp hset).1⟩
        · exact h.preferred.imp_right fun ⟨hmem, hr⟩ => ⟨hleft hmem, hr⟩
      · dsimp only at hzero
        split at hzero
        · rename_i hset
          exact absurd hzero (isLocal_ne_zero (Bool.and_eq_true_iff.mp hset).1)
        · rename_i hset
          rcases List.mem_append.mp ha with ha | ha
          · exact h.none hzero a ha hreach
          · obtain rfl := List.mem_singleton.mp ha
            simpa [hzero] using hset

theorem IpChoice.of_addresses (addresses : List UInt32) :
    ∀ {c : IpChoice} {seen : List UInt32}, c.Of seen →
      (addresses.foldl IpChoice.consider c).Of (seen ++ addresses) := by
  induction addresses with
  | nil => exact fun {c seen} h => by rwa [List.append_nil]
  | cons ip addresses ih =>
      intro c seen h
      rw [List.foldl_cons, List.append_cons]
      exact ih (h.consider ip)

theorem getLocalIp_spec {addresses : List UInt32} {ip : UInt32} (hip : ip ≠ 0)
    (h : getLocalIp (some addresses) = ip) : LanAddress addresses ip := by
  have hinit : IpChoice.Of {} [] := ⟨Or.inl rfl, Or.inl rfl, by simp⟩
  have hc := IpChoice.of_addresses addresses hinit
  rw [List.nil_append] at hc
  simp only [getLocalIp] at h
  split at h
  · rename_i hset
    obtain ⟨hmem, hreach, hlocal⟩ := hc.preferred.resolve_left hset
    subst h
    exact ⟨hmem, hreach, Or.inl hlocal⟩
  · rename_i hset
    subst h
    obtain ⟨hmem, hreach⟩ := hc.fallback.resolve_left hip
    exact ⟨hmem, hreach, Or.inr (hc.none (not_not.mp hset))⟩

/-! ## Records -/

/-- What the callback needs to know. -/
structure ServiceContext where
  serviceInst : String
  hostname : String
  port : UInt16
  localIp : UInt32
  deriving DecidableEq, Repr

namespace ServiceContext

variable (ctx : ServiceContext)

def ptr : MdnsFact := (kServiceType, .ptr ctx.serviceInst)

def srv : MdnsFact := (ctx.serviceInst, .srv 0 0 ctx.hostname ctx.port)

def txt : MdnsFact := (ctx.serviceInst, .txt "version" "1")

def a : MdnsFact := (ctx.hostname, .a ctx.localIp)

/-- All that a service says of itself. -/
def facts : List MdnsFact := [ctx.ptr, ctx.srv, ctx.txt, ctx.a]

variable {ctx}

theorem srv_mem {name host : String} {priority weight port : UInt16}
    (h : (name, .srv priority weight host port) ∈ ctx.facts) :
    name = ctx.serviceInst ∧ host = ctx.hostname ∧ port = ctx.port := by
  obtain ⟨hname, -, -, hsays⟩ : name = ctx.serviceInst ∧ priority = 0 ∧ weight = 0 ∧
      host = ctx.hostname ∧ port = ctx.port := by
    simpa [facts, ptr, srv, txt, a] using h
  exact ⟨hname, hsays⟩

theorem a_mem {name : String} {addr : UInt32} (h : (name, .a addr) ∈ ctx.facts) :
    name = ctx.hostname ∧ addr = ctx.localIp := by
  simpa [facts, ptr, srv, txt, a] using h

/-- A service does not speak against itself. -/
theorem facts_agree {fact fact' : MdnsFact} (h : fact ∈ ctx.facts) (h' : fact' ∈ ctx.facts)
    (flush : Bool) : ¬fact.2.rivals flush fact'.2 := by
  simp only [facts, List.mem_cons, List.not_mem_nil, or_false] at h h'
  rcases h with rfl | rfl | rfl | rfl <;> rcases h' with rfl | rfl | rfl | rfl <;>
    simp [ptr, srv, txt, a, Data.rivals]

/-- The names as they are compared. -/
def lower (ctx : ServiceContext) : ServiceContext :=
  { ctx with serviceInst := lowerCase ctx.serviceInst, hostname := lowerCase ctx.hostname }

theorem lower_mem_facts {fact : MdnsFact} (h : fact ∈ ctx.facts) :
    fact.map lowerCase ∈ ctx.lower.facts := by
  simp only [facts, List.mem_cons, List.not_mem_nil, or_false] at h
  rcases h with rfl | rfl | rfl | rfl <;>
    simp [facts, ptr, srv, txt, a, lower, Fact.map, Data.map]

end ServiceContext

/-- What the memory of `additional` holds in the place of the classes. -/
structure Classes where
  srv : UInt16
  txt : UInt16
  a : UInt16
  deriving DecidableEq, Repr

def recordOf (fact : MdnsFact) (rclass : UInt16) (ttl : UInt32) : MdnsRecord :=
  { name := fact.1, data := fact.2, rclass := rclass, ttl := ttl }

/-- `additional[0..2]`. -/
def additionalOf (ctx : ServiceContext) (classes : Classes) (ttl : UInt32) :
    List MdnsRecord :=
  [recordOf ctx.srv classes.srv ttl, recordOf ctx.txt classes.txt ttl,
    recordOf ctx.a classes.a ttl]

inductive SendKind where
  | announce
  | answer
  | goodbye
  deriving DecidableEq, Repr

/-- A call of `mdns_announce_multicast`, `mdns_query_answer_multicast` or
`mdns_goodbye_multicast`. -/
structure MdnsCall where
  kind : SendKind
  answer : MdnsRecord
  additional : List MdnsRecord := []
  deriving DecidableEq, Repr

def MdnsCall.records (call : MdnsCall) : List MdnsRecord := call.answer :: call.additional

def announcement (ctx : ServiceContext) (classes : Classes) : MdnsCall where
  kind := .announce
  answer := recordOf ctx.ptr 0 120
  additional := additionalOf ctx classes 120

def goodbye (ctx : ServiceContext) (classes : Classes) : MdnsCall where
  kind := .goodbye
  answer := recordOf ctx.ptr 0 0
  additional := additionalOf ctx classes 0

inductive EntryType where
  | question
  | answer
  | authority
  | additional
  deriving DecidableEq, Repr

inductive RecordType where
  | ptr
  | srv
  | a
  | other (rtype : UInt16)
  deriving DecidableEq, Repr

/-- What the library calls `mdnsCallback` with, and what is in the memory of the
callback's own `additional`. -/
structure MdnsEntry where
  entry : EntryType
  rtype : RecordType
  classes : Classes
  deriving DecidableEq, Repr

/-- `mdnsCallback`.  The name that the question is about is not looked at. -/
def mdnsCallback (ctx : ServiceContext) (e : MdnsEntry) : Option MdnsCall :=
  match e.entry, e.rtype with
  | .question, .ptr =>
      some { kind := .answer, answer := recordOf ctx.ptr 0 120
             additional := additionalOf ctx e.classes 120 }
  | .question, .srv => some { kind := .answer, answer := recordOf ctx.srv 0 120 }
  | .question, .a => some { kind := .answer, answer := recordOf ctx.a 0 120 }
  | _, _ => none

/-! ## The thread -/

/-- Where `runLoop` is. -/
inductive Phase where
  | begin
  /-- Before the test of `m_running`. -/
  | test (ctx : ServiceContext) (classes : Classes)
  /-- In `select`. -/
  | select (ctx : ServiceContext) (classes : Classes)
  | returned
  deriving DecidableEq, Repr

end MdnsService

open MdnsService

/-- `thread` is `none` where `m_thread` is not joinable; `stopping` is set while
`stop` joins it. -/
structure MdnsService where
  deviceName : String
  wsPort : UInt16
  running : Bool := false
  stopping : Bool := false
  thread : Option Phase := none
  deriving DecidableEq, Repr

/-- The names of `runLoop`. -/
def MdnsService.context (m : MdnsService) (localIp : UInt32) : ServiceContext where
  serviceInst := m.deviceName ++ "." ++ kServiceType
  hostname := m.deviceName ++ ".local."
  port := m.wsPort
  localIp := localIp

/-! ## What a call tells -/

namespace MdnsService

/-- The thread answers questions, with these names. -/
def serving : Option Phase → Option ServiceContext
  | some (.test ctx _) => some ctx
  | some (.select ctx _) => some ctx
  | _ => none

@[simp] theorem recordOf_fact (fact : MdnsFact) (rclass : UInt16) (ttl : UInt32) :
    (recordOf fact rclass ttl).fact = fact := rfl

/-- The call tells some facts of a service, or says goodbye. -/
structure Speaks (ctx : ServiceContext) (call : MdnsCall) : Prop where
  facts : ∀ r ∈ call.records, r.fact ∈ ctx.facts
  alive : (∃ classes, call = goodbye ctx classes) ∨
    call.kind ≠ .goodbye ∧ ∀ r ∈ call.records, r.ttl ≠ 0

theorem mem_announcement {ctx : ServiceContext} {classes : Classes} {r : MdnsRecord}
    (h : r ∈ (announcement ctx classes).records) : r.fact ∈ ctx.facts ∧ r.ttl = 120 := by
  simp only [MdnsCall.records, announcement, additionalOf, List.mem_cons, List.not_mem_nil,
    or_false] at h
  rcases h with rfl | rfl | rfl | rfl <;> simp [ServiceContext.facts, recordOf, Record.fact]

/-- An announcement tells every fact. -/
theorem announcement_facts {ctx : ServiceContext} (classes : Classes) {fact : MdnsFact}
    (h : fact ∈ ctx.facts) : ∃ r ∈ (announcement ctx classes).records, r.fact = fact := by
  simp only [ServiceContext.facts, List.mem_cons, List.not_mem_nil, or_false] at h
  rcases h with rfl | rfl | rfl | rfl <;> simp [MdnsCall.records, announcement, additionalOf]

theorem mem_goodbye {ctx : ServiceContext} {classes : Classes} {r : MdnsRecord}
    (h : r ∈ (goodbye ctx classes).records) : r.fact ∈ ctx.facts ∧ r.ttl = 0 := by
  simp only [MdnsCall.records, goodbye, additionalOf, List.mem_cons, List.not_mem_nil,
    or_false] at h
  rcases h with rfl | rfl | rfl | rfl <;> simp [ServiceContext.facts, recordOf, Record.fact]

theorem speaks_goodbye (ctx : ServiceContext) (classes : Classes) :
    Speaks ctx (goodbye ctx classes) :=
  ⟨fun _ hr => (mem_goodbye hr).1, Or.inl ⟨classes, rfl⟩⟩

theorem speaks_announcement (ctx : ServiceContext) (classes : Classes) :
    Speaks ctx (announcement ctx classes) where
  facts := fun _ hr => (mem_announcement hr).1
  alive := Or.inr ⟨nofun, fun r hr => by
    rw [(mem_announcement hr).2]
    decide⟩

theorem speaks_mdnsCallback {ctx : ServiceContext} {e : MdnsEntry} {call : MdnsCall}
    (h : mdnsCallback ctx e = some call) : Speaks ctx call := by
  unfold mdnsCallback at h
  split at h <;> cases h
  · -- the records are those of an announcement
    obtain ⟨hfacts, ⟨_, hbye⟩ | ⟨-, halive⟩⟩ := speaks_announcement ctx e.classes
    · cases hbye
    · exact ⟨hfacts, Or.inr ⟨nofun, halive⟩⟩
  all_goals
    exact ⟨by simp [MdnsCall.records, ServiceContext.facts],
      Or.inr ⟨nofun, by simp [MdnsCall.records, recordOf]⟩⟩

end MdnsService

end Iriseus.Core
