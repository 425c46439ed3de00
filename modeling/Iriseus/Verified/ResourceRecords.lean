import Mathlib.Data.List.Basic

/-!
# Resource records

A service announces itself by resource records: a pointer from the type of the service
to the instance, the host and port of the instance, the address of the host.  Whoever
looks for it collects records from packets that may be lost, repeated or late, drops
those that say goodbye (a time to live of zero), and has resolved an instance when it
knows all three.

How a listener keeps its records is left open.  `Listener.Lawful` is what is asked of it,
after multicast DNS: it holds nothing that it has not been told in class IN, learns and
keeps what nothing speaks against, and drops what is withdrawn.  A record speaks against a
fact if it withdraws it, or states another one in its place.  Names are compared as values;
`Record.map` brings them into the form in which a listener compares them.

## Main results

* `known_stated`, `known_of_stated`, `unknown_of_withdrawn` — what a lawful listener
  knows after any sequence of packets.
* `noting_lawful` — one that notes all facts is lawful.
-/

namespace Iriseus.Verified.ResourceRecords

variable {ν ν' π ι : Type}

/-! ## Records -/

/-- What a record says of its name. -/
inductive Data (ν π ι : Type) where
  | ptr (inst : ν)
  | srv (priority weight : UInt16) (host : ν) (port : π)
  | txt (key value : String)
  | a (addr : ι)
  deriving DecidableEq, Repr

structure Record (ν π ι : Type) where
  name : ν
  data : Data ν π ι
  rclass : UInt16
  ttl : UInt32
  deriving DecidableEq, Repr

/-- What is known of a name. -/
abbrev Fact (ν π ι : Type) := ν × Data ν π ι

namespace Data

/-- Of two data the second replaces the first: a name has one host and port, one text
and one address, but may point to many instances, unless the second is to `flush` them. -/
def rivals (flush : Bool) : Data ν π ι → Data ν π ι → Prop
  | .ptr inst, .ptr inst' => flush = true ∧ inst ≠ inst'
  | .srv p w host port, .srv p' w' host' port' => (p, w, host, port) ≠ (p', w', host', port')
  | .txt key value, .txt key' value' => (key, value) ≠ (key', value')
  | .a addr, .a addr' => addr ≠ addr'
  | _, _ => False

theorem rivals.of_shared {flush : Bool} {data data' : Data ν π ι}
    (h : data.rivals flush data') (hshared : ∀ inst, data' = .ptr inst → flush = false) :
    data.rivals false data' := by
  cases data <;> cases data' <;> try exact h
  cases h.1.symm.trans (hshared _ rfl)

def map (f : ν → ν') : Data ν π ι → Data ν' π ι
  | .ptr inst => .ptr (f inst)
  | .srv priority weight host port => .srv priority weight (f host) port
  | .txt key value => .txt key value
  | .a addr => .a addr

end Data

def Fact.map (f : ν → ν') (fact : Fact ν π ι) : Fact ν' π ι := (f fact.1, fact.2.map f)

namespace Record

def fact (r : Record ν π ι) : Fact ν π ι := (r.name, r.data)

/-- The record under other names. -/
def map (f : ν → ν') (r : Record ν π ι) : Record ν' π ι :=
  { name := f r.name, data := r.data.map f, rclass := r.rclass, ttl := r.ttl }

variable (r : Record ν π ι) (known : Fact ν π ι)

@[simp] theorem map_fact (f : ν → ν') : (r.map f).fact = r.fact.map f := rfl

/-- The class is IN; the highest bit is not part of it. -/
def isIN : Bool := r.rclass &&& 0x7FFF == 1

/-- The highest bit asks to flush a cache. -/
def flushes : Bool := r.rclass &&& 0x8000 != 0

/-- The record says that the fact holds. -/
structure States : Prop where
  fact : r.fact = known
  inClass : r.isIN = true
  alive : r.ttl ≠ 0

/-- The record says goodbye to the fact. -/
structure Withdraws : Prop where
  fact : r.fact = known
  inClass : r.isIN = true
  gone : r.ttl = 0

/-- The record withdraws the fact, or states another one in its place. -/
def Contradicts : Prop :=
  r.Withdraws known ∨ r.isIN = true ∧ r.name = known.1 ∧ known.2.rivals r.flushes r.data

end Record

/-! ## Listeners -/

/-- An instance of a service, its address and its port. -/
structure Endpoint (ν π ι : Type) where
  inst : ν
  addr : ι
  port : π
  deriving DecidableEq, Repr

/-- Someone who listens to packets `ρ`; `expire` drops what is too old. -/
structure Listener (ρ σ ν π ι : Type) where
  fresh : σ
  hear : σ → ρ → σ
  expire : σ → σ
  knows : σ → Fact ν π ι → Prop
  resolves : σ → ν → Endpoint ν π ι → Prop

/-- The facts that resolve an instance of `service`. -/
def Resolvable (known : Fact ν π ι → Prop) (service : ν) (e : Endpoint ν π ι) : Prop :=
  known (service, .ptr e.inst) ∧ ∃ priority weight host,
    known (e.inst, .srv priority weight host e.port) ∧ known (host, .a e.addr)

variable {ρ σ : Type}

/-- What is asked of a listener, where `contents` are the records of a packet.  A record
that is withdrawn lives on for a second, which `hear` includes. -/
structure Listener.Lawful (L : Listener ρ σ ν π ι) (contents : ρ → List (Record ν π ι)) :
    Prop where
  fresh : ∀ fact, ¬L.knows L.fresh fact
  only : ∀ {s p fact}, L.knows (L.hear s p) fact →
    L.knows s fact ∨ ∃ r ∈ contents p, r.States fact
  learns : ∀ {s p fact}, (∃ r ∈ contents p, r.States fact) →
    (∀ r ∈ contents p, ¬r.Contradicts fact) → L.knows (L.hear s p) fact
  keeps : ∀ {s p fact}, L.knows s fact → (∀ r ∈ contents p, ¬r.Contradicts fact) →
    L.knows (L.hear s p) fact
  leaves : ∀ {s p fact}, (∃ r ∈ contents p, r.Withdraws fact) →
    (∀ r ∈ contents p, ¬r.States fact) → ¬L.knows (L.hear s p) fact
  expires : ∀ {s fact}, L.knows (L.expire s) fact → L.knows s fact
  resolves : ∀ {s service e}, L.resolves s service e ↔ Resolvable (L.knows s) service e

/-! ## Runs of a listener -/

inductive Hearing (ρ : Type) where
  | packet (p : ρ)
  | expiry
  deriving DecidableEq, Repr

namespace Listener

variable (L : Listener ρ σ ν π ι)

def receive (s : σ) : Hearing ρ → σ
  | .packet p => L.hear s p
  | .expiry => L.expire s

/-- What is known after some hearings. -/
def after (rs : List (Hearing ρ)) : σ := rs.foldl L.receive L.fresh

variable {L} {contents : ρ → List (Record ν π ι)} {fact : Fact ν π ι}
variable {rs rs₁ rs₂ : List (Hearing ρ)} {p : ρ}

theorem after_append : L.after (rs₁ ++ rs₂) = rs₂.foldl L.receive (L.after rs₁) :=
  List.foldl_append

namespace Lawful

variable (hL : L.Lawful contents)
include hL

theorem foldl_stated {s : σ} (h : L.knows (rs.foldl L.receive s) fact) :
    L.knows s fact ∨ ∃ p, .packet p ∈ rs ∧ ∃ r ∈ contents p, r.States fact := by
  induction rs generalizing s with
  | nil => exact Or.inl h
  | cons x rs ih =>
      rcases ih h with hknown | ⟨p, hp, hstated⟩
      · cases x with
        | packet p =>
            exact (hL.only hknown).imp_right fun hstated => ⟨p, List.mem_cons_self, hstated⟩
        | expiry => exact Or.inl (hL.expires hknown)
      · exact Or.inr ⟨p, List.mem_cons_of_mem _ hp, hstated⟩

/-- What is known has been stated. -/
theorem known_stated (h : L.knows (L.after rs) fact) :
    ∃ p, .packet p ∈ rs ∧ ∃ r ∈ contents p, r.States fact :=
  (hL.foldl_stated h).resolve_left (hL.fresh fact)

theorem foldl_kept {s : σ} (h : L.knows s fact) (hfresh : .expiry ∉ rs)
    (hrest : ∀ p, .packet p ∈ rs → ∀ r ∈ contents p, ¬r.Contradicts fact) :
    L.knows (rs.foldl L.receive s) fact := by
  induction rs generalizing s with
  | nil => exact h
  | cons x rs ih =>
      cases x with
      | packet p =>
          exact ih (hL.keeps h (hrest p List.mem_cons_self))
            (fun hmem => hfresh (List.mem_cons_of_mem _ hmem))
            fun p' hp' => hrest p' (List.mem_cons_of_mem _ hp')
      | expiry => exact absurd List.mem_cons_self hfresh

/-- What has been stated, and not been contradicted since nor grown too old, is known. -/
theorem known_of_stated (hstates : ∃ r ∈ contents p, r.States fact) (hfresh : .expiry ∉ rs₂)
    (hone : ∀ r ∈ contents p, ¬r.Contradicts fact)
    (hrest : ∀ p', .packet p' ∈ rs₂ → ∀ r ∈ contents p', ¬r.Contradicts fact) :
    L.knows (L.after (rs₁ ++ .packet p :: rs₂)) fact := by
  rw [after_append, List.foldl_cons]
  exact hL.foldl_kept (hL.learns hstates hone) hfresh hrest

/-- What has been withdrawn, and not been stated since, is not known. -/
theorem unknown_of_withdrawn (hgone : ∃ r ∈ contents p, r.Withdraws fact)
    (hone : ∀ r ∈ contents p, ¬r.States fact)
    (hrest : ∀ p', .packet p' ∈ rs₂ → ∀ r ∈ contents p', ¬r.States fact) :
    ¬L.knows (L.after (rs₁ ++ .packet p :: rs₂)) fact := by
  rw [after_append, List.foldl_cons]
  intro hknown
  rcases hL.foldl_stated hknown with hknown | ⟨p', hp', r, hr, hstates⟩
  · exact hL.leaves hgone hone hknown
  · exact hrest p' hp' r hr hstates

end Lawful

end Listener

/-! ## A listener that notes all facts -/

section Noting

variable [DecidableEq ν] [DecidableEq π] [DecidableEq ι]

/-- One record is heard; those of other classes are passed over. -/
def hearRecord (known : List (Fact ν π ι)) (r : Record ν π ι) : List (Fact ν π ι) :=
  if r.isIN then
    if r.ttl = 0 then known.filter (· ≠ r.fact) else r.fact :: known
  else known

/-- The records of a packet are heard in order, and nothing is ever too old. -/
def noting (contents : ρ → List (Record ν π ι)) :
    Listener ρ (List (Fact ν π ι)) ν π ι where
  fresh := []
  hear known p := (contents p).foldl hearRecord known
  expire known := known
  knows known fact := fact ∈ known
  resolves known := Resolvable (· ∈ known)

variable {known : List (Fact ν π ι)} {fact : Fact ν π ι} {rs : List (Record ν π ι)}

theorem mem_hearRecord {r : Record ν π ι} :
    fact ∈ hearRecord known r ↔ r.States fact ∨ fact ∈ known ∧ ¬r.Withdraws fact := by
  unfold hearRecord
  by_cases hclass : r.isIN = true
  · rw [if_pos hclass]
    split
    · rename_i httl
      rw [List.mem_filter, decide_eq_true_iff]
      constructor
      · rintro ⟨hmem, hne⟩
        exact Or.inr ⟨hmem, fun hw => hne hw.fact.symm⟩
      · rintro (hs | ⟨hmem, hw⟩)
        · exact absurd httl hs.alive
        · exact ⟨hmem, fun heq => hw ⟨heq.symm, hclass, httl⟩⟩
    · rename_i httl
      rw [List.mem_cons]
      constructor
      · rintro (rfl | hmem)
        · exact Or.inl ⟨rfl, hclass, httl⟩
        · exact Or.inr ⟨hmem, fun hw => httl hw.gone⟩
      · rintro (hs | ⟨hmem, -⟩)
        · exact Or.inl hs.fact.symm
        · exact Or.inr hmem
  · rw [if_neg hclass]
    constructor
    · exact fun hmem => Or.inr ⟨hmem, fun hw => hclass hw.inClass⟩
    · rintro (hs | ⟨hmem, -⟩)
      · exact absurd hs.inClass hclass
      · exact hmem

theorem foldl_hearRecord_of_mem (h : fact ∈ known) (hrest : ∀ r ∈ rs, ¬r.Withdraws fact) :
    fact ∈ rs.foldl hearRecord known := by
  induction rs generalizing known with
  | nil => exact h
  | cons r rs ih =>
      exact ih (mem_hearRecord.mpr (Or.inr ⟨h, hrest r List.mem_cons_self⟩))
        fun r' hr' => hrest r' (List.mem_cons_of_mem _ hr')

theorem mem_foldl_hearRecord (h : fact ∈ rs.foldl hearRecord known) :
    (∃ r ∈ rs, r.States fact) ∨ fact ∈ known ∧ ∀ r ∈ rs, ¬r.Withdraws fact := by
  induction rs generalizing known with
  | nil => exact Or.inr ⟨h, fun _ hr => absurd hr List.not_mem_nil⟩
  | cons r rs ih =>
      rcases ih h with ⟨r', hr', hstates⟩ | ⟨hmem, hrest⟩
      · exact Or.inl ⟨r', List.mem_cons_of_mem _ hr', hstates⟩
      · rcases mem_hearRecord.mp hmem with hstates | ⟨hmem, hr⟩
        · exact Or.inl ⟨r, List.mem_cons_self, hstates⟩
        · exact Or.inr ⟨hmem, List.forall_mem_cons.mpr ⟨hr, hrest⟩⟩

theorem noting_lawful (contents : ρ → List (Record ν π ι)) : (noting contents).Lawful contents where
  fresh _ := List.not_mem_nil
  only := fun h => (mem_foldl_hearRecord h).symm.imp_left And.left
  learns := by
    rintro s p fact ⟨r, hr, hstates⟩ hone
    obtain ⟨before, after, heq⟩ := List.append_of_mem hr
    have hafter : ∀ r' ∈ after, ¬r'.Withdraws fact := fun r' hr' hw =>
      hone r' (heq ▸ List.mem_append_right _ (List.mem_cons_of_mem _ hr')) (Or.inl hw)
    change fact ∈ (contents p).foldl hearRecord s
    rw [heq, List.foldl_append, List.foldl_cons]
    exact foldl_hearRecord_of_mem (mem_hearRecord.mpr (Or.inl hstates)) hafter
  keeps := fun h hone => foldl_hearRecord_of_mem h fun r hr hw => hone r hr (Or.inl hw)
  leaves := by
    rintro s p fact ⟨r, hr, hw⟩ hone hmem
    rcases mem_foldl_hearRecord hmem with ⟨r', hr', hstates⟩ | ⟨-, hrest⟩
    · exact hone r' hr' hstates
    · exact hrest r hr hw
  expires := id
  resolves := Iff.rfl

end Noting

end Iriseus.Verified.ResourceRecords
