import Mathlib.Algebra.Group.Int.Defs

/-!
# JSON values as nlohmann::json reads them

The desktop program parses each WebSocket message into a `nlohmann::json`
value and reads it with `value(key, default)`: an absent key gives the
default, a present key of another type throws, and asking anything but an
object throws too.  The parser is third-party code and stays a parameter of
the model; the values it yields and the reading of them are below.
-/

namespace Iriseus.Core

/-- A JSON value.  A floating-point number is `mantissa * 2 ^ exponent`; the
members of an object are found by their first occurrence. -/
inductive Json where
  | null
  | bool (b : Bool)
  | unsigned (n : UInt64)
  | integer (i : Int)
  | float (mantissa exponent : Int)
  | string (s : String)
  | array (elems : List Json)
  | object (fields : List (String × Json))
  deriving Repr

/-- The exceptions `value` throws: 306 asked on a non-object, 302 for a
member of another type. -/
inductive JsonError where
  | invalidUse
  | wrongType
  deriving DecidableEq, Repr

namespace Json

/-- A double truncated towards zero. -/
def truncate (mantissa exponent : Int) : Int :=
  if 0 ≤ exponent then mantissa * 2 ^ exponent.toNat
  else mantissa.tdiv (2 ^ (-exponent).toNat)

def getString : Json → Except JsonError String
  | .string s => .ok s
  | _ => .error .wrongType

def getBool : Json → Except JsonError Bool
  | .bool b => .ok b
  | _ => .error .wrongType

/-- `get<uint64_t>`: a number of any kind through `static_cast`. -/
def getUInt64 : Json → Except JsonError UInt64
  | .unsigned n => .ok n
  | .integer i => .ok (UInt64.ofInt i)
  | .float m e => .ok (UInt64.ofInt (truncate m e))
  | _ => .error .wrongType

/-- `value(key, default)`, reading a present member with `get`. -/
def value {α : Type} (get : Json → Except JsonError α) (j : Json) (key : String)
    (dflt : α) : Except JsonError α :=
  match j with
  | .object fields =>
      match fields.lookup key with
      | some v => get v
      | none => .ok dflt
  | _ => .error .invalidUse

abbrev stringValue (j : Json) (key dflt : String) : Except JsonError String :=
  value getString j key dflt

abbrev boolValue (j : Json) (key : String) (dflt : Bool) : Except JsonError Bool :=
  value getBool j key dflt

abbrev uint64Value (j : Json) (key : String) (dflt : UInt64) :
    Except JsonError UInt64 :=
  value getUInt64 j key dflt

/-! ## When a reading succeeds -/

/-- The member `key` of an object, if it has one. -/
def member (j : Json) (key : String) : Option Json :=
  match j with
  | .object fields => fields.lookup key
  | _ => none

/-- `key` is absent or holds a value that `get` reads. -/
def Readable {α : Type} (get : Json → Except JsonError α) (j : Json) (key : String) :
    Prop :=
  ∀ v ∈ j.member key, (get v).isOk = true

instance {α : Type} (get : Json → Except JsonError α) (j : Json) (key : String) :
    Decidable (Readable get j key) :=
  inferInstanceAs (Decidable (∀ v ∈ j.member key, (get v).isOk = true))

/-- On an object, `value` returns exactly when the member is readable. -/
theorem value_isOk_iff {α : Type} (get : Json → Except JsonError α)
    (fields : List (String × Json)) (key : String) (dflt : α) :
    (value get (.object fields) key dflt).isOk = true ↔
      Readable get (.object fields) key := by
  simp only [value, Readable, member]
  cases h : fields.lookup key with
  | none => simp [Except.isOk, Except.toBool]
  | some v => simp

/-- The text of a member, the empty one where `value(key, "")` throws. -/
def text (j : Json) (key : String) : String :=
  (j.stringValue key "").toOption.getD ""

theorem text_eq {j : Json} {key s : String} (h : j.stringValue key "" = .ok s) :
    j.text key = s := by
  simp [text, h, Except.toOption]

end Json

/-! ## When a sequence of readings succeeds -/

theorem isOk_iff {ε α : Type} (x : Except ε α) :
    x.isOk = true ↔ ∃ a, x = .ok a := by
  cases x <;> simp [Except.isOk, Except.toBool]

theorem isOk_bind {ε α β : Type} (x : Except ε α) (f : α → Except ε β) :
    (x >>= f).isOk = true ↔ ∃ a, x = .ok a ∧ (f a).isOk = true := by
  cases x with
  | error e => simp [bind, Except.bind, Except.isOk, Except.toBool]
  | ok a => simp [bind, Except.bind]

theorem bind_eq_ok {ε α β : Type} (x : Except ε α) (f : α → Except ε β) (b : β) :
    (x >>= f) = .ok b ↔ ∃ a, x = .ok a ∧ f a = .ok b := by
  cases x <;> simp [bind, Except.bind]

theorem mapError_ok {ε ε' α : Type} (f : ε → ε') (a : α) :
    (Except.ok a).mapError f = .ok a := rfl

@[simp] theorem mapError_eq_ok {ε ε' α : Type} (f : ε → ε') (x : Except ε α) (a : α) :
    x.mapError f = .ok a ↔ x = .ok a := by
  cases x with
  | error e => constructor <;> intro h <;> cases h
  | ok b => simp only [mapError_ok, Except.ok.injEq]

end Iriseus.Core
