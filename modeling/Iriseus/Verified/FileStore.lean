import Mathlib.Logic.Function.Basic
import Mathlib.Data.List.Basic
import Iriseus.Verified.ByteStream

/-!
# A file store with names, files and open handles

Regular files live behind file numbers: a name maps to a number, a number to
its bytes.  Opening, writing, closing, removing and renaming act as the
Windows file system does for streams opened without delete sharing: several
handles may be open on one file and write into it, each at its own position,
but a file with an open handle is neither removed nor renamed, and a rename
never replaces an existing name.

`FileOp` lists the operations as data.  `FileOp.hits` is the number of the
file an operation truncates, overwrites, renames away or deletes, if any; the
frame theorems say that every other file keeps its names and its bytes.

## Main results

* `FileOp.apply_wf` — every operation keeps the store well formed: names are
  injective and no number is used before it is handed out.
* `FileOp.bytes_frame`, `FileOp.names_frame` — a file that is not hit keeps
  its bytes and its name.
* `FileOp.names_kept`, `FileOp.bytes_kept` — the same for the file at one name,
  from the names the operation mentions.
* `FileOp.Nameless.apply` — a file that has lost its name never gets one again.
-/

namespace Iriseus.Verified

open Iriseus.Verified.ByteStream

/-- What a partial map holds after an entry is erased, it held elsewhere before. -/
theorem of_update_none {α β : Type} [DecidableEq α] {f : α → Option β} {k k' : α} {b : β}
    (h : Function.update f k none k' = some b) : k' ≠ k ∧ f k' = some b := by
  by_cases hkk : k' = k
  · subst hkk
    simp at h
  · exact ⟨hkk, by rwa [Function.update_of_ne hkk] at h⟩

/-- Names, file contents by file number, the next fresh number, and one entry
for each open handle. -/
structure FileStore (κ : Type) where
  names : κ → Option Nat
  bytes : Nat → Bytes
  next : Nat
  handles : List Nat

namespace FileStore

variable {κ : Type}

/-- The bytes of the file called `k`. -/
def read? (fs : FileStore κ) (k : κ) : Option Bytes := (fs.names k).map fs.bytes

/-- Some file is called `k`. -/
def exists? (fs : FileStore κ) (k : κ) : Bool := (fs.names k).isSome

/-- The number of the file that opening `k` for writing yields. -/
def slot (fs : FileStore κ) (k : κ) : Nat := (fs.names k).getD fs.next

/-- The largest file: offsets are signed 64-bit numbers. -/
def maxFileBytes : Nat := 2 ^ 63 - 1

/-- `data` written at position `pos`; a gap before `pos` reads as zeros, and
writing nothing changes nothing. -/
def overwrite (old : Bytes) (pos : Nat) (data : Bytes) : Bytes :=
  if data = [] then old
  else old.take pos ++ List.replicate (pos - old.length) 0 ++ data
    ++ old.drop (pos + data.length)

/-- `k` can be removed or renamed: it exists and no handle is open on it. -/
def movable (fs : FileStore κ) (k : κ) : Bool :=
  match fs.names k with
  | some i => !fs.handles.contains i
  | none => false

theorem movable_iff {fs : FileStore κ} {k : κ} :
    fs.movable k = true ↔ ∃ i, fs.names k = some i ∧ i ∉ fs.handles := by
  unfold movable
  cases h : fs.names k with
  | none => simp
  | some i => simp

/-- A movable file has a content. -/
theorem read?_of_movable {fs : FileStore κ} {k : κ} (h : fs.movable k = true) :
    ∃ data, fs.read? k = some data := by
  obtain ⟨i, hi, -⟩ := movable_iff.mp h
  exact ⟨fs.bytes i, by rw [read?, hi, Option.map_some]⟩

/-- Names are injective and every number in use was handed out. -/
structure WF (fs : FileStore κ) : Prop where
  nameLt : ∀ k i, fs.names k = some i → i < fs.next
  handleLt : ∀ i, i ∈ fs.handles → i < fs.next
  inj : ∀ k k' i, fs.names k = some i → fs.names k' = some i → k = k'

theorem slot_lt_or_fresh {fs : FileStore κ} (hwf : fs.WF) (k : κ) :
    (∃ i, fs.names k = some i ∧ fs.slot k = i ∧ i < fs.next) ∨
      (fs.names k = none ∧ fs.slot k = fs.next) := by
  cases h : fs.names k with
  | none => exact Or.inr ⟨rfl, by simp [slot, h]⟩
  | some i => exact Or.inl ⟨i, rfl, by simp [slot, h], hwf.nameLt k i h⟩

/-- Writing at the end appends. -/
theorem overwrite_end (old data : Bytes) :
    overwrite old old.length data = old ++ data := by
  unfold overwrite
  split
  · rename_i h
    simp [h]
  · simp

end FileStore

/-! ## Operations as data -/

/-- One operation on the store.  `close` first stores the bytes the stream
still buffers; `create` is a file another program puts at a free name. -/
inductive FileOp (κ : Type) where
  | openTrunc (k : κ)
  | openRead (i : Nat)
  | write (i pos : Nat) (data : Bytes)
  | close (i pos : Nat) (data : Bytes)
  | remove (k : κ)
  | rename (src dst : κ)
  | create (k : κ) (data : Bytes)
  deriving DecidableEq, Repr

namespace FileOp

open FileStore

variable {κ : Type} [DecidableEq κ]

/-- The store after the operation. -/
def apply (fs : FileStore κ) : FileOp κ → FileStore κ
  | .openTrunc k =>
      { names := Function.update fs.names k (some (fs.slot k))
        bytes := Function.update fs.bytes (fs.slot k) []
        next := if fs.exists? k then fs.next else fs.next + 1
        handles := fs.slot k :: fs.handles }
  | .openRead i => { fs with handles := i :: fs.handles }
  | .write i pos data =>
      { fs with bytes := Function.update fs.bytes i (overwrite (fs.bytes i) pos data) }
  | .close i pos data =>
      { fs with
        bytes := Function.update fs.bytes i (overwrite (fs.bytes i) pos data)
        handles := fs.handles.erase i }
  | .remove k =>
      if fs.movable k then { fs with names := Function.update fs.names k none } else fs
  | .rename src dst =>
      if fs.movable src ∧ fs.exists? dst = false then
        { fs with
          names :=
            Function.update (Function.update fs.names src none) dst (fs.names src) }
      else fs
  | .create k data =>
      if fs.exists? k then fs
      else
        { fs with
          names := Function.update fs.names k (some fs.next)
          bytes := Function.update fs.bytes fs.next data
          next := fs.next + 1 }

/-- The file the operation truncates, overwrites, renames away or deletes. -/
def hits (fs : FileStore κ) : FileOp κ → Option Nat
  | .openTrunc k => fs.names k
  | .openRead _ => none
  | .write i _ data => if data = [] then none else some i
  | .close i _ data => if data = [] then none else some i
  | .remove k => if fs.movable k then fs.names k else none
  | .rename src dst =>
      if fs.movable src ∧ fs.exists? dst = false then fs.names src else none
  | .create _ _ => none

/-- The number of the file the operation creates. -/
def makes (fs : FileStore κ) : FileOp κ → Option Nat
  | .openTrunc k => if fs.exists? k then none else some fs.next
  | .create k _ => if fs.exists? k then none else some fs.next
  | _ => none

/-- The name at which the operation may put a file. -/
def puts : FileOp κ → Option κ
  | .openTrunc k => some k
  | .rename _ dst => some dst
  | .create k _ => some k
  | _ => none

/-- The name from which the operation may take a file. -/
def takes : FileOp κ → Option κ
  | .remove k => some k
  | .rename src _ => some src
  | _ => none

/-- The file into which the operation writes through a handle. -/
def writesTo : FileOp κ → Option Nat
  | .write i _ data => if data = [] then none else some i
  | .close i _ data => if data = [] then none else some i
  | _ => none

omit [DecidableEq κ] in
/-- A created file has the next fresh number. -/
theorem makes_eq_next {fs : FileStore κ} {op : FileOp κ} {i : Nat}
    (h : op.makes fs = some i) : i = fs.next := by
  unfold makes at h
  split at h
  · split at h <;> cases h
    rfl
  · split at h <;> cases h
    rfl
  · cases h

/-- The operation uses only numbers that were handed out. -/
def Sane (fs : FileStore κ) : FileOp κ → Prop
  | .openRead i => i < fs.next
  | _ => True

private theorem update_some_cases {f : κ → Option Nat} {k k' : κ} {i j : Nat}
    (h : Function.update f k (some j) k' = some i) :
    (k' = k ∧ j = i) ∨ (k' ≠ k ∧ f k' = some i) := by
  by_cases hkk : k' = k
  · subst hkk
    exact Or.inl ⟨rfl, by simpa using h⟩
  · exact Or.inr ⟨hkk, by rwa [Function.update_of_ne hkk] at h⟩

/-- A name may be given up. -/
theorem unbind_wf {fs : FileStore κ} (hwf : fs.WF) (k : κ) :
    WF { fs with names := Function.update fs.names k none } where
  nameLt k' i h := hwf.nameLt k' i (of_update_none h).2
  handleLt := hwf.handleLt
  inj k₁ k₂ i h₁ h₂ := hwf.inj k₁ k₂ i (of_update_none h₁).2 (of_update_none h₂).2

/-- A name may be bound to a number that no other name has. -/
theorem bind_wf {fs : FileStore κ} (hwf : fs.WF) {k : κ} {i next : Nat}
    {bytes : Nat → Bytes} {handles : List Nat} (hi : i < next) (hnext : fs.next ≤ next)
    (hother : ∀ k', k' ≠ k → fs.names k' ≠ some i) (hhandles : ∀ j, j ∈ handles → j < next) :
    WF { names := Function.update fs.names k (some i)
         bytes := bytes, next := next, handles := handles } := by
  refine { nameLt := ?_, handleLt := hhandles, inj := ?_ }
  · intro k' j h
    rcases update_some_cases h with ⟨-, rfl⟩ | ⟨-, h⟩
    · exact hi
    · exact Nat.lt_of_lt_of_le (hwf.nameLt k' j h) hnext
  · intro k₁ k₂ j h₁ h₂
    rcases update_some_cases h₁ with ⟨hk₁, hi₁⟩ | ⟨hk₁, hi₁⟩ <;>
      rcases update_some_cases h₂ with ⟨hk₂, hi₂⟩ | ⟨hk₂, hi₂⟩
    · rw [hk₁, hk₂]
    · exact absurd (hi₁ ▸ hi₂) (hother k₂ hk₂)
    · exact absurd (hi₂ ▸ hi₁) (hother k₁ hk₁)
    · exact hwf.inj k₁ k₂ j hi₁ hi₂

omit [DecidableEq κ] in
/-- A number in use belongs to one name. -/
theorem names_ne_of_ne {fs : FileStore κ} (hwf : fs.WF) {k : κ} {i : Nat}
    (hk : fs.names k = some i) : ∀ k', k' ≠ k → fs.names k' ≠ some i :=
  fun k' hne hk' => hne (hwf.inj k' k i hk' hk)

omit [DecidableEq κ] in
/-- The next number belongs to no name. -/
theorem names_ne_next {fs : FileStore κ} (hwf : fs.WF) (k : κ) :
    fs.names k ≠ some fs.next :=
  fun hk => Nat.lt_irrefl _ (hwf.nameLt k _ hk)

/-- Every operation on a well-formed store leaves it well formed. -/
theorem apply_wf {fs : FileStore κ} (hwf : fs.WF) (op : FileOp κ)
    (hs : op.Sane fs) : (op.apply fs).WF := by
  cases op with
  | openTrunc k =>
      have hnext : fs.next ≤ (if fs.exists? k then fs.next else fs.next + 1) := by
        split <;> omega
      have hslot : fs.slot k < (if fs.exists? k then fs.next else fs.next + 1) ∧
          ∀ k', k' ≠ k → fs.names k' ≠ some (fs.slot k) := by
        rcases slot_lt_or_fresh hwf k with ⟨i, hk, hsl, hlt⟩ | ⟨hk, hsl⟩
        · rw [hsl]
          exact ⟨Nat.lt_of_lt_of_le hlt hnext, names_ne_of_ne hwf hk⟩
        · rw [hsl]
          exact ⟨by simp [exists?, hk], fun k' _ => names_ne_next hwf k'⟩
      refine bind_wf hwf hslot.1 hnext hslot.2 ?_
      intro i hi
      rcases List.mem_cons.mp hi with rfl | hi
      · exact hslot.1
      · exact Nat.lt_of_lt_of_le (hwf.handleLt i hi) hnext
  | openRead i =>
      refine ⟨hwf.nameLt, ?_, hwf.inj⟩
      intro j hj
      rcases List.mem_cons.mp hj with rfl | hj
      · exact hs
      · exact hwf.handleLt j hj
  | write i pos data => exact ⟨hwf.nameLt, hwf.handleLt, hwf.inj⟩
  | close i pos data =>
      exact ⟨hwf.nameLt, fun j hj => hwf.handleLt j (List.mem_of_mem_erase hj), hwf.inj⟩
  | remove k =>
      simp only [apply]
      split
      · exact unbind_wf hwf k
      · exact hwf
  | rename src dst =>
      simp only [apply]
      split
      · rename_i hmov
        obtain ⟨i, hi, -⟩ := movable_iff.mp hmov.1
        rw [hi]
        refine bind_wf (unbind_wf hwf src) (hwf.nameLt src i hi) (Nat.le_refl _) ?_
          hwf.handleLt
        intro k' _ hk'
        obtain ⟨hne, hold⟩ := of_update_none hk'
        exact names_ne_of_ne hwf hi k' hne hold
      · exact hwf
  | create k data =>
      simp only [apply]
      split
      · exact hwf
      · exact bind_wf hwf (Nat.lt_succ_self _) (Nat.le_succ _)
          (fun k' _ => names_ne_next hwf k') fun i hi => Nat.lt_succ_of_lt (hwf.handleLt i hi)

/-! ## Frames -/

private theorem update_overwrite_of_ne_hit {bytes : Nat → Bytes} {i j pos : Nat}
    {data : Bytes} (hhit : (if data = [] then none else some j) ≠ some i) :
    Function.update bytes j (overwrite (bytes j) pos data) i = bytes i := by
  by_cases hij : i = j
  · subst hij
    have hdata : data = [] := by
      by_contra h
      exact hhit (by simp [h])
    simp [hdata, overwrite]
  · exact Function.update_of_ne hij _ _

/-- Only opening for writing and writing change the bytes of a file in use. -/
theorem bytes_unwritten {fs : FileStore κ} {op : FileOp κ} {i : Nat} (hi : i < fs.next)
    (hopen : ∀ k, op = .openTrunc k → fs.names k ≠ some i)
    (hwrites : op.writesTo ≠ some i) : (op.apply fs).bytes i = fs.bytes i := by
  cases op with
  | openTrunc k =>
      simp only [apply]
      apply Function.update_of_ne
      intro heq
      cases hk : fs.names k with
      | none => simp [slot, hk] at heq; omega
      | some j => exact hopen k rfl (by simp [hk, heq, slot])
  | openRead j => rfl
  | write j pos data => exact update_overwrite_of_ne_hit hwrites
  | close j pos data => exact update_overwrite_of_ne_hit hwrites
  | remove k =>
      simp only [apply]
      split <;> rfl
  | rename src dst =>
      simp only [apply]
      split <;> rfl
  | create k data =>
      simp only [apply]
      split
      · rfl
      · exact Function.update_of_ne (by omega) _ _

/-- A file in use that the operation does not hit keeps its bytes. -/
theorem bytes_frame {fs : FileStore κ} (op : FileOp κ) {i : Nat}
    (hi : i < fs.next) (hhit : op.hits fs ≠ some i) :
    (op.apply fs).bytes i = fs.bytes i := by
  refine bytes_unwritten hi ?_ ?_
  · rintro k rfl
    exact hhit
  · intro hwrites
    apply hhit
    cases op <;> first | exact hwrites | cases hwrites

/-- A name of a file the operation does not hit stays that file's name. -/
theorem names_frame {fs : FileStore κ} (op : FileOp κ) {k : κ} {i : Nat}
    (hk : fs.names k = some i) (hhit : op.hits fs ≠ some i) :
    (op.apply fs).names k = some i := by
  cases op with
  | openTrunc k' =>
      simp only [apply]
      by_cases hkk : k = k'
      · subst hkk
        exact absurd (by simpa [hits] using hk) hhit
      · rw [Function.update_of_ne hkk, hk]
  | openRead j => exact hk
  | write j pos data => exact hk
  | close j pos data => exact hk
  | remove k' =>
      simp only [apply]
      split
      · rename_i hm
        by_cases hkk : k = k'
        · subst hkk
          exact absurd (by simp [hits, hm, hk]) hhit
        · simpa [Function.update_of_ne hkk] using hk
      · exact hk
  | rename src dst =>
      simp only [apply]
      split
      · rename_i hm
        have hks : k ≠ src := by
          rintro rfl
          exact hhit (by simp [hits, hm, hk])
        have hkd : k ≠ dst := by
          rintro rfl
          simp [exists?, hk] at hm
        simpa [Function.update_of_ne hkd, Function.update_of_ne hks] using hk
      · exact hk
  | create k' data =>
      simp only [apply]
      split
      · exact hk
      · rename_i hfree
        have hkk : k ≠ k' := by
          rintro rfl
          simp [exists?, hk] at hfree
        simpa [Function.update_of_ne hkk] using hk

/-! ## One name at a time -/

omit [DecidableEq κ] in
/-- A name is read by its file number. -/
theorem read?_eq_some {fs : FileStore κ} {k : κ} {data : Bytes} :
    fs.read? k = some data ↔ ∃ i, fs.names k = some i ∧ fs.bytes i = data := by
  simp [read?]

/-- A rename that goes through moves the content. -/
theorem read?_rename {fs : FileStore κ} {src dst : κ} (hmov : fs.movable src = true)
    (hfree : fs.exists? dst = false) :
    ((FileOp.rename src dst).apply fs).read? dst = fs.read? src := by
  simp [apply, hmov, hfree, read?]

/-- A name at which the operation puts no file has no new file. -/
theorem names_of_apply {fs : FileStore κ} {op : FileOp κ} {k : κ} {i : Nat}
    (hputs : op.puts ≠ some k) (h : (op.apply fs).names k = some i) :
    fs.names k = some i := by
  cases op with
  | openTrunc k' =>
      have hne : k ≠ k' := fun heq => hputs (congrArg some heq.symm)
      simpa only [apply, Function.update_of_ne hne] using h
  | openRead j => exact h
  | write j pos data => exact h
  | close j pos data => exact h
  | remove k' =>
      simp only [apply] at h
      split at h
      · exact (of_update_none h).2
      · exact h
  | rename src dst =>
      have hne : k ≠ dst := fun heq => hputs (congrArg some heq.symm)
      simp only [apply] at h
      split at h
      · simp only [Function.update_of_ne hne] at h
        exact (of_update_none h).2
      · exact h
  | create k' data =>
      have hne : k ≠ k' := fun heq => hputs (congrArg some heq.symm)
      simp only [apply] at h
      split at h
      · exact h
      · simpa only [Function.update_of_ne hne] using h

/-- A name keeps its file if the operation neither puts a file there nor takes
a movable one away. -/
theorem names_kept {fs : FileStore κ} {op : FileOp κ} {k : κ} {i : Nat}
    (hputs : op.puts ≠ some k) (htakes : op.takes = some k → fs.movable k = false)
    (h : fs.names k = some i) : (op.apply fs).names k = some i := by
  cases op with
  | openTrunc k' =>
      have hne : k ≠ k' := fun heq => hputs (congrArg some heq.symm)
      simpa only [apply, Function.update_of_ne hne] using h
  | openRead j => exact h
  | write j pos data => exact h
  | close j pos data => exact h
  | remove k' =>
      simp only [apply]
      split
      · rename_i hmov
        have hne : k ≠ k' := by
          rintro rfl
          simp [htakes rfl] at hmov
        simpa only [Function.update_of_ne hne] using h
      · exact h
  | rename src dst =>
      have hne : k ≠ dst := fun heq => hputs (congrArg some heq.symm)
      simp only [apply]
      split
      · rename_i hmov
        have hsrc : k ≠ src := by
          rintro rfl
          simp [htakes rfl] at hmov
        simpa only [Function.update_of_ne hne, Function.update_of_ne hsrc] using h
      · exact h
  | create k' data =>
      have hne : k ≠ k' := fun heq => hputs (congrArg some heq.symm)
      simp only [apply]
      split
      · exact h
      · simpa only [Function.update_of_ne hne] using h

/-- The file at a name keeps its bytes if the operation neither puts a file
there nor writes into it. -/
theorem bytes_kept {fs : FileStore κ} (hwf : fs.WF) {op : FileOp κ} {k : κ} {i : Nat}
    (hputs : op.puts ≠ some k) (hwrites : op.writesTo ≠ some i)
    (h : fs.names k = some i) : (op.apply fs).bytes i = fs.bytes i := by
  refine bytes_unwritten (hwf.nameLt k i h) ?_ hwrites
  rintro k' rfl hk'
  exact hputs (congrArg some (hwf.inj k' k i hk' h))

/-- A name at which the operation puts nothing, from which it takes nothing and
into whose file it does not write reads as before. -/
theorem read?_frame {fs : FileStore κ} (hwf : fs.WF) {op : FileOp κ} {k : κ}
    (hputs : op.puts ≠ some k) (htakes : op.takes ≠ some k)
    (hwrites : ∀ i, fs.names k = some i → op.writesTo ≠ some i) :
    (op.apply fs).read? k = fs.read? k := by
  cases hk : fs.names k with
  | none =>
      have hnone : (op.apply fs).names k = none := by
        by_contra hsome
        obtain ⟨i, hi⟩ := Option.ne_none_iff_exists'.mp hsome
        rw [names_of_apply hputs hi] at hk
        cases hk
      rw [read?, read?, hk, hnone]
      rfl
  | some i =>
      rw [read?, read?, names_kept hputs (fun h => absurd h htakes) hk, hk, Option.map_some,
        Option.map_some, bytes_kept hwf hputs (hwrites i hk) hk]

/-- No name leads to file `i`. -/
def Nameless (fs : FileStore κ) (i : Nat) : Prop := ∀ k, fs.names k ≠ some i

/-- A file in use that has lost its name does not get one again. -/
theorem Nameless.apply {fs : FileStore κ} {i : Nat} (hn : Nameless fs i) (hi : i < fs.next)
    (op : FileOp κ) : Nameless (op.apply fs) i := by
  intro k hk
  cases op with
  | openTrunc k' =>
      rcases update_some_cases hk with ⟨-, hslot⟩ | ⟨-, hold⟩
      · cases hname : fs.names k' with
        | none => simp [slot, hname] at hslot; omega
        | some j => exact hn k' (by simpa [slot, hname] using hslot)
      · exact hn k hold
  | openRead j => exact hn k hk
  | write j pos data => exact hn k hk
  | close j pos data => exact hn k hk
  | remove k' =>
      simp only [FileOp.apply] at hk
      split at hk
      · exact hn k (of_update_none hk).2
      · exact hn k hk
  | rename src dst =>
      simp only [FileOp.apply] at hk
      split at hk
      · by_cases hkk : k = dst
        · subst hkk
          exact hn src (by simpa using hk)
        · simp only [Function.update_of_ne hkk] at hk
          exact hn k (of_update_none hk).2
      · exact hn k hk
  | create k' data =>
      simp only [FileOp.apply] at hk
      split at hk
      · exact hn k hk
      · rcases update_some_cases hk with ⟨-, hnext⟩ | ⟨-, hold⟩
        · omega
        · exact hn k hold

/-- A file that is removed has no name any more. -/
theorem nameless_remove {fs : FileStore κ} (hwf : fs.WF) {k : κ} {i : Nat}
    (hhit : (FileOp.remove k).hits fs = some i) :
    Nameless ((FileOp.remove k).apply fs) i := by
  simp only [hits] at hhit
  split at hhit
  · rename_i hmov
    intro k' hk'
    simp only [FileOp.apply, hmov, if_true] at hk'
    obtain ⟨hne, hold⟩ := of_update_none hk'
    exact hne (hwf.inj k' k i hold hhit)
  · cases hhit

/-- The next fresh number never decreases. -/
theorem next_le (fs : FileStore κ) (op : FileOp κ) :
    fs.next ≤ (op.apply fs).next := by
  cases op with
  | openTrunc k =>
      simp only [apply]
      split <;> omega
  | remove k =>
      simp only [apply]
      split <;> exact Nat.le_refl _
  | rename src dst =>
      simp only [apply]
      split <;> exact Nat.le_refl _
  | openRead i => exact Nat.le_refl _
  | write i pos data => exact Nat.le_refl _
  | close i pos data => exact Nat.le_refl _
  | create k data =>
      simp only [apply]
      split
      · exact Nat.le_refl _
      · exact Nat.le_succ _

end FileOp

end Iriseus.Verified
