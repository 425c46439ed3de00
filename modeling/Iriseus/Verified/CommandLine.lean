import Mathlib.Data.List.TakeWhile

/-!
# Command lines

A program on Windows gets its arguments as one text and splits it by the rules of
its C runtime.  Blanks separate arguments.  A quotation mark begins or ends a part
in which blanks do not count; two in a row inside such a part are a literal one.
Backslashes stand for themselves, except before a quotation mark: there each pair
is one backslash, and one left over makes the mark literal.  The program's own
name is read more simply: in it a backslash is never special.

## Main results

* `length_split_lt` — a quotation mark costs the arguments a character.
* `length_split_le_countP` — there are no more arguments than blanks allow.
* `split_joined` — arguments without blanks and quotation marks are split as they
  were joined.
* `argv_quoted` — a program's name in quotation marks is read to its end.
-/

namespace Iriseus.Verified.CommandLine

def isBlank (c : Char) : Bool := c = ' ' || c = '\t'

/-! ## The scanner -/

/-- Where the scanner stands: between two arguments, or in one of which it has read
`text`. -/
inductive Scan where
  | between
  /-- `slashes` backslashes have just been read and are not in `text` yet. -/
  | inside (quoted : Bool) (slashes : Nat) (text : List Char)
  /-- A quotation mark has just been read in a quoted part. -/
  | closing (text : List Char)
  deriving DecidableEq, Repr

/-- A character of an argument, and the argument it completes. -/
def readChar (quoted : Bool) (slashes : Nat) (text : List Char) (c : Char) :
    Scan × Option (List Char) :=
  if c = '\\' then (.inside quoted (slashes + 1) text, none)
  else if c = '"' then
    let text := text ++ List.replicate (slashes / 2) '\\'
    if slashes % 2 = 1 then (.inside quoted 0 (text ++ ['"']), none)
    else if quoted then (.closing text, none)
    else (.inside true 0 text, none)
  else if isBlank c && !quoted then (.between, some (text ++ List.replicate slashes '\\'))
  else (.inside quoted 0 (text ++ List.replicate slashes '\\' ++ [c]), none)

def Scan.next : Scan → Char → Scan × Option (List Char)
  | .between, c => if isBlank c then (.between, none) else readChar false 0 [] c
  | .inside quoted slashes text, c => readChar quoted slashes text c
  | .closing text, c =>
      if c = '"' then (.inside true 0 (text ++ ['"']), none) else readChar false 0 text c

/-- The argument that the end of the line completes. -/
def Scan.last : Scan → Option (List Char)
  | .between => none
  | .inside _ slashes text => some (text ++ List.replicate slashes '\\')
  | .closing text => some text

/-- The arguments read from here on. -/
def split : Scan → List Char → List (List Char)
  | s, [] => s.last.toList
  | s, c :: line => (s.next c).2.toList ++ split (s.next c).1 line

/-- The program's name, and the line after it. -/
def splitProgram : Bool → List Char → List Char × List Char
  | _, [] => ([], [])
  | quoted, c :: line =>
      if c = '"' then splitProgram (!quoted) line
      else if isBlank c && !quoted then ([], line)
      else
        let r := splitProgram quoted line
        (c :: r.1, r.2)

/-- What a program finds in `argv`. -/
def argv (line : List Char) : List (List Char) :=
  let r := splitProgram false line
  r.1 :: split .between r.2

example : argv "\"C:\\a b\\adb.exe\" -s \"x y\"  \\\"z\\\\\" \"\"".toList =
    ["C:\\a b\\adb.exe".toList, "-s".toList, "x y".toList, "\"z\\ \"".toList] := by decide

/-! ## Nothing is added -/

/-- Arguments with a blank before each. -/
def joined (args : List (List Char)) : List Char := args.flatMap (' ' :: ·)

@[simp] theorem joined_nil : joined [] = [] := rfl

@[simp] theorem joined_cons (arg : List Char) (args : List (List Char)) :
    joined (arg :: args) = ' ' :: (arg ++ joined args) := by
  simp [joined]

theorem joined_append (args more : List (List Char)) :
    joined (args ++ more) = joined args ++ joined more :=
  List.flatMap_append

/-- What the scanner has read that may still become part of an argument, with the
blank before it. -/
def Scan.held : Scan → Nat
  | .between => 1
  | .inside _ slashes text => text.length + slashes + 1
  | .closing text => text.length + 1

/-- A character adds at most itself, a quotation mark that is read like any other
character nothing. -/
theorem held_readChar (quoted : Bool) (slashes : Nat) (text : List Char) (c : Char) :
    (joined (readChar quoted slashes text c).2.toList).length +
        (readChar quoted slashes text c).1.held + (if c = '"' then 1 else 0) ≤
      text.length + slashes + 2 := by
  unfold readChar
  split
  · rename_i hc
    subst hc
    simp [Scan.held]
    omega
  · split
    · have hhalf : slashes / 2 ≤ slashes := Nat.div_le_self _ _
      dsimp only
      split
      · simp [Scan.held]
        omega
      · split <;> simp [Scan.held] <;> omega
    · split
      · simp [Scan.held]
      · simp [Scan.held]
        omega

theorem held_next (s : Scan) (c : Char) :
    (joined (s.next c).2.toList).length + (s.next c).1.held ≤ s.held + 1 := by
  cases s with
  | between =>
      have hread := held_readChar false 0 [] c
      rw [Scan.next]
      split
      · simp [Scan.held]
      · simp only [Scan.held, List.length_nil] at hread ⊢
        omega
  | inside quoted slashes text =>
      have hread := held_readChar quoted slashes text c
      simp only [Scan.next, Scan.held] at hread ⊢
      omega
  | closing text =>
      have hread := held_readChar false 0 text c
      rw [Scan.next]
      split
      · simp [Scan.held]
      · simp only [Scan.held] at hread ⊢
        omega

theorem length_last (s : Scan) : (joined s.last.toList).length ≤ s.held := by
  cases s <;> simp [Scan.last, Scan.held]

/-- Joined again the arguments are no longer than the line and the blank before it. -/
theorem length_split_le (s : Scan) (line : List Char) :
    (joined (split s line)).length ≤ s.held + line.length := by
  induction line generalizing s with
  | nil => exact length_last s
  | cons c line ih =>
      have hnext := held_next s c
      have hrest := ih (s.next c).1
      rw [split, joined_append, List.length_append, List.length_cons]
      omega

/-- Outside a quoted part that may just have ended. -/
def Scan.settled : Scan → Bool
  | .closing _ => false
  | _ => true

theorem settled_next {s : Scan} {c : Char} (hs : s.settled = true) (hc : c ≠ '"') :
    (s.next c).1.settled = true := by
  have hread (quoted : Bool) (slashes : Nat) (text : List Char) :
      (readChar quoted slashes text c).1.settled = true := by
    unfold readChar
    (repeat' split) <;> rfl
  cases s with
  | between =>
      rw [Scan.next]
      split
      · rfl
      · exact hread false 0 []
  | inside quoted slashes text => exact hread quoted slashes text
  | closing text => cases hs

/-- **A quotation mark costs a character**, whatever it is read as. -/
theorem length_split_lt {s : Scan} {line : List Char} (hs : s.settled = true)
    (hquote : '"' ∈ line) : (joined (split s line)).length < s.held + line.length := by
  induction line generalizing s with
  | nil => cases hquote
  | cons c line ih =>
      rw [split, joined_append, List.length_append, List.length_cons]
      by_cases hc : c = '"'
      · subst hc
        have hrest := length_split_le (s.next '"').1 line
        have hnext : (joined (s.next '"').2.toList).length + (s.next '"').1.held ≤ s.held := by
          cases s with
          | between => decide
          | inside quoted slashes text =>
              have hread := held_readChar quoted slashes text '"'
              rw [if_pos rfl] at hread
              simp only [Scan.next, Scan.held] at hread ⊢
              omega
          | closing text => cases hs
        omega
      · have hrest := ih (settled_next hs hc) (by simpa [Ne.symm hc] using hquote)
        have hnext := held_next s c
        omega

/-- No more arguments than blanks, and one. -/
theorem length_split_le_countP (s : Scan) (line : List Char) :
    (split s line).length ≤ line.countP isBlank + 1 := by
  induction line generalizing s with
  | nil => cases s <;> simp [split, Scan.last]
  | cons c line ih =>
      have hread (quoted : Bool) (slashes : Nat) (text : List Char) :
          (readChar quoted slashes text c).2.toList.length ≤ if isBlank c then 1 else 0 := by
        unfold readChar
        split
        · simp
        · split
          · dsimp only
            (repeat' split) <;> simp
          · split <;> simp_all
      have hnext : (s.next c).2.toList.length ≤ if isBlank c then 1 else 0 := by
        cases s with
        | between =>
            have hfirst := hread false 0 []
            rw [Scan.next]
            cases hblank : isBlank c with
            | true => simp
            | false => simpa [hblank] using hfirst
        | inside quoted slashes text => exact hread quoted slashes text
        | closing text =>
            rw [Scan.next]
            split
            · simp
            · exact hread false 0 text
      have hrest := ih (s.next c).1
      rw [split, List.length_append, List.countP_cons]
      omega

/-! ## Plain arguments -/

/-- An argument that stands for itself. -/
structure Plain (arg : List Char) : Prop where
  ne_nil : arg ≠ []
  noBlank : ∀ c ∈ arg, isBlank c = false
  noQuote : '"' ∉ arg

/-- The scanner has read `text` of an argument, outside of quoted parts. -/
structure Scan.HasRead (s : Scan) (text : List Char) : Prop where
  isInside : ∃ slashes before, s = .inside false slashes before ∧
    text = before ++ List.replicate slashes '\\'

namespace Scan.HasRead

variable {s : Scan} {text : List Char}

theorem next_char (h : s.HasRead text) {c : Char} (hblank : isBlank c = false)
    (hquote : c ≠ '"') : (s.next c).2 = none ∧ (s.next c).1.HasRead (text ++ [c]) := by
  obtain ⟨slashes, before, rfl, rfl⟩ := h.isInside
  by_cases hc : c = '\\'
  · subst hc
    refine ⟨rfl, ⟨slashes + 1, before, rfl, ?_⟩⟩
    rw [List.replicate_succ', List.append_assoc]
  · simp only [Scan.next, readChar, hc, hquote, hblank, if_false, Bool.false_and,
      Bool.false_eq_true]
    exact ⟨trivial, ⟨0, _, rfl, by simp⟩⟩

theorem next_blank (h : s.HasRead text) {c : Char} (hblank : isBlank c = true) :
    s.next c = (.between, some text) := by
  obtain ⟨slashes, before, rfl, rfl⟩ := h.isInside
  have hslash : c ≠ '\\' := by
    rintro rfl
    exact absurd hblank (by decide)
  have hquote : c ≠ '"' := by
    rintro rfl
    exact absurd hblank (by decide)
  simp [Scan.next, readChar, hslash, hquote, hblank]

theorem last_eq (h : s.HasRead text) : s.last = some text := by
  obtain ⟨slashes, before, rfl, rfl⟩ := h.isInside
  rfl

/-- The rest of a plain argument is read to its end. -/
theorem split_append (h : s.HasRead text) {word : List Char}
    (hblank : ∀ c ∈ word, isBlank c = false) (hquote : '"' ∉ word) (line : List Char) :
    ∃ s', Scan.HasRead s' (text ++ word) ∧ split s (word ++ line) = split s' line := by
  induction word generalizing s text with
  | nil => exact ⟨s, by rwa [List.append_nil], rfl⟩
  | cons c word ih =>
      rw [List.forall_mem_cons] at hblank
      rw [List.mem_cons, not_or] at hquote
      obtain ⟨hnone, hread⟩ := h.next_char hblank.1 (Ne.symm hquote.1)
      obtain ⟨s', hs', hsplit⟩ := ih hread hblank.2 hquote.2
      refine ⟨s', by simpa using hs', ?_⟩
      rw [List.cons_append, split, hnone, hsplit]
      rfl

end Scan.HasRead

/-- The first character of a plain argument. -/
theorem hasRead_first {c : Char} (hblank : isBlank c = false) (hquote : c ≠ '"') :
    (Scan.between.next c).2 = none ∧ (Scan.between.next c).1.HasRead [c] := by
  have hstart : Scan.HasRead (.inside false 0 []) [] := ⟨0, [], rfl, rfl⟩
  have hnext : Scan.between.next c = Scan.next (.inside false 0 []) c := by
    rw [Scan.next, hblank]
    rfl
  rw [hnext]
  exact hstart.next_char hblank hquote

@[simp] theorem split_between_blank (line : List Char) :
    split .between (' ' :: line) = split .between line := rfl

/-- **Plain arguments are split as they were joined.** -/
theorem split_joined {args : List (List Char)} (h : ∀ a ∈ args, Plain a) :
    split .between (joined args) = args := by
  induction args with
  | nil => rfl
  | cons arg args ih =>
      rw [List.forall_mem_cons] at h
      obtain ⟨c, word, rfl⟩ := List.exists_cons_of_ne_nil h.1.ne_nil
      have hblank := List.forall_mem_cons.mp h.1.noBlank
      have hquote := h.1.noQuote
      rw [List.mem_cons, not_or] at hquote
      obtain ⟨hnone, hread⟩ := hasRead_first hblank.1 (Ne.symm hquote.1)
      obtain ⟨s, hs, hsplit⟩ := hread.split_append hblank.2 hquote.2 (joined args)
      have hfirst : split .between (joined ((c :: word) :: args)) = split s (joined args) := by
        rw [joined_cons, split_between_blank, List.cons_append, split, hnone, hsplit]
        rfl
      rw [hfirst]
      cases args with
      | nil => simp [split, hs.last_eq]
      | cons arg' args =>
          have hrest := ih h.2
          rw [joined_cons, split_between_blank] at hrest
          rw [joined_cons, split, hs.next_blank (by decide), hrest]
          rfl

/-- In a line without quotation marks there are only plain arguments. -/
theorem plain_of_mem_split {line : List Char} (hquote : '"' ∉ line) :
    (∀ arg ∈ split .between line, Plain arg) ∧
      ∀ s text, Scan.HasRead s text → Plain text → ∀ arg ∈ split s line, Plain arg := by
  induction line with
  | nil =>
      refine ⟨by simp [split, Scan.last], fun s text hs htext arg harg => ?_⟩
      rw [split, hs.last_eq] at harg
      obtain rfl : arg = text := by simpa using harg
      exact htext
  | cons c line ih =>
      rw [List.mem_cons, not_or] at hquote
      obtain ⟨hbetween, hinside⟩ := ih hquote.2
      constructor
      · intro arg harg
        cases hblank : isBlank c with
        | true =>
            rw [split, Scan.next, if_pos hblank] at harg
            exact hbetween arg harg
        | false =>
            obtain ⟨hnone, hread⟩ := hasRead_first hblank (Ne.symm hquote.1)
            rw [split, hnone] at harg
            refine hinside _ _ hread ⟨by simp, by simpa using hblank, ?_⟩ arg harg
            simpa using hquote.1
      · intro s text hs htext arg harg
        cases hblank : isBlank c with
        | true =>
            rw [split, hs.next_blank hblank] at harg
            rcases List.mem_cons.mp harg with rfl | harg
            · exact htext
            · exact hbetween arg harg
        | false =>
            obtain ⟨hnone, hread⟩ := hs.next_char hblank (Ne.symm hquote.1)
            rw [split, hnone] at harg
            refine hinside _ _ hread ⟨by simp, ?_, ?_⟩ arg harg
            · intro d hd
              rcases List.mem_append.mp hd with hd | hd
              · exact htext.noBlank d hd
              · rwa [List.mem_singleton.mp hd]
            · rw [List.mem_append, List.mem_singleton, not_or]
              exact ⟨htext.noQuote, hquote.1⟩

/-! ## The program's name -/

def quoted (program : List Char) : List Char := '"' :: (program ++ ['"'])

theorem splitProgram_quoted {program : List Char} (hquote : '"' ∉ program) (line : List Char) :
    splitProgram true (program ++ '"' :: line) =
      (program ++ (splitProgram false line).1, (splitProgram false line).2) := by
  induction program with
  | nil => rfl
  | cons c program ih =>
      rw [List.mem_cons, not_or] at hquote
      rw [List.cons_append, splitProgram, if_neg (Ne.symm hquote.1), ih hquote.2]
      simp

/-- **A quoted name** is read to its end, and the arguments after the next blank. -/
theorem argv_quoted {program line : List Char} (hquote : '"' ∉ program)
    (hline : ∀ c ∈ line.head?, c = ' ') :
    argv (quoted program ++ line) = program :: split .between line := by
  have hname : splitProgram false (quoted program ++ line) =
      splitProgram true (program ++ '"' :: line) := by
    simp [quoted, splitProgram]
  rw [argv, hname, splitProgram_quoted hquote]
  cases line with
  | nil => simp [splitProgram]
  | cons c line =>
      obtain rfl := hline c rfl
      simp [splitProgram, isBlank]

end Iriseus.Verified.CommandLine
