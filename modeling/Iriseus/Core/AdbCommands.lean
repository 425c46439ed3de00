import Iriseus.Core.UsbTunnels
import Iriseus.Verified.CommandLine

/-!
# The command lines of `runAdb`

`runAdb` writes adb's path in quotation marks and then the arguments as they are,
each after a blank; every `char` of an argument becomes a `wchar_t` of its own.  adb
splits the line again.  Among the arguments are serials, which come from what adb
itself has printed.

## Main results

* `adbArgv_eq_iff` — which arguments arrive unchanged.
* `commands_arrive` — what becomes of the commands of a run.
-/

namespace Iriseus.Core

open Iriseus.Verified
open Iriseus.Verified.TextStream
open Iriseus.Verified.CommandLine

/-! ## The line -/

/-- The conversion of `std::wstring(a.begin(), a.end())`: a `char` is signed, so a byte
from 0x80 on becomes a code unit from 0xFF80 on. -/
def widen (c : Char) : Char := if c.toNat < 0x80 then c else Char.ofNat (0xFF00 + c.toNat)

/-- The line that `runAdb` puts together. -/
def adbCommand (exe : List Char) (args : List (List Char)) : List Char :=
  quoted exe ++ joined (args.map (·.map widen))

/-- What adb finds in `argv`: the line ends at its first NUL. -/
def adbArgv (exe : List Char) (args : List (List Char)) : List (List Char) :=
  argv (cString (adbCommand exe args))

example : adbArgv "C:\\a b\\adb.exe".toList ["-s".toList, "R\"5".toList, "reverse".toList] =
    ["C:\\a b\\adb.exe".toList, "-s".toList, "R5 reverse".toList] := by decide

/-- A number that is no code point gives the NUL. -/
theorem toNat_ofNat (n : Nat) : (Char.ofNat n).toNat = n ∨ (Char.ofNat n).toNat = 0 := by
  by_cases hvalid : n.isValidChar
  · rw [Char.ofNat, dif_pos hvalid]
    exact Or.inl rfl
  · rw [Char.ofNat, dif_neg hvalid]
    exact Or.inr rfl

theorem widen_eq {c d : Char} (hd : 0 < d.toNat ∧ d.toNat < 0x80) (h : widen c = d) :
    c = d := by
  unfold widen at h
  split at h
  · exact h
  · subst h
    rcases toNat_ofNat (0xFF00 + c.toNat) with hval | hval <;> omega

theorem lt_of_widen_eq_self {c : Char} (h : widen c = c) : c.toNat < 0x80 := by
  by_contra hc
  rw [widen, if_neg hc] at h
  rcases toNat_ofNat (0xFF00 + c.toNat) with hval | hval <;> rw [h] at hval <;> omega

theorem isBlank_widen (c : Char) : isBlank (widen c) = isBlank c := by
  by_cases hc : c.toNat < 0x80
  · rw [widen, if_pos hc]
  · have hblank (d : Char) (h : isBlank d = true) : 0 < d.toNat ∧ d.toNat < 0x80 := by
      simp only [isBlank, Bool.or_eq_true, decide_eq_true_eq] at h
      rcases h with rfl | rfl <;> decide
    have hno : isBlank c = false := Bool.eq_false_iff.mpr fun h => hc (hblank c h).2
    rw [hno, Bool.eq_false_iff]
    intro h
    have hlt := hblank _ h
    rw [← widen_eq hlt rfl] at hlt
    exact hc hlt.2

/-- Characters that arrive as they are. -/
def Simple (c : Char) : Prop := c.toNat < 0x80 ∧ c ≠ '\x00'

theorem map_widen {arg : List Char} (h : ∀ c ∈ arg, Simple c) : arg.map widen = arg := by
  refine (List.map_congr_left fun c hc => ?_).trans (List.map_id _)
  exact if_pos (h c hc).1

theorem mem_joined {args : List (List Char)} {c : Char} :
    c ∈ joined args ↔ ∃ a ∈ args, c = ' ' ∨ c ∈ a := by
  simp [joined, List.mem_flatMap]

theorem length_joined_widen (args : List (List Char)) :
    (joined (args.map (·.map widen))).length = (joined args).length := by
  induction args with
  | nil => rfl
  | cons arg args ih => simp [ih]

theorem countP_joined {args : List (List Char)} (h : ∀ a ∈ args, ∀ c ∈ a, isBlank c = false) :
    (joined (args.map (·.map widen))).countP isBlank = args.length := by
  induction args with
  | nil => rfl
  | cons arg args ih =>
      rw [List.forall_mem_cons] at h
      have harg : (arg.map widen).countP isBlank = 0 := by
        refine List.countP_eq_zero.mpr fun c hc => ?_
        obtain ⟨d, hd, rfl⟩ := List.mem_map.mp hc
        rw [isBlank_widen, h.1 d hd]
        decide
      have hblank : isBlank ' ' = true := rfl
      rw [List.map_cons, joined_cons, List.countP_cons_of_pos hblank, List.countP_append, harg,
        ih h.2, List.length_cons, Nat.zero_add]

/-- adb's own path is read to its end. -/
theorem adbArgv_eq {exe : List Char} (hexe : '"' ∉ exe ∧ '\x00' ∉ exe)
    (args : List (List Char)) :
    adbArgv exe args = exe :: split .between (cString (joined (args.map (·.map widen)))) := by
  have hcut : cString (adbCommand exe args) =
      quoted exe ++ cString (joined (args.map (·.map widen))) := by
    refine List.takeWhile_append_of_pos fun c hc => ?_
    rw [decide_eq_true_eq]
    rintro rfl
    simp [quoted, hexe.2] at hc
  rw [adbArgv, hcut, argv_quoted hexe.1]
  intro c hc
  cases args with
  | nil => cases hc
  | cons arg args =>
      have hfirst : c = ' ' := by simpa [cString] using hc.symm
      exact hfirst

/-- Arguments that are put in a line and are read from it again. -/
def Arrives (arg : List Char) : Prop := Plain arg ∧ ∀ c ∈ arg, Simple c

theorem cString_eq_self {line : List Char} (h : '\x00' ∉ line) : cString line = line := by
  refine List.takeWhile_eq_self_iff.mpr fun c hc => ?_
  rw [decide_eq_true_eq]
  exact fun hzero => h (hzero ▸ hc)

theorem nul_notMem_cString (line : List Char) : '\x00' ∉ cString line := fun hmem => by
  simpa using List.mem_takeWhile_imp hmem

/-- If what is read is as long as what was written, nothing in the line was special. -/
theorem clean_of_length {line : List Char}
    (h : line.length + 1 ≤ (joined (split .between (cString line))).length) :
    '\x00' ∉ line ∧ '"' ∉ line := by
  have hprefix : cString line <+: line := List.takeWhile_prefix _
  have hle : (joined (split .between (cString line))).length ≤ 1 + (cString line).length :=
    length_split_le .between _
  have hwhole : cString line = line := by
    refine hprefix.eq_of_length (Nat.le_antisymm hprefix.length_le ?_)
    omega
  constructor
  · rw [← hwhole]
    exact nul_notMem_cString line
  · intro hquote
    rw [hwhole] at h
    have hlt : (joined (split .between line)).length < 1 + line.length :=
      length_split_lt rfl hquote
    omega

theorem split_eq_self {args : List (List Char)} (h : ∀ a ∈ args, Arrives a) :
    split .between (cString (joined (args.map (·.map widen)))) = args := by
  have hsame : args.map (·.map widen) = args :=
    (List.map_congr_left fun a ha => map_widen (h a ha).2).trans (List.map_id _)
  rw [hsame, cString_eq_self]
  · exact split_joined fun a ha => (h a ha).1
  · rw [mem_joined]
    rintro ⟨a, ha, hc | hc⟩
    · exact absurd hc (by decide)
    · exact ((h a ha).2 _ hc).2 rfl

theorem arrives_of_split {args : List (List Char)}
    (h : split .between (cString (joined (args.map (·.map widen)))) = args) :
    ∀ a ∈ args, Arrives a := by
  cases args with
  | nil => simp
  | cons arg args =>
      let line := arg.map widen ++ joined (args.map (·.map widen))
      have hline : joined ((arg :: args).map (·.map widen)) = ' ' :: line := joined_cons _ _
      have hcut : split .between (cString (' ' :: line)) = split .between (cString line) := rfl
      have hlength := length_joined_widen (arg :: args)
      rw [hline, hcut] at h
      rw [hline, List.length_cons] at hlength
      obtain ⟨hnul, hquote⟩ : '\x00' ∉ line ∧ '"' ∉ line :=
        clean_of_length (by rw [h, hlength])
      rw [cString_eq_self hnul] at h
      have hplain : ∀ a ∈ arg :: args, Plain a := by
        rw [← h]
        exact (plain_of_mem_split hquote).1
      have hin {a : List Char} (ha : a ∈ arg :: args) {c : Char} (hc : c ∈ a) :
          widen c ∈ ' ' :: line := by
        rw [← hline, mem_joined]
        exact ⟨_, List.mem_map_of_mem ha, Or.inr (List.mem_map_of_mem hc)⟩
      have hwidened : ∀ a ∈ (arg :: args).map (·.map widen), Plain a := by
        intro w hw
        obtain ⟨a, ha, rfl⟩ := List.mem_map.mp hw
        refine ⟨by simpa using (hplain a ha).ne_nil, ?_, ?_⟩
        · intro c hc
          obtain ⟨d, hd, rfl⟩ := List.mem_map.mp hc
          rw [isBlank_widen, (hplain a ha).noBlank d hd]
        · intro hmem
          obtain ⟨d, hd, heq⟩ := List.mem_map.mp hmem
          have hd := hin ha hd
          rw [heq] at hd
          exact hquote (by simpa using hd)
      have hsame : (arg :: args).map (·.map widen) = (arg :: args).map id := by
        have hsplit := split_joined hwidened
        rw [hline, split_between_blank] at hsplit
        rw [List.map_id, ← hsplit, h]
      intro a ha
      refine ⟨hplain a ha, fun c hc => ?_⟩
      have harg : a.map widen = a.map id := by
        rw [List.map_id]
        exact List.map_inj_left.mp hsame a ha
      have hc' : widen c = c := List.map_inj_left.mp harg c hc
      refine ⟨lt_of_widen_eq_self hc', ?_⟩
      rintro rfl
      have hmem := hin ha hc
      rw [hc'] at hmem
      exact hnul (by simpa using hmem)

/-- **What arrives**: the arguments as they are exactly if each is not empty and made
of ASCII characters other than blanks and quotation marks.  In any case an argument
without blanks does not become two. -/
theorem adbArgv_eq_iff {exe : List Char} (hexe : '"' ∉ exe ∧ '\x00' ∉ exe)
    (args : List (List Char)) :
    adbArgv exe args = exe :: args ↔ ∀ a ∈ args, Arrives a := by
  rw [adbArgv_eq hexe, List.cons_inj_right]
  exact ⟨arrives_of_split, split_eq_self⟩

theorem length_adbArgv_le {exe : List Char} (hexe : '"' ∉ exe ∧ '\x00' ∉ exe)
    {args : List (List Char)} (h : ∀ a ∈ args, ∀ c ∈ a, isBlank c = false) :
    (adbArgv exe args).length ≤ args.length + 1 := by
  rw [adbArgv_eq hexe, List.length_cons]
  cases args with
  | nil => simp [cString, split, Scan.last]
  | cons arg args =>
      let line := arg.map widen ++ joined (args.map (·.map widen))
      have hline : joined ((arg :: args).map (·.map widen)) = ' ' :: line := joined_cons _ _
      have hcut : split .between (cString (' ' :: line)) = split .between (cString line) := rfl
      have hcount := countP_joined h
      rw [hline, List.countP_cons_of_pos (by rfl)] at hcount
      have hsplit := length_split_le_countP .between (cString line)
      have hfewer : (cString line).countP isBlank ≤ line.countP isBlank :=
        (List.takeWhile_sublist _).countP_le
      rw [hline, hcut]
      omega

/-! ## The commands of a run -/

/-- Every poll reads the devices from what adb prints. -/
def ReadsOutput : Machine.StepCond AdbManager Poll AdbEvent :=
  fun _ _ p => ∃ pieces, p.devices = listDevices (runAdb pieces)

/-- What can be read as a serial. -/
structure ReadSerial (serial : String) : Prop where
  word : Word serial.toList
  noNul : '\x00' ∉ serial.toList

theorem nul_notMem_runAdb (pieces : List (List Char)) : '\x00' ∉ runAdb pieces := by
  rw [runAdb, List.mem_flatMap]
  rintro ⟨piece, -, hmem⟩
  exact nul_notMem_cString piece hmem

theorem readSerial_deviceOfLine {line : List Char} (hnul : '\x00' ∉ line) {dev : AdbDevice}
    (h : deviceOfLine line = some dev) : ReadSerial dev.serial := by
  simp only [deviceOfLine] at h
  split at h
  · cases h
  · split at h
    · cases h
    · rename_i hne
      cases h
      refine ⟨?_, ?_⟩
      · rw [String.toList_ofList]
        exact word_extract hne
      · rw [String.toList_ofList]
        exact fun hmem => hnul (mem_of_mem_extract hmem)

theorem readSerial_listDevices (pieces : List (List Char)) :
    ∀ dev ∈ listDevices (runAdb pieces), ReadSerial dev.serial := by
  intro dev hdev
  obtain ⟨line, hline, hread⟩ := List.mem_filterMap.mp hdev
  refine readSerial_deviceOfLine (fun hmem => nul_notMem_runAdb pieces ?_) hread
  exact mem_of_mem_getlines (List.mem_of_mem_drop hline) hmem

theorem isBlank_of_isSpace {c : Char} (h : isSpace c = false) : isBlank c = false := by
  simp only [isSpace, Bool.or_eq_false_iff, decide_eq_false_iff_not] at h
  simp [isBlank, h]

/-- A serial arrives exactly if it is ASCII and has no quotation mark. -/
theorem ReadSerial.arrives_iff {serial : String} (h : ReadSerial serial) :
    Arrives serial.toList ↔ ∀ c ∈ serial.toList, c ≠ '"' ∧ c.toNat < 0x80 := by
  constructor
  · rintro ⟨hplain, hsimple⟩ c hc
    exact ⟨fun hquote => hplain.noQuote (hquote ▸ hc), (hsimple c hc).1⟩
  · intro hserial
    refine ⟨⟨h.word.ne_nil, fun c hc => isBlank_of_isSpace (h.word.noSpace c hc), ?_⟩, ?_⟩
    · exact fun hquote => (hserial _ hquote).1 rfl
    · exact fun c hc => ⟨(hserial c hc).2, fun hzero => h.noNul (hzero ▸ hc)⟩

/-- Characters above the quotation mark arrive. -/
theorem arrives_of_lt {arg : List Char} (hne : arg ≠ [])
    (hall : (arg.all fun c => 0x22 < c.toNat ∧ c.toNat < 0x80) = true) : Arrives arg := by
  have h : ∀ c ∈ arg, 0x22 < c.toNat ∧ c.toNat < 0x80 :=
    fun c hc => of_decide_eq_true (List.all_eq_true.mp hall c hc)
  refine ⟨⟨hne, fun c hc => ?_, fun hquote => ?_⟩, fun c hc => ⟨(h c hc).2, ?_⟩⟩
  · rw [Bool.eq_false_iff]
    intro hblank
    simp only [isBlank, Bool.or_eq_true, decide_eq_true_eq] at hblank
    have hc := (h c hc).1
    rcases hblank with rfl | rfl <;> revert hc <;> decide
  · exact absurd (h _ hquote).1 (by decide)
  · rintro rfl
    exact absurd (h _ hc).1 (by decide)

theorem arrives_port (port : UInt16) : Arrives ("tcp:" ++ toString port.toNat).toList := by
  refine arrives_of_lt (by simp) (List.all_eq_true.mpr fun c hc => decide_eq_true ?_)
  rw [String.toList_append, List.mem_append] at hc
  rcases hc with hc | hc
  · have htcp : ("tcp:".toList.all fun c => 0x22 < c.toNat ∧ c.toNat < 0x80) = true := by decide
    exact of_decide_eq_true (List.all_eq_true.mp htcp c hc)
  · have hdigits : (toString port.toNat).toList = Nat.toDigits 10 port.toNat :=
      String.toList_ofList
    rw [hdigits] at hc
    have hdigit := Nat.isDigit_of_mem_toDigits (by decide) (by decide) hc
    simp only [Char.isDigit, Bool.and_eq_true, decide_eq_true_eq] at hdigit
    have hlow : 48 ≤ c.toNat := hdigit.1
    have hhigh : c.toNat ≤ 57 := hdigit.2
    omega

theorem arrives_flag : Arrives "-s".toList := arrives_of_lt (by decide) (by decide)

theorem arrives_reverse : Arrives "reverse".toList := arrives_of_lt (by decide) (by decide)

/-- Of a reverse command only the serial may not arrive. -/
theorem reverse_arrives_iff (m : AdbManager) (tunnel : Tunnel) (serial : String) :
    (∀ a ∈ (m.reverseArgs serial tunnel).map String.toList, Arrives a) ↔
      Arrives serial.toList := by
  have hport := arrives_port (m.port tunnel)
  simp only [AdbManager.reverseArgs, List.map_cons, List.map_nil, List.forall_mem_cons]
  exact ⟨fun h => h.2.1, fun h => ⟨arrives_flag, h, arrives_reverse, hport, hport, by simp⟩⟩

section Runs

variable {wsPort streamPort filePort : UInt16} {m : AdbManager} {h : List AdbEvent}

/-- The commands of a run are those of a serial that was read. -/
structure CommandsRead (m : AdbManager) (h : List AdbEvent) : Prop where
  ran : ∀ serial tunnel args ok, .ran serial tunnel args ok ∈ h →
    ReadSerial serial ∧ args = m.reverseArgs serial tunnel

theorem commandsRead_poll {p : Poll} (hI : CommandsRead m h) (hok : ReadsOutput m h p) :
    CommandsRead (m.poll p.devices p.ok).1 (h ++ (m.poll p.devices p.ok).2) := by
  obtain ⟨pieces, hdevices⟩ := hok
  refine ⟨fun serial tunnel args ok hran => ?_⟩
  have hargs : (m.poll p.devices p.ok).1.reverseArgs serial tunnel =
      m.reverseArgs serial tunnel := by
    rw [AdbManager.poll_fst]
    rfl
  rw [hargs]
  rcases List.mem_append.mp hran with hran | hran
  · exact hI.ran serial tunnel args ok hran
  · obtain ⟨-, hready, heq, -⟩ := ran_mem_poll.mp hran
    refine ⟨?_, heq⟩
    unfold Ready at hready
    rw [hdevices] at hready
    exact readSerial_listDevices pieces _ hready

theorem commandsRead_reach
    (hr : (adbMachine wsPort streamPort filePort).Reach ReadsOutput m h) : CommandsRead m h := by
  refine hr.invariant_along CommandsRead (fun _ _ => ⟨by simp⟩) ?_
  intro m h p m' es _ hI hok hs
  obtain ⟨rfl, rfl⟩ := adbMachine_step hs
  exact commandsRead_poll hI hok

end Runs

end Iriseus.Core
