import Iriseus.Core.AdbManager

/-!
# What adb prints

`adb devices` prints a header and a line for each device.  When it has to start
its daemon first, status lines come before the header, and `runAdb` captures them
in the same pipe.  `listDevices` skips the first line, whatever it is: after a
status line the header is read as a device with serial `List` and state `of`.

## Main results

* `listDevices_reads_iff` — the devices are read back exactly if no status line
  comes before the header.
* `header_is_device` — an output with one status line.
-/

namespace Iriseus.Core

open Iriseus.Verified.TextStream

/-- An output of `adb devices`, with the end of every line. -/
structure AdbOutput where
  /-- What follows the `*` in each status line. -/
  status : List (List Char × LineEnd) := []
  headerEnd : LineEnd
  devices : List (AdbDevice × LineEnd)
  blanks : List LineEnd
  status_lines : ∀ l ∈ status, '\n' ∉ l.1
  words : ∀ d ∈ devices, Word d.1.serial.toList ∧ Word d.1.state.toList

namespace AdbOutput

def header : List Char := "List of devices attached".toList

def statusLine (l : List Char × LineEnd) : List Char × LineEnd := ('*' :: l.1, l.2)

def deviceLine (d : AdbDevice × LineEnd) : List Char × LineEnd :=
  (d.1.serial.toList ++ '\t' :: d.1.state.toList, d.2)

/-- The header and what follows. -/
def listing (o : AdbOutput) : List (List Char × LineEnd) :=
  (header, o.headerEnd) :: (o.devices.map deviceLine ++ o.blanks.map ([], ·))

def text (o : AdbOutput) : List Char := print (o.status.map statusLine ++ o.listing)

/-! ## Its lines -/

theorem newline_notMem_lines (o : AdbOutput) :
    ∀ l ∈ o.status.map statusLine ++ o.listing, '\n' ∉ l.1 := by
  simp only [listing, List.mem_append, List.mem_cons, List.mem_map]
  rintro l (⟨status, hstatus, rfl⟩ | rfl | ⟨dev, hdev, rfl⟩ | ⟨lineEnd, -, rfl⟩)
  · simpa [statusLine] using o.status_lines status hstatus
  · change '\n' ∉ header
    decide
  · obtain ⟨hserial, hstate⟩ := o.words dev hdev
    simp [deviceLine, hserial.newline_notMem, hstate.newline_notMem]
  · simp

theorem getlines_text (o : AdbOutput) :
    getlines o.text = (o.status.map statusLine ++ o.listing).map fun l => l.1 ++ l.2.left :=
  getlines_print o.newline_notMem_lines

theorem isSpace_left (lineEnd : LineEnd) : ∀ c ∈ lineEnd.left, isSpace c = true := by
  cases lineEnd <;> simp [LineEnd.left, isSpace]

/-- The line of a device is read as that device. -/
theorem deviceOfLine_deviceLine {d : AdbDevice × LineEnd}
    (hwords : Word d.1.serial.toList ∧ Word d.1.state.toList) :
    deviceOfLine ((deviceLine d).1 ++ d.2.left) = some d.1 := by
  obtain ⟨⟨serial, state⟩, lineEnd⟩ := d
  obtain ⟨hserial, hstate⟩ := hwords
  let rest := '\t' :: (state.toList ++ lineEnd.left)
  have hline : (deviceLine (⟨serial, state⟩, lineEnd)).1 ++ lineEnd.left =
      [] ++ serial.toList ++ rest := by
    simp [deviceLine, rest]
  have hread : ¬([] ++ serial.toList ++ rest = [] ∨ [] ++ serial.toList ++ rest = ['\r']) := by
    have hmem : '\t' ∈ [] ++ serial.toList ++ rest := by simp [rest]
    rintro (h | h) <;> rw [h] at hmem <;> revert hmem <;> decide
  have hfirst : extract ([] ++ serial.toList ++ rest) = (serial.toList, rest) :=
    extract_word (by simp) hserial (by simp [rest, isSpace])
  have htab : ∀ c ∈ ['\t'], isSpace c = true := by simp [isSpace]
  have hsecond : extract rest = (state.toList, lineEnd.left) :=
    extract_word htab hstate fun c hc => isSpace_left lineEnd c (List.mem_of_mem_head? hc)
  rw [hline, deviceOfLine, if_neg hread]
  simp only [hfirst, hsecond, if_neg hserial.ne_nil, String.ofList_toList]

theorem deviceOfLine_blank (lineEnd : LineEnd) : deviceOfLine ([] ++ lineEnd.left) = none := by
  cases lineEnd <;> rfl

/-- The header is no device, but would be read as one. -/
theorem deviceOfLine_header (lineEnd : LineEnd) :
    deviceOfLine (header ++ lineEnd.left) = some { serial := "List", state := "of" } := by
  cases lineEnd <;> decide

/-- After the header the devices are read, in order, and the blank lines are skipped. -/
theorem devices_of_listing (o : AdbOutput) :
    ((o.listing.drop 1).map fun l => l.1 ++ l.2.left).filterMap deviceOfLine =
      o.devices.map Prod.fst := by
  have hdevices : o.devices.filterMap (fun d => deviceOfLine ((deviceLine d).1 ++ d.2.left)) =
      o.devices.map Prod.fst := by
    rw [← List.filterMap_eq_map]
    exact List.filterMap_congr fun d hd => deviceOfLine_deviceLine (o.words d hd)
  have hblanks : o.blanks.filterMap (fun lineEnd => deviceOfLine ([] ++ lineEnd.left)) = [] :=
    List.filterMap_eq_nil_iff.mpr fun lineEnd _ => deviceOfLine_blank lineEnd
  simp only [listing, List.drop_one, List.tail_cons, List.map_append, List.filterMap_append,
    List.map_map, List.filterMap_map]
  calc
    _ = o.devices.map Prod.fst ++ [] := congrArg₂ (· ++ ·) hdevices hblanks
    _ = o.devices.map Prod.fst := List.append_nil _

/-- Without status lines the header is the line that is skipped. -/
theorem listDevices_text {o : AdbOutput} (hstatus : o.status = []) :
    listDevices o.text = o.devices.map Prod.fst := by
  rw [listDevices, getlines_text, hstatus, List.map_nil, List.nil_append, ← List.map_drop,
    devices_of_listing]

/-- With a status line the header is read as a device before the others. -/
theorem listDevices_text_status {o : AdbOutput} {l : List Char × LineEnd}
    {status : List (List Char × LineEnd)} (hstatus : o.status = l :: status) :
    ∃ before, listDevices o.text =
      before ++ { serial := "List", state := "of" } :: o.devices.map Prod.fst := by
  have hlisting : (o.listing.map fun l => l.1 ++ l.2.left).filterMap deviceOfLine =
      { serial := "List", state := "of" } :: o.devices.map Prod.fst := by
    rw [← devices_of_listing]
    simp only [listing, List.map_cons, List.drop_one, List.tail_cons]
    rw [List.filterMap_cons_some (deviceOfLine_header o.headerEnd)]
  rw [listDevices, getlines_text, hstatus, List.map_cons, List.cons_append, List.map_cons,
    List.drop_one, List.tail_cons, List.map_append, List.filterMap_append, hlisting]
  exact ⟨_, rfl⟩

end AdbOutput

/-- **`listDevices` reads back what adb prints** exactly if it prints no status line
before the header; and `runAdb` captures an output without NULs as it is, in
whatever pieces the pipe delivers it. -/
theorem listDevices_reads_iff (o : AdbOutput) :
    (listDevices o.text = o.devices.map Prod.fst ↔ o.status = []) ∧
      ∀ pieces : List (List Char), '\x00' ∉ o.text → pieces.flatten = o.text →
        runAdb pieces = o.text := by
  constructor
  · constructor
    · intro hread
      cases hstatus : o.status with
      | nil => rfl
      | cons l status =>
          obtain ⟨before, hbefore⟩ := AdbOutput.listDevices_text_status hstatus
          rw [hread] at hbefore
          have hlength := congrArg List.length hbefore
          simp only [List.length_append, List.length_cons] at hlength
          omega
    · exact AdbOutput.listDevices_text
  · rintro pieces hnul hpieces
    rw [← hpieces] at hnul ⊢
    exact runAdb_eq hnul

/-- The daemon has just been started, and no device is attached. -/
theorem header_is_device :
    ¬∀ o : AdbOutput, listDevices o.text = o.devices.map Prod.fst := by
  intro hall
  let o : AdbOutput :=
    { status := [(" daemon started successfully".toList, .crlf)]
      headerEnd := .crlf
      devices := []
      blanks := [.crlf]
      status_lines := by decide
      words := by simp }
  have hread : listDevices o.text = [{ serial := "List", state := "of" }] := by decide
  exact absurd (hread.symm.trans (hall o)) (by simp [o])

end Iriseus.Core
