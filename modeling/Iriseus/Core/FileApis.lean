import Iriseus.Core.OfferedNames
import Iriseus.Verified.CodePage

/-!
# Two libraries, one path

The program opens files with the standard library, which reads a path in the
narrow code page up to its first zero, and tests, removes and renames them with
Qt, which reads the path as Unicode and refuses a zero.

The two readings are the same file exactly for paths of ASCII characters
without a zero.  For other names an upload cannot rename the file it wrote, and
`sendFiles` cannot hash the file it found.

## Main results

* `oneFile_iff` — which paths name one file for both libraries.
* `file_apis_agree_iff` — for which offered names uploads, and for which local
  paths `sendFiles`, work on one file.
-/

namespace Iriseus.Core

open Iriseus.Verified
open Iriseus.Verified.ByteStream

/-- Windows with a narrow code page: the standard library and Qt. -/
def windowsPlatform (cp : CodePage) (downloadLocation homePath : String) :
    Platform String where
  stdKey path := some (String.ofList (cp.narrow path.toList))
  qtKey path := if '\x00' ∈ path.toList then none else some path
  downloadLocation := downloadLocation
  homePath := homePath

/-- The path names one file for both libraries. -/
def OneFile {κ : Type} (P : Platform κ) (path : String) : Prop :=
  ∃ k, P.stdKey path = some k ∧ P.qtKey path = some k

/-- ASCII without a zero. -/
def PlainText (t : String) : Prop := ∀ c ∈ t.toList, PlainChar c

theorem plainText_append {t u : String} : PlainText (t ++ u) ↔ PlainText t ∧ PlainText u := by
  simp only [PlainText, String.toList_append, List.forall_mem_append]

section Windows

variable {cp : CodePage} {downloadLocation homePath : String}

/-- **One file.** -/
theorem oneFile_iff (path : String) :
    OneFile (windowsPlatform cp downloadLocation homePath) path ↔ PlainText path := by
  constructor
  · rintro ⟨k, hstd, hqt⟩
    simp only [windowsPlatform, Option.ite_none_left_eq_some, Option.some.injEq] at hstd hqt
    obtain ⟨hzero, rfl⟩ := hqt
    by_contra hplain
    refine cp.narrow_ne_self hzero hplain ?_
    rw [← String.toList_ofList (l := cp.narrow path.toList), hstd]
  · intro hplain
    refine ⟨path, ?_, ?_⟩
    · simp only [windowsPlatform, cp.narrow_eq_self hplain, String.ofList_toList]
    · exact if_neg fun hzero => (hplain _ hzero).1 rfl

theorem OneFile.qtKey_eq {path : String}
    (h : OneFile (windowsPlatform cp downloadLocation homePath) path) :
    (windowsPlatform cp downloadLocation homePath).qtKey path = some path := by
  obtain ⟨k, -, hqt⟩ := h
  simp only [windowsPlatform, Option.ite_none_left_eq_some] at hqt
  exact if_neg hqt.1

end Windows

section Agreement

variable {κ : Type} (P : Platform κ) (H : IncrementalHash)

/-- The file an upload writes is the one it tests, removes and renames; if it
has been closed and the target is free, it gets the target's name. -/
structure UploadAgrees (s : ActiveTransferSession) : Prop where
  oneFile : OneFile P s.tempFilePath
  renamed : ∀ (v : View κ) (k : κ), P.stdKey s.tempFilePath = some k →
    v.fs.movable k = true → qtExists P v.fs s.targetFilePath = false →
    ∃ dst, P.qtKey s.targetFilePath = some dst ∧
      serve P H v s (.upload (.rename s.targetFilePath)) .go =
        some (.upload (.saved s.targetFilePath), .file (.rename k dst))

/-- Uploads offered under this name agree. -/
def OffersAgree (name : String) : Prop :=
  ∀ (m : FileTransferManager) (sessionId : UInt64) (payload : Json)
    (token : ByteBlock kTokenSize) (offer : FileOffer) (s : ActiveTransferSession),
    FileOffer.from_json payload = .ok offer → offer.name = name →
    .registered s ∈ (m.handleFileOffer P sessionId payload token).2 → UploadAgrees P H s

/-- The file `sendFiles` finds at the path is the one it hashes, and if it can
be read it is offered with its own size and hash. -/
structure SendsAgree (path : String) : Prop where
  oneFile : OneFile P path
  offered : ∀ (m : FileTransferManager) (fs : FileStore κ)
    (draw : FileTransferManager.SendDraw) (sessionId : UInt64) (rest : List String) (k : κ)
    (content : Bytes), m.sending = (sessionId, path :: rest) → P.qtKey path = some k →
    fs.read? k = some content → draw.opens = true → draw.readLimit = none →
    ∃ m' es, m.sendNext P H fs draw = some (m', es) ∧
      .sendTo sessionId (.fileOffer
        (FileTransferManager.makeOffer H path draw content content.length)) ∈ es

variable {P H}

/-- What both libraries call one file is offered. -/
theorem sendsAgree_of_oneFile {path : String} (h : OneFile P path) : SendsAgree P H path := by
  refine { oneFile := h, offered := ?_ }
  intro m fs draw sessionId rest k content hsending hk hcontent hopens hlimit
  obtain ⟨k', hstd, hqt⟩ := h
  cases hk.symm.trans hqt
  simp only [FileTransferManager.sendNext, hsending, hqt, hstd, Option.bind_some, hcontent,
    hopens, hlimit, if_true]
  exact ⟨_, _, rfl, by simp⟩

end Agreement

section Windows

variable (cp : CodePage) (downloadLocation homePath : String) (H : IncrementalHash)

/-- An upload whose temporary path both libraries read alike, and with it the
target, which is its beginning. -/
theorem uploadAgrees_of_oneFile {s : ActiveTransferSession}
    (h : OneFile (windowsPlatform cp downloadLocation homePath) s.tempFilePath) :
    UploadAgrees (windowsPlatform cp downloadLocation homePath) H s := by
  have htarget : OneFile (windowsPlatform cp downloadLocation homePath) s.targetFilePath :=
    (oneFile_iff _).mpr (plainText_append.mp ((oneFile_iff _).mp h)).1
  refine { oneFile := h, renamed := ?_ }
  intro v k hk hmov hfree
  obtain ⟨k', hstd, hqt⟩ := h
  cases hk.symm.trans hstd
  rw [qtExists, htarget.qtKey_eq] at hfree
  refine ⟨s.targetFilePath, htarget.qtKey_eq, ?_⟩
  simp only [serve, serveUpload, hqt, htarget.qtKey_eq]
  exact if_pos ⟨hmov, hfree⟩

theorem offersAgree_iff (name : String) :
    OffersAgree (windowsPlatform cp downloadLocation homePath) H name ↔
      PlainText (FileTransferManager.defaultDownloadDir
        (windowsPlatform cp downloadLocation homePath)) ∧
      PlainText (sanitizeFileName (fromStdString name)) := by
  let P := windowsPlatform cp downloadLocation homePath
  have htemp : ∀ s : ActiveTransferSession,
      s.targetFilePath =
        FileTransferManager.defaultDownloadDir P ++ "/" ++ sanitizeFileName (fromStdString name) →
      (OneFile P s.tempFilePath ↔ PlainText (FileTransferManager.defaultDownloadDir P) ∧
        PlainText (sanitizeFileName (fromStdString name))) := by
    intro s hs
    have hslash : PlainText "/" := by simp [PlainText, PlainChar]
    have hpart : PlainText ".part" := by simp [PlainText, PlainChar]
    rw [oneFile_iff, ActiveTransferSession.tempFilePath, hs, plainText_append,
      plainText_append, plainText_append]
    simp only [hslash, hpart, and_true]
  constructor
  · intro hagrees
    let offer : FileOffer :=
      { transferId := "", name := name, size := 0, mime := "", sha256 := "" }
    have hoffer := from_json_to_json offer
    obtain ⟨s, hs, hall⟩ := handleFileOffer_registered P {} 0 (sampleToken 0) hoffer
    exact (htemp s (hall s hs).2).mp (hagrees _ _ _ _ offer s hoffer rfl hs).oneFile
  · rintro hplain m sessionId payload token offer s hoffer rfl hs
    obtain ⟨s', -, hall⟩ := handleFileOffer_registered P m sessionId token hoffer
    obtain ⟨rfl, htarget⟩ := hall s hs
    exact uploadAgrees_of_oneFile cp downloadLocation homePath H ((htemp s htarget).mpr hplain)

/-- **Both file libraries work on one file** exactly when the download folder
and the sanitised name, or the local path, are ASCII without a zero. -/
theorem file_apis_agree_iff :
    (∀ name, OffersAgree (windowsPlatform cp downloadLocation homePath) H name ↔
      PlainText (FileTransferManager.defaultDownloadDir
        (windowsPlatform cp downloadLocation homePath)) ∧
      PlainText (sanitizeFileName (fromStdString name))) ∧
    ∀ path, SendsAgree (windowsPlatform cp downloadLocation homePath) H path ↔
      PlainText path := by
  refine ⟨offersAgree_iff cp downloadLocation homePath H, fun path => ?_⟩
  exact ⟨fun h => (oneFile_iff path).mp h.oneFile,
    fun h => sendsAgree_of_oneFile ((oneFile_iff path).mpr h)⟩

end Windows

/-- An accent is enough: under Windows-1252 neither an upload of `é.txt` nor
`sendFiles` of a file called so works on one file. -/
theorem accent_names_two_files :
    ¬(∀ name, OffersAgree (windowsPlatform .windows1252 "C:/D" "C:/H") sha256 name) ∧
      ¬∀ path, SendsAgree (windowsPlatform .windows1252 "C:/D" "C:/H") sha256 path := by
  let P := windowsPlatform .windows1252 "C:/D" "C:/H"
  have hkeys : ∀ path, P.stdKey path ≠ P.qtKey path → ¬OneFile P path := by
    rintro path hne ⟨k, hstd, hqt⟩
    exact hne (hstd.trans hqt.symm)
  constructor
  · intro hoffers
    have hoffer := from_json_to_json
      { transferId := "", name := "é.txt", size := 0, mime := "", sha256 := "" }
    obtain ⟨s, hs, hall⟩ := handleFileOffer_registered P {} 0 (sampleToken 0) hoffer
    refine hkeys s.tempFilePath ?_ (hoffers "é.txt" _ _ _ _ _ s hoffer rfl hs).oneFile
    rw [ActiveTransferSession.tempFilePath, (hall s hs).2]
    decide +kernel
  · intro hsends
    exact hkeys "é.txt" (by decide +kernel) (hsends "é.txt").oneFile

end Iriseus.Core
