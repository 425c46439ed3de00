import Iriseus.Core.CollisionNames

/-!
# Names of offered files

`sanitizeFileName` cuts the directory part of a name and removes the characters
a Windows name cannot have.  `handleFileOffer` applies it to the offered name
as a `QString` and puts what is left behind the download folder and a slash.

A path is read lexically: `place` walks through its components from an
unnamed directory, `.` stays and `..` goes back.  The target of an offer is a
direct child of the download folder when the walk enters the folder and then
one more component.

Sanitising is idempotent for every name, and the target is a direct child for
every name except those of which nothing but one or two dots is left.

## Main results

* `sanitizeFileName_idem` — sanitising twice is sanitising once.
* `offered_name_confined_iff` — exactly which names are confined.
-/

namespace Iriseus.Core

open Iriseus.Verified
open Iriseus.Verified.ByteStream

/-! ## Paths as walks -/

/-- The directory, as the components from the start, after entering one more
component. -/
def enter (dir : List (List Char)) (component : List Char) : List (List Char) :=
  if component = [] ∨ component = ['.'] then dir
  else if component = ['.', '.'] then dir.dropLast
  else dir ++ [component]

/-- Where a path leads. -/
def place (path : List Char) : List (List Char) :=
  (path.splitOnP isSeparator).foldl enter []

/-- The path leads to an entry of the folder. -/
def DirectChild (folder path : String) : Prop :=
  ∃ child, place path.toList = place folder.toList ++ [child]

/-- Behind a slash, a text without separators is one more component. -/
theorem place_append {folder name : List Char} (hname : ∀ c ∈ name, isSeparator c = false) :
    place (folder ++ '/' :: name) = enter (place folder) name := by
  have hslash : isSeparator '/' = true := rfl
  rw [place, List.splitOnP_append_cons folder name hslash,
    List.splitOnP_eq_singleton hname, List.foldl_append]
  rfl

/-! ## Single components -/

/-- A non-empty name without forbidden characters that is not `.` or `..`. -/
structure SingleComponent (name : String) : Prop where
  ne_empty : name ≠ ""
  plain : ∀ c ∈ name.toList, isForbidden c = false
  ne_dot : name ≠ "."
  ne_dotdot : name ≠ ".."

theorem isForbidden_of_isSeparator {c : Char} (h : isSeparator c = true) :
    isForbidden c = true := by
  simp only [isSeparator, Bool.or_eq_true, decide_eq_true_eq] at h
  rcases h with rfl | rfl <;> rfl

theorem noSeparator_of_plain {name : List Char} (h : ∀ c ∈ name, isForbidden c = false) :
    ∀ c ∈ name, isSeparator c = false := by
  intro c hc
  by_contra hsep
  have hforbidden := isForbidden_of_isSeparator (Bool.not_eq_false _ ▸ hsep)
  rw [h c hc] at hforbidden
  cases hforbidden

/-- Behind a slash, a single component is one more component. -/
theorem SingleComponent.directChild {name : String} (h : SingleComponent name)
    (folder : String) : DirectChild folder (folder ++ "/" ++ name) := by
  refine ⟨name.toList, ?_⟩
  have hne : name.toList ≠ [] ∧ name.toList ≠ ['.'] ∧ name.toList ≠ ['.', '.'] := by
    refine ⟨fun heq => h.ne_empty ?_, fun heq => h.ne_dot ?_, fun heq => h.ne_dotdot ?_⟩ <;>
      exact String.toList_inj.mp heq
  rw [String.toList_append, String.toList_append, List.append_assoc]
  refine (place_append (noSeparator_of_plain h.plain)).trans ?_
  simp [enter, hne]

/-! ## Sanitising -/

/-- What sanitising leaves of a name. -/
def cleaned (name : String) : List Char := (fileName name.toList).filter (!isForbidden ·)

theorem sanitizeFileName_eq (name : String) :
    sanitizeFileName name =
      if cleaned name = [] then "arquivo_recebido" else String.ofList (cleaned name) :=
  rfl

theorem plain_cleaned {name : String} {c : Char} (hc : c ∈ cleaned name) :
    isForbidden c = false := by
  simpa using (List.mem_filter.mp hc).2

theorem plain_sanitizeFileName (name : String) :
    ∀ c ∈ (sanitizeFileName name).toList, isForbidden c = false := by
  rw [sanitizeFileName_eq]
  split
  · simp [isForbidden]
  · intro c hc
    rw [String.toList_ofList] at hc
    exact plain_cleaned hc

theorem sanitizeFileName_ne_empty (name : String) : sanitizeFileName name ≠ "" := by
  rw [sanitizeFileName_eq]
  split
  · simp
  · rename_i hne
    intro heq
    exact hne (by simpa using congrArg String.toList heq)

/-- A name without forbidden characters has no directory part to cut. -/
theorem fileName_of_plain {name : List Char} (h : ∀ c ∈ name, isForbidden c = false) :
    fileName name = name := by
  have hany : name.any isSeparator = false := by
    simpa using noSeparator_of_plain h
  unfold fileName
  rw [hany, if_neg (by decide)]
  split
  · rename_i drive rest
    exact absurd (h ':' (by simp)) (by decide)
  · rfl

theorem sanitizeFileName_of_plain {name : String} (hne : name ≠ "")
    (h : ∀ c ∈ name.toList, isForbidden c = false) : sanitizeFileName name = name := by
  have hcleaned : cleaned name = name.toList := by
    rw [cleaned, fileName_of_plain h, List.filter_eq_self]
    simpa using h
  rw [sanitizeFileName_eq, hcleaned, String.ofList_toList, if_neg]
  simpa using hne

/-- **Sanitising is idempotent.** -/
theorem sanitizeFileName_idem (name : String) :
    sanitizeFileName (sanitizeFileName name) = sanitizeFileName name :=
  sanitizeFileName_of_plain (sanitizeFileName_ne_empty name) (plain_sanitizeFileName name)

/-! ## Names of which only dots are left -/

/-- The last component of the name has one or two dots and otherwise only
characters that are removed. -/
def DotsOnly (name : String) : Prop :=
  (∀ c ∈ fileName name.toList, c = '.' ∨ isForbidden c = true) ∧
    ((fileName name.toList).count '.' = 1 ∨ (fileName name.toList).count '.' = 2)

/-- What is left are `n` dots if nothing else is left over. -/
theorem cleaned_eq_dots_iff {name : String} {n : Nat} :
    cleaned name = List.replicate n '.' ↔
      (∀ c ∈ fileName name.toList, c = '.' ∨ isForbidden c = true) ∧
        (fileName name.toList).count '.' = n := by
  have hcount : (cleaned name).count '.' = (fileName name.toList).count '.' :=
    List.count_filter (by decide)
  have hdots : (∀ c ∈ cleaned name, c = '.') ↔
      ∀ c ∈ fileName name.toList, c = '.' ∨ isForbidden c = true := by
    simp only [cleaned, List.mem_filter, Bool.not_eq_true', and_imp]
    refine forall₂_congr fun c _ => ?_
    rw [← Bool.not_eq_true, or_iff_not_imp_right]
  rw [← hdots, ← hcount]
  constructor
  · intro h
    rw [h]
    exact ⟨fun c hc => List.eq_of_mem_replicate hc, List.count_replicate_self⟩
  · rintro ⟨hall, hn⟩
    refine List.eq_replicate_iff.mpr ⟨?_, hall⟩
    rw [← hn, List.count_eq_length.mpr fun c hc => (hall c hc).symm]

theorem sanitizeFileName_dots_iff (name : String) :
    sanitizeFileName name = "." ∨ sanitizeFileName name = ".." ↔ DotsOnly name := by
  have hdots : ∀ n, 0 < n → (sanitizeFileName name = String.ofList (List.replicate n '.') ↔
      cleaned name = List.replicate n '.') := by
    intro n hn
    rw [sanitizeFileName_eq]
    split
    · rename_i hnil
      constructor
      · intro h
        have hlist : "arquivo_recebido".toList = List.replicate n '.' := by
          rw [h, String.toList_ofList]
        have hmem : 'a' ∈ List.replicate n '.' := by
          rw [← hlist]
          decide
        exact absurd (List.eq_of_mem_replicate hmem) (by decide)
      · intro h
        rw [hnil] at h
        exact absurd (congrArg List.length h) (by simpa using Nat.ne_of_lt hn)
    · exact String.ofList_inj
  rw [show "." = String.ofList (List.replicate 1 '.') from rfl,
    show ".." = String.ofList (List.replicate 2 '.') from rfl, hdots 1 (by decide),
    hdots 2 (by decide), cleaned_eq_dots_iff, cleaned_eq_dots_iff, ← and_or_left]
  rfl

/-- A sanitised name is a single component unless only dots are left. -/
theorem singleComponent_iff (name : String) :
    SingleComponent (sanitizeFileName name) ↔ ¬DotsOnly name := by
  rw [← sanitizeFileName_dots_iff, not_or]
  constructor
  · exact fun h => ⟨h.ne_dot, h.ne_dotdot⟩
  · rintro ⟨hdot, hdotdot⟩
    exact
      { ne_empty := sanitizeFileName_ne_empty name
        plain := plain_sanitizeFileName name
        ne_dot := hdot
        ne_dotdot := hdotdot }

/-- With only dots left, the target is the folder itself or the one above. -/
theorem not_directChild {name : String} (hdots : DotsOnly name) (folder : String) :
    ¬DirectChild folder (folder ++ "/" ++ sanitizeFileName name) := by
  rintro ⟨child, hchild⟩
  have hplace : place (folder ++ "/" ++ sanitizeFileName name).toList =
      enter (place folder.toList) (sanitizeFileName name).toList := by
    rw [String.toList_append, String.toList_append, List.append_assoc]
    exact place_append (noSeparator_of_plain (plain_sanitizeFileName name))
  rw [hplace] at hchild
  have hlength := congrArg List.length hchild
  rcases (sanitizeFileName_dots_iff name).mpr hdots with heq | heq
  · rw [heq] at hlength
    simp [enter] at hlength
  · rw [heq] at hlength
    simp [enter] at hlength

/-- The target is in the folder unless the name is sanitised to one or two
dots. -/
theorem directChild_iff (name folder : String) :
    DirectChild folder (folder ++ "/" ++ sanitizeFileName name) ↔
      sanitizeFileName name ≠ "." ∧ sanitizeFileName name ≠ ".." := by
  rw [← not_or, sanitizeFileName_dots_iff]
  exact ⟨fun hchild hdots => not_directChild hdots folder hchild,
    fun hdots => ((singleComponent_iff name).mpr hdots).directChild folder⟩

/-! ## Offers -/

section Offers

variable {κ : Type} (P : Platform κ)

/-- Every upload registered for an offer of this name goes directly into the
download folder. -/
def TargetConfined (name : String) : Prop :=
  ∀ (m : FileTransferManager) (sessionId : UInt64) (payload : Json)
    (token : ByteBlock kTokenSize) (offer : FileOffer) (s : ActiveTransferSession),
    FileOffer.from_json payload = .ok offer → offer.name = name →
    .registered s ∈ (m.handleFileOffer P sessionId payload token).2 →
    DirectChild (FileTransferManager.defaultDownloadDir P) s.targetFilePath

/-- The name an offer is sanitised to is a single component, sanitising it
again changes nothing, and the target is in the download folder. -/
structure NameConfined (name : String) : Prop where
  component : SingleComponent (sanitizeFileName (fromStdString name))
  idem : sanitizeFileName (sanitizeFileName (fromStdString name)) =
    sanitizeFileName (fromStdString name)
  target : TargetConfined P name

/-- The session `handleFileOffer` registers goes behind the download folder. -/
theorem handleFileOffer_registered (m : FileTransferManager) (sessionId : UInt64)
    (token : ByteBlock kTokenSize) {payload : Json} {offer : FileOffer}
    (hoffer : FileOffer.from_json payload = .ok offer) :
    ∃ s, .registered s ∈ (m.handleFileOffer P sessionId payload token).2 ∧
      ∀ s', .registered s' ∈ (m.handleFileOffer P sessionId payload token).2 →
        s' = s ∧ s.targetFilePath =
          FileTransferManager.defaultDownloadDir P ++ "/" ++
            sanitizeFileName (fromStdString offer.name) := by
  simp only [FileTransferManager.handleFileOffer, hoffer, FileTransferManager.acceptOffer,
    FileTransferManager.register, List.mem_cons, reduceCtorEq, false_or, or_false,
    TransferEvent.registered.injEq, List.not_mem_nil]
  exact ⟨_, rfl, fun s' hs' => ⟨hs', rfl⟩⟩

theorem from_json_to_json (offer : FileOffer) :
    FileOffer.from_json (FileOffer.to_json offer) = .ok offer := rfl

theorem targetConfined_iff (name : String) :
    TargetConfined P name ↔ ¬DotsOnly (fromStdString name) := by
  constructor
  · intro hconfined hdots
    let offer : FileOffer :=
      { transferId := "", name := name, size := 0, mime := "", sha256 := "" }
    have hoffer := from_json_to_json offer
    obtain ⟨s, hs, hall⟩ := handleFileOffer_registered P {} 0 (sampleToken 0) hoffer
    have hchild := hconfined _ _ _ _ offer s hoffer rfl hs
    rw [(hall s hs).2] at hchild
    exact not_directChild hdots _ hchild
  · rintro hdots m sessionId payload token offer s hoffer rfl hs
    obtain ⟨s', hs', hall⟩ := handleFileOffer_registered P m sessionId token hoffer
    rw [(hall s hs).1, (hall s' hs').2]
    exact ((singleComponent_iff _).mpr hdots).directChild _

/-- **Offered names are confined** exactly if something other than one or two
dots is left of them. -/
theorem offered_name_confined_iff (name : String) :
    NameConfined P name ↔ ¬DotsOnly (fromStdString name) := by
  constructor
  · exact fun h => (singleComponent_iff _).mp h.component
  · intro hdots
    exact
      { component := (singleComponent_iff _).mpr hdots
        idem := sanitizeFileName_idem _
        target := (targetConfined_iff P name).mpr hdots }

end Offers

/-- An upload offered as `..` goes to the folder above the download folder. -/
theorem dotdot_not_confined : ¬∀ name, NameConfined samplePlatform name := by
  intro hall
  have hdots : sanitizeFileName (fromStdString "..") = ".." := by decide +kernel
  exact (hall "..").component.ne_dotdot hdots

end Iriseus.Core
