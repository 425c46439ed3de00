import Iriseus.Verified.ByteStream

/-!
# File names, paths and transfer identifiers

The text functions of the file-transfer code: the name of a received file
(`sanitizeFileName`), the name tried when the target exists
(`collisionPath`), and the identifiers of transfers, which are textual UUIDs
on the control channel and sixteen bytes on the data channel.

Paths are separated by `/` or `\`.  `arg` is Qt's `QString::arg`: it replaces
every occurrence of the lowest-numbered place marker `%1`, …, `%99` in the
text built so far.

A `std::string` becomes a `QString` by `fromStdString`, which decodes UTF-8 and
skips a byte order mark at the beginning.
-/

namespace Iriseus.Core

open Iriseus.Verified.ByteStream

/-- `QString::fromStdString`. -/
def fromStdString (text : String) : String :=
  match text.toList with
  | '\uFEFF' :: rest => String.ofList rest
  | _ => text

/-! ## Paths -/

def isSeparator (c : Char) : Bool := c = '/' || c = '\\'

/-- The path up to and including its last separator. -/
def dirPart (path : List Char) : List Char :=
  path.take (path.length - (path.reverse.takeWhile (!isSeparator ·)).length)

/-- `QFileInfo::fileName`: the text after the last separator.  Without a
separator the first two UTF-16 units are skipped when the second is a colon,
whatever the first is. -/
def fileName (path : List Char) : List Char :=
  if path.any isSeparator then path.drop (dirPart path).length
  else
    match path with
    | drive :: ':' :: rest => if drive.toNat < 0x10000 then rest else path
    | _ => path

/-- The text before the last dot, the whole name when it has none. -/
def completeBaseName (name : List Char) : List Char :=
  if '.' ∈ name then
    name.take (name.length - (name.reverse.takeWhile (· ≠ '.')).length - 1)
  else name

/-- The text after the last dot, empty when there is none. -/
def suffix (name : List Char) : List Char :=
  if '.' ∈ name then (name.reverse.takeWhile (· ≠ '.')).reverse else []

/-- `QFileInfo(path).dir().filePath(name)`. -/
def siblingPath (path name : List Char) : List Char :=
  if path.any isSeparator then dirPart path ++ name else ['.', '/'] ++ name

/-! ## Names of received files -/

/-- The characters removed from an offered name. -/
def isForbidden (c : Char) : Bool :=
  ['\\', '/', ':', '*', '?', '"', '<', '>', '|'].contains c

def sanitizeFileName (name : String) : String :=
  let clean := (fileName name.toList).filter (!isForbidden ·)
  if clean = [] then "arquivo_recebido" else String.ofList clean

/-! ## `QString::arg` -/

/-- The value of a decimal digit. -/
def digitValue (c : Char) : Option Nat :=
  if c.isDigit then some (c.toNat - 48) else none

/-- The place marker at the beginning of a text, with the text after it: a
percent sign and one or two digits that denote a number from 1 to 99.  Qt also
replaces `%0` and the localised `%L1` to `%L99`, which are not markers here. -/
def marker : List Char → Option (Nat × List Char)
  | '%' :: c :: rest =>
      match digitValue c with
      | none => none
      | some d =>
          match rest with
          | c' :: rest' =>
              match digitValue c' with
              | some d' => if 10 * d + d' = 0 then none else some (10 * d + d', rest')
              | none => if d = 0 then none else some (d, rest)
          | [] => if d = 0 then none else some (d, [])
  | _ => none

/-- The markers of a text, in order; `fuel` bounds its length. -/
def markers : Nat → List Char → List Nat
  | 0, _ => []
  | _ + 1, [] => []
  | fuel + 1, c :: cs =>
      match marker (c :: cs) with
      | some (n, rest) => n :: markers fuel rest
      | none => markers fuel cs

/-- Replace every marker numbered `n` by `value`. -/
def replaceMarker (n : Nat) (value : List Char) : Nat → List Char → List Char
  | 0, text => text
  | _ + 1, [] => []
  | fuel + 1, c :: cs =>
      match marker (c :: cs) with
      | some (n', rest) =>
          (if n' = n then value
            else (c :: cs).take ((c :: cs).length - rest.length))
            ++ replaceMarker n value fuel rest
      | none => c :: replaceMarker n value fuel cs

/-- `text.arg(value)`: a text without markers stays as it is. -/
def arg (text value : List Char) : List Char :=
  match (markers text.length text).min? with
  | some n => replaceMarker n value text.length text
  | none => text

/-- The path tried as number `count` when the target exists: base name, the
number in parentheses and the extension are put into a template one after
the other. -/
def collisionPath (target : List Char) (count : Nat) : List Char :=
  let base := completeBaseName (fileName target)
  let ext := suffix (fileName target)
  let digits := Nat.toDigits 10 count
  siblingPath target
    (if ext ≠ [] then
      arg (arg (arg "%1 (%2).%3".toList base) digits) ext
    else arg (arg "%1 (%2)".toList base) digits)

example : collisionPath "D/a.tar.gz".toList 3 = "D/a.tar (3).gz".toList := by
  decide +kernel

example : sanitizeFileName "..\\..\\x:y.dll" = "xy.dll" := by decide +kernel

example : sanitizeFileName "1:.." = ".." := by decide +kernel

/-! ## Transfer identifiers -/

/-- The canonical text of a binary UUID: 8-4-4-4-12 lower-case digits. -/
def formatUuid (id : Bytes) : String :=
  String.ofList (hexChars (id.take 4) ++ ['-'] ++ hexChars ((id.drop 4).take 2)
    ++ ['-'] ++ hexChars ((id.drop 6).take 2) ++ ['-']
    ++ hexChars ((id.drop 8).take 2) ++ ['-'] ++ hexChars (id.drop 10))

/-- The identifier without its dashes. -/
def noDash (id : String) : String := String.ofList (id.toList.filter (· ≠ '-'))

private theorem filter_dash_hexChars (bs : Bytes) :
    (hexChars bs).filter (· ≠ '-') = hexChars bs := by
  rw [List.filter_eq_self]
  intro c hc
  have hne : c ≠ '-' := fun h => dash_notMem_hexChars bs (h ▸ hc)
  simpa using hne

/-- Plain hexadecimal text has no dashes to lose. -/
theorem noDash_toHex (id : Bytes) : noDash (toHex id) = toHex id := by
  rw [noDash, toList_toHex, filter_dash_hexChars, toHex]

/-- Without dashes, the canonical text is the plain hexadecimal text. -/
theorem noDash_formatUuid (id : Bytes) : noDash (formatUuid id) = toHex id := by
  have hsplit : id = id.take 4 ++ ((id.drop 4).take 2 ++ ((id.drop 6).take 2
      ++ ((id.drop 8).take 2 ++ id.drop 10))) := by
    rw [show id.drop 10 = (id.drop 8).drop 2 by simp, List.take_append_drop,
      show id.drop 8 = (id.drop 6).drop 2 by simp, List.take_append_drop,
      show id.drop 6 = (id.drop 4).drop 2 by simp, List.take_append_drop,
      List.take_append_drop]
  have hdash : (['-'] : List Char).filter (· ≠ '-') = [] := rfl
  rw [noDash, formatUuid, String.toList_ofList, toHex]
  simp only [List.filter_append, filter_dash_hexChars, hdash, List.append_nil]
  congr 1
  simp only [← hexChars_append, List.append_assoc]
  rw [← hsplit]

end Iriseus.Core
