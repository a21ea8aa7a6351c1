import Mathlib.Algebra.Ring.Nat
import MobiusAgent.CheckpointValidation
import MobiusAgent.TextLines

/-!
# Patch documents and their application

`middleware/tools/patch.rs`: the parser of an `apply_patch` envelope and its
application to the content of a file. Texts are lists of characters and
offsets count characters; the sizes that bound the work and the texts of
errors count bytes. The unified diff that the tool shows is left out. The
library that makes and applies the hunks is a parameter.
-/

namespace MobiusAgent.PatchDocuments

open ProtocolEvents TextLines

section Documents

structure PatchChange where
  /-- The line after which the change is looked for. -/
  anchor : Option (List Char) := none
  before : List Char := []
  /-- The lines that replace them. -/
  after : List Char := []
  endOfFile : Bool := false
  deriving DecidableEq

/-- A parsed envelope. -/
structure PatchDocument where
  path : List Char
  changes : List PatchChange
  deriving DecidableEq

def malformedPatchDocument (reason : String) : Error :=
  .tool ("Patch rejected: malformed apply_patch input.\nReason: " ++ reason ++ ".")

def pushPatchLine (target line : List Char) : List Char := target ++ line ++ ['\n']

/-- `push_patch_change`: a change without lines stays as it is. -/
def pushPatchChange (changes : List PatchChange) (change : PatchChange) :
    List PatchChange × PatchChange :=
  if change.before ≠ [] ∨ change.after ≠ [] then (changes ++ [change], {}) else (changes, change)

def stripPrefix (start text : List Char) : Option (List Char) :=
  if start.isPrefixOf text then some (text.drop start.length) else none

def changeLine (change : PatchChange) : List Char → Except Error PatchChange
  | [] => .ok { change with
      before := pushPatchLine change.before []
      after := pushPatchLine change.after [] }
  | '+' :: value => .ok { change with after := pushPatchLine change.after value }
  | '-' :: value => .ok { change with before := pushPatchLine change.before value }
  | ' ' :: value => .ok { change with
      before := pushPatchLine change.before value
      after := pushPatchLine change.after value }
  | _ => .error (malformedPatchDocument "change lines must begin with ` `, `+`, or `-`")

def anchorLine (change : PatchChange) (line : List Char) : PatchChange :=
  match stripPrefix "@@ ".toList line with
  | some (first :: rest) => { change with anchor := some (first :: rest) }
  | _ => change

/-- The loop of `parse_patch_document`. -/
def parseChanges :
    List (List Char) → List PatchChange → PatchChange → Except Error (List PatchChange)
  | [], _, _ => .error (malformedPatchDocument "missing `*** End Patch`")
  | line :: later, changes, change =>
    if line = "*** End Patch".toList then
      let changes := (pushPatchChange changes change).1
      if later ≠ [] then
        .error (malformedPatchDocument "`*** End Patch` must be the final line")
      else if changes = [] then
        .error (malformedPatchDocument "the patch contains no changes")
      else .ok changes
    else if change.endOfFile then
      if line = [] then parseChanges later changes change
      else .error (malformedPatchDocument "`*** End of File` must end its change")
    else if line = "@@".toList ∨ "@@ ".toList.isPrefixOf line then
      let pushed := pushPatchChange changes change
      parseChanges later pushed.1 (anchorLine pushed.2 line)
    else if line = "*** End of File".toList then
      if change.before = [] ∧ change.after = [] then
        .error (malformedPatchDocument "`*** End of File` has no change")
      else parseChanges later changes { change with endOfFile := true }
    else if "*** ".toList.isPrefixOf line then
      .error (malformedPatchDocument
        "only one existing-file `*** Update File` operation is supported")
    else
      match changeLine change line with
      | .error error => .error error
      | .ok change => parseChanges later changes change

/-- `strip_suffix` of a carriage return. -/
def stripReturn (line : List Char) : List Char :=
  if line.getLast? = some '\r' then line.dropLast else line

def parsePatchDocument (input : List Char) : Except Error PatchDocument :=
  match (lines input).map stripReturn with
  | [] => .error (malformedPatchDocument "missing `*** Begin Patch`")
  | first :: later =>
    if first ≠ "*** Begin Patch".toList then
      .error (malformedPatchDocument "missing `*** Begin Patch`")
    else match later with
      | [] => .error (malformedPatchDocument "expected one `*** Update File: path`")
      | line :: later =>
        match stripPrefix "*** Update File: ".toList line with
        | some (head :: tail) =>
          (parseChanges later [] {}).map fun changes => ⟨head :: tail, changes⟩
        | _ => .error (malformedPatchDocument "expected one `*** Update File: path`")

end Documents

section Library

inductive Line where
  | context (text : List Char)
  | delete (text : List Char)
  | insert (text : List Char)
  deriving DecidableEq

structure Hunk where
  /-- The line of the postimage it starts at. -/
  newStart : Nat
  /-- The lines of the postimage it covers. -/
  newLength : Nat
  lines : List Line
  deriving DecidableEq

/-- The part of a line in the preimage. -/
def Line.old : Line → Option (List Char)
  | .context text => some text
  | .delete text => some text
  | .insert _ => none

/-- The part of a line in the postimage. -/
def Line.new : Line → Option (List Char)
  | .context text => some text
  | .delete _ => none
  | .insert text => some text

/-- The text a hunk replaces. -/
def Hunk.preimage (hunk : Hunk) : List Char := (hunk.lines.filterMap Line.old).flatten

/-- The text it is replaced by. -/
def Hunk.postimage (hunk : Hunk) : List Char := (hunk.lines.filterMap Line.new).flatten

/-- What the diff library and the standard formatting do. -/
structure Library where
  /-- `create_patch` with a context length. -/
  createPatch : Nat → List Char → List Char → List Hunk
  /-- `diffy::apply`, with the text of its error. -/
  apply : List Char → List Hunk → Except String (List Char)
  debug : List Char → String

/-- The texts of both images of a patch with all their lines. -/
structure LibraryLaws (library : Library) : Prop where
  equal : ∀ context text, library.createPatch context text text = []
  /-- With all lines as context, different texts have one hunk of all of them. -/
  whole : ∀ context before after, before ≠ after →
    (lines before).length ≤ context → (lines after).length ≤ context →
    ∃ hunk, library.createPatch context before after = [hunk] ∧
      hunk.preimage = before ∧ hunk.postimage = after
  /-- The first exact occurrence of the lines of the preimage is replaced. -/
  first : ∀ hunk earlier rest, AtLineStart earlier → AtLineStart hunk.preimage ∨ rest = [] →
    (hunk.preimage = [] → rest = []) →
    (∀ earlier' rest', earlier ++ hunk.preimage ++ rest = earlier' ++ hunk.preimage ++ rest' →
      AtLineStart earlier' → earlier.length ≤ earlier'.length) →
    library.apply (earlier ++ hunk.preimage ++ rest) [hunk] =
      .ok (earlier ++ hunk.postimage ++ rest)

end Library

section Texts

/-- `usize::MAX`. -/
def usizeMax : Nat := 2 ^ 64 - 1

def saturatingAdd (first second : Nat) : Nat := min (first + second) usizeMax

def saturatingMul (first second : Nat) : Nat := min (first * second) usizeMax

def utf8Length (text : List Char) : Nat := (text.map Char.utf8Size).sum

/-- `truncate_utf8`: the characters that fit. -/
def truncateUtf8 : List Char → Nat → List Char
  | [], _ => []
  | c :: rest, limit => if c.utf8Size ≤ limit then c :: truncateUtf8 rest (limit - c.utf8Size) else []

def cappedMarker (omitted total : Nat) : List Char :=
  ("…[" ++ toString omitted ++ " of " ++ toString total ++ " bytes truncated]…").toList

def capped (output : List Char) (limit : Nat) : List Char :=
  let total := utf8Length output
  if total ≤ limit then output
  else
    let marker := utf8Length (cappedMarker total total)
    if limit < marker then truncateUtf8 output limit
    else
      let budget := limit - marker
      let left := truncateUtf8 output (budget / 2)
      let right := (truncateUtf8 output.reverse (budget - budget / 2)).reverse
      left ++ cappedMarker (total - utf8Length right - utf8Length left) total ++ right

def maxToolUiBytes : Nat := 512

def maxPatchMatchWork : Nat := 32 * 1024 * 1024

def trim (text : List Char) : List Char :=
  ((text.dropWhile isWhitespace).reverse.dropWhile isWhitespace).reverse

/-- A carriage return or a line feed. -/
def isLineEnd (c : Char) : Bool := c == '\r' || c == '\n'

/-- `trim_end_matches` of line ends. -/
def trimLineEnd (line : List Char) : List Char := (line.reverse.dropWhile isLineEnd).reverse

/-- Whether a text has a carriage return with a line feed. -/
def containsCrlf : List Char → Bool
  | '\r' :: '\n' :: _ => true
  | _ :: rest => containsCrlf rest
  | [] => false

def lineEnding (content : List Char) : List Char :=
  if containsCrlf content then ['\r', '\n'] else ['\n']

/-- A text of a change with the line ending of a file. -/
def withEnding (ending text : List Char) : List Char :=
  text.flatMap fun c => if c = '\n' then ending else [c]

end Texts

section Matching

variable (library : Library)

def patchTail (content : List Char) (cursor : Nat) : Except Error (List Char) :=
  if cursor ≤ content.length then .ok (content.drop cursor)
  else .error (.tool ("patch cursor " ++ toString cursor ++ " is outside the file"))

/-- The loop of `find_patch_anchor`. -/
def findAnchor (anchor : List Char) : List (List Char) → Nat → Option Nat → Option Nat
  | [], _, trimmed => trimmed
  | line :: later, offset, trimmed =>
    let value := trimLineEnd line
    if value = anchor then some (offset + line.length)
    else findAnchor anchor later (offset + line.length)
      (if trimmed = none ∧ trim value = trim anchor then some (offset + line.length) else trimmed)

def findPatchAnchor (content anchor : List Char) : Option Nat :=
  findAnchor anchor (splitInclusive content) 0 none

/-- The loop of `find_patch_fragment`. -/
def findFragment (content fragment : List Char) : Nat → Nat → Option Nat
  | 0, _ => none
  | fuel + 1, offset =>
    let rest := content.drop offset
    if fragment.isPrefixOf rest then some offset
    else match rest.findIdx? (· == '\n') with
      | none => none
      | some index => findFragment content fragment fuel (offset + (index + 1))

/-- `find_patch_fragment`: a round that is not the last passes a character. -/
def findPatchFragment (content fragment : List Char) : Option Nat :=
  findFragment content fragment (content.length + 1) 0

def chargePatchWork (total work : Nat) : Except Error Nat :=
  let total := saturatingAdd total work
  if maxPatchMatchWork < total then
    .error (.tool "patch is too expensive to match safely")
  else .ok total

def hunkWork (imageLines : Nat) (hunk : Hunk) : Nat :=
  let preimage := hunk.lines.filterMap Line.old
  if preimage.length = 0 then hunk.lines.length
  else saturatingMul imageLines
    (saturatingAdd ((preimage.map utf8Length).sum) hunk.lines.length)

def validatePatchComplexity (content : List Char) (hunks : List Hunk) (total : Nat) :
    Except Error Nat :=
  let imageLines := saturatingAdd (lines content).length (hunks.map (·.newLength)).sum
  chargePatchWork total (hunks.foldl (fun total hunk =>
    saturatingAdd total (hunkWork imageLines hunk)) 0)

/-- `parse::<usize>` of a text. -/
def parseUsize (text : List Char) : Option Nat :=
  let digits := match text with
    | '+' :: rest => rest
    | _ => text
  if digits ≠ [] ∧ digits.all Char.isDigit then
    let value := digits.foldl (fun value c => value * 10 + (c.toNat - '0'.toNat)) 0
    if value ≤ usizeMax then some value else none
  else none

def nearestLine (content context : List Char) (start : Nat) : Option Nat :=
  let numbers := ((splitInclusive content).zipIdx.filter (·.1 = context)).map (·.2 + 1)
  let distance := fun line : Nat => (line - start) + (start - line)
  numbers.foldl (fun best line => match best with
    | none => some line
    | some found => if distance line < distance found then some line else some found) none

/-- The first line of a hunk that can be shown. -/
def shownLine : List Line → Option (String × List Char)
  | [] => none
  | .context text :: rest =>
    if trim text ≠ [] then some ("Failed hunk starts with context:", text) else shownLine rest
  | .delete text :: rest =>
    if trim text ≠ [] then some ("Failed hunk starts with deletion:", text) else shownLine rest
  | .insert _ :: rest => shownLine rest

/-- The hunk that the text of an error names. -/
def failedHunk (hunks : List Hunk) (message : String) : Option (Nat × Hunk) := do
  let number ← (stripPrefix "error applying hunk #".toList message.toList).bind parseUsize
  if 0 < number ∧ number ≤ hunks.length then (hunks[number - 1]?).map fun hunk => (number, hunk)
  else none

def unmatchedPatchError (content : List Char) (hunks : List Hunk) (message : String) : Error :=
  match failedHunk hunks message with
  | none => .tool ("Patch rejected: a hunk did not match the file.\nReason: " ++ message ++ ".")
  | some (number, hunk) =>
    let rejection := if hunks.length = 1 then "Patch rejected: no hunks matched the file."
      else "Patch rejected: hunk #" ++ toString number ++ " did not match the file."
    match shownLine hunk.lines with
    | none => .tool (rejection ++ "\nThe failed hunk has no usable context lines.")
    | some (heading, context) =>
      let location := match nearestLine content context hunk.newStart with
        | none => "No matching context line was found."
        | some line => "The nearest match is at line " ++ toString line ++ "."
      let shown := capped (trimLineEnd context) maxToolUiBytes
      .tool (rejection ++ "\n" ++ heading ++ "\n" ++ library.debug shown ++ "\n" ++ location)

end Matching

section Application

variable (library : Library)

/-- What the loop of `apply_patch_document` keeps. -/
structure Progress where
  /-- The file as edited so far. -/
  updated : List Char
  /-- Where the next change is looked for. -/
  cursor : Nat
  work : Nat
  deriving DecidableEq

/-- The cursor after the anchor of a change. -/
def skipAnchor (progress : Progress) (change : PatchChange) : Except Error Nat :=
  match change.anchor with
  | none => .ok progress.cursor
  | some anchor => do
    let tail ← patchTail progress.updated progress.cursor
    match findPatchAnchor tail anchor with
    | some offset => return progress.cursor + offset
    | none => .error (.tool ("Patch rejected: context " ++
        library.debug (capped anchor maxToolUiBytes) ++ " was not found after the previous change."))

def endLastLine (ending text : List Char) : List Char :=
  if text ≠ [] ∧ text.getLast? ≠ some '\n' then text ++ ending else text

/-- A block without its last line ending. -/
def dropEnding (ending block : List Char) : List Char :=
  if ending.isSuffixOf block then block.take (block.length - ending.length) else block

/-- A block of a change as it stands in a file: at the end of a file whose last line is not ended,
its last line is not ended either. -/
def blockIn (ending updated : List Char) (endOfFile : Bool) (block : List Char) : List Char :=
  if endOfFile ∧ updated.getLast? ≠ some '\n' then dropEnding ending (withEnding ending block)
  else withEnding ending block

/-- Where the block of a change may start: at the end of the file only, if the change ends it. -/
def blockStart (endOfFile : Bool) (updated before : List Char) (cursor : Nat) : Except Error Nat :=
  if endOfFile then
    let start := updated.length - before.length
    if start < cursor ∨ ¬ before.isSuffixOf updated then
      .error (.tool "Patch rejected: the end-of-file change did not match the file.")
    else .ok start
  else .ok cursor

def chargeChange (suffix before : List Char) (hunks : List Hunk) (work : Nat) : Except Error Nat :=
  if hunks = [] then
    chargePatchWork work (saturatingMul (lines suffix).length
      (saturatingAdd (utf8Length before) (lines before).length))
  else validatePatchComplexity suffix hunks work

/-- The failure of a change whose block was not found. -/
def unfoundChange (suffix : List Char) (hunks : List Hunk) : Error :=
  match library.apply suffix hunks with
  | .error message => unmatchedPatchError library suffix hunks message
  | .ok _ => .tool "patch rejected: context was not found"

/-- `diffy::apply` with its error. -/
def applyHunks (suffix : List Char) (hunks : List Hunk) : Except Error (List Char) :=
  (library.apply suffix hunks).mapError (unmatchedPatchError library suffix hunks)

def replaceBlock (progress : Progress) (endOfFile : Bool) (before after : List Char) (cursor : Nat) :
    Except Error Progress := do
  let cursor ← blockStart endOfFile progress.updated before cursor
  let hunks := library.createPatch (max (lines before).length (lines after).length) before after
  let suffix ← patchTail progress.updated cursor
  let work ← chargeChange suffix before hunks progress.work
  match findPatchFragment suffix before with
  | none => .error (unfoundChange library suffix hunks)
  | some offset =>
    let cursor := cursor + offset
    if hunks = [] then return ⟨progress.updated, cursor + before.length, work⟩
    else do
      let suffix ← patchTail progress.updated cursor
      let patched ← applyHunks library suffix hunks
      return ⟨progress.updated.take cursor ++ patched, cursor + after.length, work⟩

/-- One round of the loop of `apply_patch_document`. -/
def applyChange (ending : List Char) (progress : Progress) (change : PatchChange) :
    Except Error Progress := do
  let cursor ← skipAnchor library progress change
  if change.before = [] then
    let updated := endLastLine ending progress.updated ++ withEnding ending change.after
    return ⟨updated, updated.length, progress.work⟩
  else
    replaceBlock library progress change.endOfFile
      (blockIn ending progress.updated change.endOfFile change.before)
      (blockIn ending progress.updated change.endOfFile change.after) cursor

/-- The loop of `apply_patch_document`. -/
def applyChanges (ending : List Char) : Progress → List PatchChange → Except Error Progress
  | progress, [] => .ok progress
  | progress, change :: later => do
    let next ← applyChange library ending progress change
    applyChanges ending next later

def applyPatchDocument (content : List Char) (document : PatchDocument) :
    Except Error (List Char) :=
  (applyChanges library (lineEnding content) ⟨content, 0, 0⟩ document.changes).map (·.updated)

end Application

end MobiusAgent.PatchDocuments
