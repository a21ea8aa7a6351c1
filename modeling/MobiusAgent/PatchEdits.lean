import MobiusAgent.PatchDocuments

/-!
# What an applied patch edits

A change replaces a block of whole lines, or appends lines to the file. The
file is kept in two parts, the part that earlier changes are done with and the
rest, in which the next change is looked for. A change that ends the file is
matched by its length only, so that its block is one of lines exactly if it
begins at a line start. What a file owes a change is said in lines, apart from
how the code makes its blocks.
-/

namespace MobiusAgent.PatchEdits

open ProtocolEvents CheckpointValidation TextLines PatchDocuments

section Relation

/-- A file under edit. -/
structure Edited where
  /-- The part that earlier changes are done with. -/
  done : List Char
  /-- The part in which the next change is looked for. -/
  rest : List Char
  deriving DecidableEq

def IsAnchor (anchor line : List Char) : Prop := trimLineEnd line = anchor

/-- Whether a line is the anchor of a change but for white space. -/
def IsAnchorTrimmed (anchor line : List Char) : Prop := trim (trimLineEnd line) = trim anchor

def FirstLine (holds : List Char → Prop) (earlier : List (List Char)) (line : List Char) : Prop :=
  holds line ∧ ∀ other ∈ earlier, ¬ holds other

/-- The text up to the end of the anchor line: the first line that is the anchor, or the first that
is it but for white space if no line is the anchor itself. -/
inductive AnchorPassed : Option (List Char) → List Char → List Char → Prop
  | none (rest : List Char) : AnchorPassed none rest []
  | exact {anchor rest line : List Char} {earlier later : List (List Char)}
      (split : splitInclusive rest = earlier ++ line :: later)
      (first : FirstLine (IsAnchor anchor) earlier line) :
      AnchorPassed (some anchor) rest (earlier ++ [line]).flatten
  /-- A line is the anchor but for white space. -/
  | trimmed {anchor rest line : List Char} {earlier later : List (List Char)}
      (split : splitInclusive rest = earlier ++ line :: later)
      (absent : ∀ other ∈ splitInclusive rest, ¬ IsAnchor anchor other)
      (first : FirstLine (IsAnchorTrimmed anchor) earlier line) :
      AnchorPassed (some anchor) rest (earlier ++ [line]).flatten

/-- The lines of a block, without their line feeds. -/
def blockLines (block : List Char) : List (List Char) :=
  (splitInclusive block).map List.dropLast

def EndsLine (text : List Char) : Prop := text.getLast? = some '\n'

/-- Whether the last line of a text is ended can be decided. -/
instance (text : List Char) : Decidable (EndsLine text) := inferInstanceAs (Decidable (_ = _))

/-- Whether the lines of a change are all ended: those at the end of a file are as its last one. -/
def LinesEnded (updated : List Char) (change : PatchChange) : Prop :=
  change.endOfFile = false ∨ EndsLine updated

/-- Whether the lines of a change are ended can be decided. -/
instance (updated : List Char) (change : PatchChange) : Decidable (LinesEnded updated change) :=
  inferInstanceAs (Decidable (_ ∨ _))

/-- The lines of a block as they stand in a file, with its line endings. -/
def linesIn (ending updated : List Char) (change : PatchChange) (block : List Char) : List Char :=
  if LinesEnded updated change then (blockLines block).flatMap (· ++ ending)
  else ending.intercalate (blockLines block)

/-- A file keeps its final line feed, or its absence, unless nothing is left of it. -/
def FinalKept (updated next : List Char) : Prop := next = [] ∨ (EndsLine updated ↔ EndsLine next)

/-- One change of whole lines. -/
inductive Edit (ending : List Char) : Edited → PatchChange → Edited → Prop
  /-- Lines without a block to replace are put behind the last line of the file. -/
  | append {done rest skipped : List Char} {change : PatchChange}
      (pure : change.before = [])
      (anchor : AnchorPassed change.anchor rest skipped)
      (ended : AtLineStart (done ++ rest)) :
      Edit ending ⟨done, rest⟩ change
        ⟨done ++ rest ++ (blockLines change.after).flatMap (· ++ ending), []⟩
  /-- A block of whole lines is replaced: the one that ends the file, or the first after the
  anchor. -/
  | replace {done rest skipped between before after later : List Char} {change : PatchChange}
      (block : change.before ≠ [])
      (stands : before = linesIn ending (done ++ rest) change change.before)
      (placed : after = linesIn ending (done ++ rest) change change.after)
      (anchor : AnchorPassed change.anchor rest skipped)
      (found : rest = skipped ++ between ++ before ++ later)
      (starts : AtLineStart (done ++ skipped ++ between))
      (ends : AtLineStart before ∨ later = [])
      (last : change.endOfFile = true → later = [])
      (first : change.endOfFile = false → ∀ between' later',
        rest = skipped ++ between' ++ before ++ later' →
        AtLineStart (done ++ skipped ++ between') → between.length ≤ between'.length)
      (final : FinalKept (done ++ rest) (done ++ skipped ++ between ++ after ++ later)) :
      Edit ending ⟨done, rest⟩ change ⟨done ++ skipped ++ between ++ after, later⟩

/-- The changes of a document one after the other. -/
inductive Edits (ending : List Char) : Edited → List PatchChange → Edited → Prop
  | nil (edited : Edited) : Edits ending edited [] edited
  | cons {edited next last : Edited} {change : PatchChange} {later : List PatchChange}
      (head : Edit ending edited change next) (tail : Edits ending next later last) :
      Edits ending edited (change :: later) last

/-- The line ending of a file: with a carriage return if one of its lines has one. -/
inductive FileEnding (content : List Char) : List Char → Prop
  | crlf (found : ['\r', '\n'] <:+: content) : FileEnding content ['\r', '\n']
  | lf (absent : ¬['\r', '\n'] <:+: content) : FileEnding content ['\n']

def LineEdits (content : List Char) (document : PatchDocument) (result : List Char) : Prop :=
  ∃ ending, FileEnding content ending ∧ ∃ last : Edited,
    Edits ending ⟨[], content⟩ document.changes last ∧ result = last.done ++ last.rest

/-- What stands before the block of a change that ends the file. -/
def beforeTail (ending updated : List Char) (change : PatchChange) : List Char :=
  updated.take
    (updated.length - (blockIn ending updated change.endOfFile change.before).length)

/-- Whether a block leaves a last line that is not ended: its last line is not empty, or nothing is
left at all. -/
def LeavesLine (before after : List Char) : Prop :=
  (∃ line, (blockLines after).getLast? = some line ∧ line ≠ []) ∨
    before = [] ∧ (blockLines after = [] ∨ blockLines after = [[]])

/-- A change that finds the file as it needs it: one that only inserts, ended; one that ends the
file, with its block at a line start, and with a line to leave if the last one is not ended. -/
structure Fitting (ending updated : List Char) (change : PatchChange) : Prop where
  insertion : change.before = [] → AtLineStart updated
  aligned : change.endOfFile = true → change.before ≠ [] →
    AtLineStart (beforeTail ending updated change)
  leaves : change.endOfFile = true → change.before ≠ [] → ¬EndsLine updated →
    LeavesLine (beforeTail ending updated change) change.after

/-- Every change finds the file, as the earlier ones left it, as it needs it. -/
def ChangesFitting (library : Library) (content : List Char) (document : PatchDocument) : Prop :=
  ∀ earlier change later progress, document.changes = earlier ++ change :: later →
    applyChanges library (lineEnding content) ⟨content, 0, 0⟩ earlier = .ok progress →
    Fitting (lineEnding content) progress.updated change

end Relation

section Fragments

/-- A place of a text at a line start where a fragment stands. -/
def Occurs (content fragment : List Char) (offset : Nat) : Prop :=
  offset ≤ content.length ∧ AtLineStart (content.take offset) ∧ fragment <+: content.drop offset

variable {text : List Char} {offset : Nat}

theorem atLineStart_take_iff {place : Nat} (hpositive : 0 < place) (hbound : place ≤ text.length) :
    AtLineStart (text.take place) ↔ text[place - 1]? = some '\n' := by
  have hlength : (text.take place).length = place := by
    rw [List.length_take]
    omega
  have hlast : (text.take place).getLast? = text[place - 1]? := by
    rw [List.getLast?_eq_getElem?, hlength, List.getElem?_take, if_pos (by omega)]
  constructor
  · intro hstart
    rcases hstart with hempty | hfeed
    · rw [hempty, List.length_nil] at hlength
      omega
    · rw [← hlast]
      exact hfeed
  · intro hfeed
    right
    rw [hlast]
    exact hfeed

theorem next_line_start {index other : Nat}
    (hindex : (text.drop offset).findIdx? (· == '\n') = some index) (hafter : offset < other)
    (hbound : other ≤ text.length) (hstart : AtLineStart (text.take other)) :
    offset + (index + 1) ≤ other := by
  obtain ⟨hless, _, hbefore⟩ := List.findIdx?_eq_some_iff_getElem.mp hindex
  have hfeed := (atLineStart_take_iff (by omega) hbound).mp hstart
  by_contra hearlier
  have hsmall : other - 1 - offset < index := by omega
  have hnot := hbefore (other - 1 - offset) hsmall
  rw [List.getElem_drop] at hnot
  have hplace : offset + (other - 1 - offset) = other - 1 := by omega
  rw [List.getElem?_eq_getElem (by omega)] at hfeed
  have hsame := Option.some.inj hfeed
  simp [hplace, hsame] at hnot

theorem no_line_start {other : Nat} (hnone : (text.drop offset).findIdx? (· == '\n') = none)
    (hafter : offset < other) (hbound : other ≤ text.length) : ¬ AtLineStart (text.take other) := by
  intro hstart
  have hfeed := (atLineStart_take_iff (by omega) hbound).mp hstart
  have hmember : '\n' ∈ text.drop offset := by
    refine List.mem_of_getElem? (i := other - 1 - offset) ?_
    rw [List.getElem?_drop, ← hfeed]
    congr 1
    omega
  have hnot := List.findIdx?_eq_none_iff.mp hnone '\n' hmember
  simp at hnot

theorem line_start_after {index : Nat}
    (hindex : (text.drop offset).findIdx? (· == '\n') = some index) :
    offset + (index + 1) ≤ text.length ∧ AtLineStart (text.take (offset + (index + 1))) := by
  obtain ⟨hless, hfeed, _⟩ := List.findIdx?_eq_some_iff_getElem.mp hindex
  have hbound : offset + (index + 1) ≤ text.length := by
    rw [List.length_drop] at hless
    omega
  refine ⟨hbound, (atLineStart_take_iff (by omega) hbound).mpr ?_⟩
  have hplace : offset + (index + 1) - 1 = offset + index := by omega
  rw [List.getElem_drop] at hfeed
  rw [hplace, List.getElem?_eq_getElem (by omega)]
  simpa using hfeed

/-- What the search of a fragment from a line start finds: the first place at a line start, or
none if there is none. -/
theorem findFragment_spec (content fragment : List Char) (fuel : Nat) :
    ∀ offset, content.length < fuel + offset → offset ≤ content.length →
      AtLineStart (content.take offset) →
      (∀ found, findFragment content fragment fuel offset = some found →
        Occurs content fragment found ∧
          ∀ other, offset ≤ other → Occurs content fragment other → found ≤ other) ∧
      (findFragment content fragment fuel offset = none →
        ∀ other, offset ≤ other → ¬ Occurs content fragment other) := by
  induction fuel with
  | zero =>
    intro offset hfuel hbound _
    omega
  | succ fuel ih =>
    intro offset hfuel hbound hstart
    unfold findFragment
    by_cases hbegins : fragment.isPrefixOf (content.drop offset) = true
    · have hhere : Occurs content fragment offset :=
        ⟨hbound, hstart, List.isPrefixOf_iff_prefix.mp hbegins⟩
      simp only [hbegins, if_true]
      constructor
      · intro found hfound
        cases hfound
        exact ⟨hhere, fun _ hother _ => hother⟩
      · intro hnone
        cases hnone
    · have hnot : ¬ Occurs content fragment offset := fun hoccurs =>
        hbegins (List.isPrefixOf_iff_prefix.mpr hoccurs.2.2)
      simp only [hbegins, if_false, Bool.false_eq_true]
      have hlater : ∀ other, offset ≤ other → Occurs content fragment other → offset < other := by
        intro other hother hoccurs
        rcases Nat.lt_or_eq_of_le hother with hless | hsame
        · exact hless
        · rw [hsame] at hnot
          exact absurd hoccurs hnot
      cases hindex : (content.drop offset).findIdx? (· == '\n') with
      | none =>
        constructor
        · intro found hfound
          cases hfound
        · intro _ other hother hoccurs
          exact no_line_start hindex (hlater other hother hoccurs) hoccurs.1 hoccurs.2.1
      | some index =>
        obtain ⟨hbound', hstart'⟩ := line_start_after hindex
        have hskip : ∀ other, offset ≤ other → Occurs content fragment other →
            offset + (index + 1) ≤ other := fun other hother hoccurs =>
          next_line_start hindex (hlater other hother hoccurs) hoccurs.1 hoccurs.2.1
        obtain ⟨hsome, hnone⟩ := ih (offset + (index + 1)) (by omega) hbound' hstart'
        constructor
        · intro found hfound
          obtain ⟨hoccurs, hfirst⟩ := hsome found hfound
          exact ⟨hoccurs, fun other hother hthere =>
            hfirst other (hskip other hother hthere) hthere⟩
        · intro hmissing other hother hoccurs
          exact hnone hmissing other (hskip other hother hoccurs) hoccurs

theorem findPatchFragment_first {content fragment : List Char} {found : Nat}
    (h : findPatchFragment content fragment = some found) :
    Occurs content fragment found ∧ ∀ other, Occurs content fragment other → found ≤ other := by
  have hspec := findFragment_spec content fragment (content.length + 1) 0 (by omega) (by omega)
    (by rw [List.take_zero]; exact atLineStart_nil)
  obtain ⟨hoccurs, hfirst⟩ := hspec.1 found h
  exact ⟨hoccurs, fun other => hfirst other (Nat.zero_le other)⟩

theorem findPatchFragment_some {content fragment : List Char} (h : Occurs content fragment offset) :
    ∃ found, findPatchFragment content fragment = some found := by
  have hspec := findFragment_spec content fragment (content.length + 1) 0 (by omega) (by omega)
    (by rw [List.take_zero]; exact atLineStart_nil)
  cases hresult : findPatchFragment content fragment with
  | some found => exact ⟨found, rfl⟩
  | none => exact absurd h (hspec.2 hresult offset (Nat.zero_le offset))

end Fragments

section Anchors

theorem FirstLine.unique {holds : List Char → Prop} :
    ∀ {earlier earlier' later later' : List (List Char)} {line line' : List Char},
      earlier ++ line :: later = earlier' ++ line' :: later' →
      FirstLine holds earlier line → FirstLine holds earlier' line' →
      earlier = earlier' ∧ line = line' := by
  intro earlier
  induction earlier with
  | nil =>
    intro earlier' later later' line line' hsame hfirst hfirst'
    cases earlier' with
    | nil => exact ⟨rfl, (List.cons.inj hsame).1⟩
    | cons head tail =>
      have hhead := (List.cons.inj hsame).1
      have hnot := hfirst'.2 head (by simp)
      rw [← hhead] at hnot
      exact absurd hfirst.1 hnot
  | cons head tail ih =>
    intro earlier' later later' line line' hsame hfirst hfirst'
    cases earlier' with
    | nil =>
      have hhead := (List.cons.inj hsame).1
      have hnot := hfirst.2 head (by simp)
      rw [hhead] at hnot
      exact absurd hfirst'.1 hnot
    | cons head' tail' =>
      obtain ⟨hhead, htail⟩ := List.cons.inj hsame
      have hrest : FirstLine holds tail line :=
        ⟨hfirst.1, fun other hother => hfirst.2 other (List.mem_cons_of_mem _ hother)⟩
      have hrest' : FirstLine holds tail' line' :=
        ⟨hfirst'.1, fun other hother => hfirst'.2 other (List.mem_cons_of_mem _ hother)⟩
      obtain ⟨hearlier, hline⟩ := ih htail hrest hrest'
      exact ⟨by rw [hhead, hearlier], hline⟩

theorem AnchorPassed.unique {anchor : Option (List Char)} {rest skipped skipped' : List Char}
    (h : AnchorPassed anchor rest skipped) (h' : AnchorPassed anchor rest skipped') :
    skipped = skipped' := by
  cases h with
  | none =>
    cases h'
    rfl
  | exact split first =>
    cases h' with
    | exact split' first' =>
      obtain ⟨hearlier, hline⟩ := FirstLine.unique (split.symm.trans split') first first'
      rw [hearlier, hline]
    | trimmed split' absent' _ =>
      exact absurd first.1 (absent' _ (by rw [split]; exact List.mem_append_cons_self))
  | trimmed split absent first =>
    cases h' with
    | exact split' first' =>
      exact absurd first'.1 (absent _ (by rw [split']; exact List.mem_append_cons_self))
    | trimmed split' _ first' =>
      obtain ⟨hearlier, hline⟩ := FirstLine.unique (split.symm.trans split') first first'
      rw [hearlier, hline]

theorem lines_passed {rest line : List Char} {earlier later : List (List Char)}
    (hsplit : splitInclusive rest = earlier ++ line :: later) :
    rest = (earlier ++ [line]).flatten ++ later.flatten ∧
      (AtLineStart (earlier ++ [line]).flatten ∨ later.flatten = []) := by
  have hsplit' : splitInclusive rest = (earlier ++ [line]) ++ later := by
    rw [hsplit, List.append_assoc]
    rfl
  constructor
  · rw [← List.flatten_append, ← hsplit', flatten_splitInclusive]
  · by_cases hlater : later = []
    · right
      rw [hlater]
      rfl
    · left
      exact atLineStart_lines hsplit' hlater

theorem AnchorPassed.splits {anchor : Option (List Char)} {rest skipped : List Char}
    (h : AnchorPassed anchor rest skipped) :
    ∃ later, rest = skipped ++ later ∧ (AtLineStart skipped ∨ later = []) := by
  cases h with
  | none => exact ⟨rest, rfl, .inl atLineStart_nil⟩
  | exact split _ | trimmed split _ _ => exact ⟨_, lines_passed split⟩

def Remembered (anchor : List Char) (passed : List (List Char)) (trimmed : Option Nat) : Prop :=
  (trimmed = none ∧ ∀ other ∈ passed, ¬ IsAnchorTrimmed anchor other) ∨
  ∃ earlier line later, passed = earlier ++ line :: later ∧
    FirstLine (IsAnchorTrimmed anchor) earlier line ∧
    trimmed = some (earlier ++ [line]).flatten.length

theorem Remembered.concat {anchor line : List Char} {passed : List (List Char)}
    {trimmed : Option Nat} (h : Remembered anchor passed trimmed) :
    Remembered anchor (passed ++ [line])
      (if trimmed = none ∧ trim (trimLineEnd line) = trim anchor
        then some (passed.flatten.length + line.length) else trimmed) := by
  rcases h with ⟨hnone, habsent⟩ | ⟨earlier, first, later, hpassed, hfirst, hsome⟩
  · by_cases hline : trim (trimLineEnd line) = trim anchor
    · rw [if_pos ⟨hnone, hline⟩]
      right
      refine ⟨passed, line, [], rfl, ⟨hline, habsent⟩, ?_⟩
      rw [List.flatten_append, List.length_append, List.flatten_singleton]
    · rw [if_neg (fun hboth => hline hboth.2)]
      left
      refine ⟨hnone, ?_⟩
      intro other hother
      rcases List.mem_append.mp hother with hpassed | hlast
      · exact habsent other hpassed
      · rw [List.mem_singleton.mp hlast]
        exact hline
  · rw [if_neg (fun hboth => by rw [hsome] at hboth; cases hboth.1)]
    right
    refine ⟨earlier, first, later ++ [line], ?_, hfirst, hsome⟩
    rw [hpassed, List.append_assoc]
    rfl

/-- The text up to the end of the anchor line among lines. -/
inductive PassedIn (anchor : List Char) (all : List (List Char)) : Nat → Prop
  | exact {line : List Char} {earlier later : List (List Char)}
      (split : all = earlier ++ line :: later) (first : FirstLine (IsAnchor anchor) earlier line) :
      PassedIn anchor all (earlier ++ [line]).flatten.length
  /-- A line is the anchor but for white space. -/
  | trimmed {line : List Char} {earlier later : List (List Char)}
      (split : all = earlier ++ line :: later) (absent : ∀ other ∈ all, ¬ IsAnchor anchor other)
      (first : FirstLine (IsAnchorTrimmed anchor) earlier line) :
      PassedIn anchor all (earlier ++ [line]).flatten.length

theorem findAnchor_passed (anchor : List Char) (later : List (List Char)) :
    ∀ passed trimmed found, (∀ other ∈ passed, ¬ IsAnchor anchor other) →
      Remembered anchor passed trimmed →
      findAnchor anchor later passed.flatten.length trimmed = some found →
      PassedIn anchor (passed ++ later) found := by
  induction later with
  | nil =>
    intro passed trimmed found habsent hremembered hfound
    rcases hremembered with ⟨hnone, _⟩ | ⟨earlier, line, others, hpassed, hfirst, hsome⟩
    · rw [hnone] at hfound
      cases hfound
    · have hsame : some found = some (earlier ++ [line]).flatten.length := by
        rw [← hsome, ← hfound]
        rfl
      rw [Option.some.inj hsame, List.append_nil]
      exact .trimmed hpassed habsent hfirst
  | cons line later ih =>
    intro passed trimmed found habsent hremembered hfound
    unfold findAnchor at hfound
    have hlength : (passed ++ [line]).flatten.length = passed.flatten.length + line.length := by
      rw [List.flatten_append, List.length_append, List.flatten_singleton]
    by_cases hline : trimLineEnd line = anchor
    · rw [if_pos hline, ← hlength] at hfound
      rw [← Option.some.inj hfound]
      exact .exact rfl ⟨hline, habsent⟩
    · rw [if_neg hline, ← hlength] at hfound
      have habsent' : ∀ other ∈ passed ++ [line], ¬ IsAnchor anchor other := by
        intro other hother
        rcases List.mem_append.mp hother with hpassed | hlast
        · exact habsent other hpassed
        · rw [List.mem_singleton.mp hlast]
          exact hline
      have hremembered' := @Remembered.concat anchor line passed trimmed hremembered
      rw [← hlength] at hremembered'
      have hpassed := ih (passed ++ [line]) _ found habsent' hremembered' hfound
      rw [List.append_assoc] at hpassed
      exact hpassed

theorem findPatchAnchor_passed {rest anchor : List Char} {found : Nat}
    (h : findPatchAnchor rest anchor = some found) :
    ∃ skipped, AnchorPassed (some anchor) rest skipped ∧ skipped.length = found := by
  have hpassed := findAnchor_passed anchor (splitInclusive rest) [] none found
    (fun _ hother => absurd hother (List.not_mem_nil)) (.inl ⟨rfl, fun _ hother =>
      absurd hother (List.not_mem_nil)⟩) h
  cases hpassed with
  | exact split first => exact ⟨_, .exact split first, rfl⟩
  | trimmed split absent first => exact ⟨_, .trimmed split absent first, rfl⟩

end Anchors

section Blocks

theorem lineEnding_ends (content : List Char) : (lineEnding content).getLast? = some '\n' := by
  unfold lineEnding
  by_cases hreturn : containsCrlf content = true
  · rw [if_pos hreturn]
    rfl
  · rw [if_neg hreturn]
    rfl

theorem withEnding_ne_nil {ending block : List Char} (hending : ending.getLast? = some '\n')
    (hblock : block ≠ []) : withEnding ending block ≠ [] := by
  cases block with
  | nil => exact absurd rfl hblock
  | cons c rest =>
    intro hempty
    have hfirst := List.flatMap_eq_nil_iff.mp hempty c List.mem_cons_self
    by_cases hfeed : c = '\n'
    · rw [if_pos hfeed] at hfirst
      rw [hfirst] at hending
      cases hending
    · rw [if_neg hfeed] at hfirst
      cases hfirst

theorem withEnding_start {ending block : List Char} (hending : ending.getLast? = some '\n')
    (hblock : AtLineStart block) : AtLineStart (withEnding ending block) := by
  rcases hblock with hempty | hlast
  · left
    rw [hempty]
    rfl
  · right
    obtain ⟨body, rfl⟩ := List.getLast?_eq_some_iff.mp hlast
    have hsplit : withEnding ending (body ++ ['\n']) = withEnding ending body ++ ending := by
      unfold withEnding
      rw [List.flatMap_append, List.flatMap_singleton, if_pos rfl]
    rw [hsplit, List.getLast?_append, hending]
    rfl

theorem blockIn_inner (ending updated block : List Char) :
    blockIn ending updated false block = withEnding ending block := by
  unfold blockIn
  rw [if_neg (by simp)]

theorem splitInclusive_ne_nil (text : List Char) : ∀ line ∈ splitInclusive text, line ≠ [] := by
  induction text with
  | nil => exact List.forall_mem_nil _
  | cons c rest ih =>
    intro line hline
    unfold splitInclusive at hline
    split at hline
    · rcases List.mem_cons.mp hline with rfl | hlater
      · exact List.cons_ne_nil _ _
      · exact ih line hlater
    · split at hline
      · rw [List.mem_singleton.mp hline]
        exact List.cons_ne_nil _ _
      · rename_i body later hsplit
        rcases List.mem_cons.mp hline with rfl | hlater
        · exact List.cons_ne_nil _ _
        · exact ih line (by rw [hsplit]; exact List.mem_cons_of_mem _ hlater)

theorem blockLines_feed (rest : List Char) : blockLines ('\n' :: rest) = [] :: blockLines rest := by
  unfold blockLines
  rw [splitInclusive, if_pos rfl]
  rfl

theorem blockLines_cons {c : Char} {rest : List Char} (hc : c ≠ '\n')
    (hrest : AtLineStart (c :: rest)) : ∃ line later, blockLines rest = line :: later ∧
      blockLines (c :: rest) = (c :: line) :: later := by
  unfold blockLines
  rw [splitInclusive, if_neg hc]
  cases hsplit : splitInclusive rest with
  | nil =>
    have hnone := flatten_splitInclusive rest
    rw [hsplit, List.flatten_nil] at hnone
    rw [← hnone] at hrest
    rcases hrest with hempty | hlast
    · cases hempty
    · exact absurd (Option.some.inj hlast) hc
  | cons line later =>
    have hline := splitInclusive_ne_nil rest line (by rw [hsplit]; exact List.mem_cons_self)
    refine ⟨_, _, rfl, ?_⟩
    rw [List.map_cons, List.dropLast_cons_of_ne_nil hline]

theorem atLineStart_tail {c : Char} {rest : List Char} (h : AtLineStart (c :: rest)) :
    AtLineStart rest := by
  cases rest with
  | nil => exact atLineStart_nil
  | cons next rest =>
    rcases h with hempty | hlast
    · cases hempty
    · right
      rwa [List.getLast?_cons_cons] at hlast

theorem withEnding_eq (ending : List Char) {block : List Char} (h : AtLineStart block) :
    withEnding ending block = (blockLines block).flatMap (· ++ ending) := by
  unfold withEnding
  induction block with
  | nil => rfl
  | cons c rest ih =>
    have hrest := ih (atLineStart_tail h)
    rw [List.flatMap_cons, hrest]
    by_cases hc : c = '\n'
    · rw [hc, blockLines_feed, if_pos rfl]
      rfl
    · obtain ⟨line, later, hlines, hcons⟩ := blockLines_cons hc h
      rw [if_neg hc, hlines, hcons]
      rfl

theorem intercalate_concat (ending : List Char) (earlier : List (List Char)) (line : List Char) :
    ending.intercalate (earlier ++ [line]) = earlier.flatMap (· ++ ending) ++ line := by
  induction earlier with
  | nil => exact List.intercalate_singleton
  | cons first earlier ih =>
    rw [List.cons_append, List.intercalate_cons_of_ne_nil (by simp), ih, List.flatMap_cons,
      List.append_assoc, List.append_assoc, List.append_assoc]

theorem dropEnding_eq {ending : List Char} (hending : ending ≠ []) (linesOf : List (List Char)) :
    dropEnding ending (linesOf.flatMap (· ++ ending)) = ending.intercalate linesOf := by
  unfold dropEnding
  cases List.eq_nil_or_concat' linesOf with
  | inl hempty =>
    rw [hempty, List.flatMap_nil, if_neg]
    · rfl
    · rw [List.isSuffixOf_iff_suffix, List.suffix_nil]
      exact hending
  | inr hlast =>
    obtain ⟨earlier, line, rfl⟩ := hlast
    rw [List.flatMap_append, List.flatMap_singleton, ← List.append_assoc,
      if_pos (List.isSuffixOf_iff_suffix.mpr (List.suffix_append _ _)), List.length_append,
      Nat.add_sub_cancel, List.take_left, intercalate_concat]

theorem blockIn_eq {ending updated block : List Char} {change : PatchChange}
    (hending : ending.getLast? = some '\n') (h : AtLineStart block) :
    blockIn ending updated change.endOfFile block = linesIn ending updated change block := by
  have hne : ending ≠ [] := by
    rintro rfl
    cases hending
  unfold blockIn linesIn
  by_cases hended : LinesEnded updated change
  · rw [if_pos hended, if_neg, withEnding_eq ending h]
    rintro ⟨hend, hnot⟩
    rcases hended with hinner | hlast
    · rw [hinner] at hend
      cases hend
    · exact hnot hlast
  · obtain ⟨hend, hnot⟩ := not_or.mp hended
    rw [if_neg hended, if_pos ⟨by simpa using hend, hnot⟩, withEnding_eq ending h,
      dropEnding_eq hne]

theorem blockLines_feedless {block : List Char} (h : AtLineStart block) :
    ∀ line ∈ blockLines block, '\n' ∉ line := by
  induction block with
  | nil => exact List.forall_mem_nil _
  | cons c rest ih =>
    have hrest := ih (atLineStart_tail h)
    by_cases hc : c = '\n'
    · rw [hc, blockLines_feed]
      exact List.forall_mem_cons.mpr ⟨List.not_mem_nil, hrest⟩
    · obtain ⟨line, later, hlines, hcons⟩ := blockLines_cons hc h
      rw [hlines] at hrest
      obtain ⟨hline, hlater⟩ := List.forall_mem_cons.mp hrest
      rw [hcons]
      refine List.forall_mem_cons.mpr ⟨?_, hlater⟩
      rw [List.mem_cons, not_or]
      exact ⟨fun hsame => hc hsame.symm, hline⟩

/-- The last line of a file that is not ended stays so exactly if the lines in its place leave one
that is not ended, or nothing. -/
theorem finalKept_iff {ending updated before block : List Char}
    (hending : ending.getLast? = some '\n') (hbefore : AtLineStart before)
    (hblock : AtLineStart block) (hopen : ¬EndsLine updated) :
    FinalKept updated (before ++ ending.intercalate (blockLines block)) ↔
      LeavesLine before block := by
  have hkept : ∀ next, FinalKept updated next ↔ next = [] ∨ ¬EndsLine next := fun next =>
    or_congr_right ⟨fun hsame hends => hopen (hsame.mpr hends),
      fun hnot => iff_of_false hopen hnot⟩
  have hfeedless := blockLines_feedless hblock
  rw [hkept]
  unfold LeavesLine
  -- What is left before the block ends a line, unless there is nothing.
  have hnothing : ∀ shown : List Char, shown = [] →
      (before ++ shown = [] ∨ ¬EndsLine (before ++ shown) ↔ before = []) := by
    rintro shown rfl
    rw [List.append_nil]
    refine ⟨fun h => ?_, .inl⟩
    rcases h with hempty | hnot
    · exact hempty
    · rcases hbefore with hempty | hends
      · exact hempty
      · exact absurd hends hnot
  generalize blockLines block = shown at hfeedless ⊢
  cases List.eq_nil_or_concat' shown with
  | inl hempty =>
    rw [hempty, hnothing _ List.intercalate_nil]
    simp
  | inr hlast =>
    obtain ⟨earlier, line, rfl⟩ := hlast
    rw [intercalate_concat, List.getLast?_concat]
    by_cases hline : line = []
    · rw [hline, List.append_nil]
      cases List.eq_nil_or_concat' earlier with
      | inl hnone =>
        rw [hnone, hnothing _ List.flatMap_nil]
        simp
      | inr hmore =>
        obtain ⟨others, other, rfl⟩ := hmore
        have hends : EndsLine (before ++ (others ++ [other]).flatMap (· ++ ending)) := by
          unfold EndsLine
          rw [List.flatMap_append, List.flatMap_singleton, ← List.append_assoc,
            ← List.append_assoc, List.getLast?_append, hending]
          rfl
        refine iff_of_false (not_or.mpr ⟨fun hempty => ?_, not_not.mpr hends⟩) ?_
        · rw [hempty] at hends
          cases hends
        · rintro (⟨last, hlast, hsome⟩ | ⟨-, hnone | hone⟩)
          · exact hsome (Option.some.inj hlast).symm
          · simp at hnone
          · have hlength := congrArg List.length hone
            simp at hlength
    · have hnot : ¬EndsLine (before ++ (earlier.flatMap (· ++ ending) ++ line)) := by
        intro hends
        unfold EndsLine at hends
        rw [← List.append_assoc, List.getLast?_append_of_ne_nil _ hline] at hends
        exact hfeedless line (by simp) (List.mem_of_getLast? hends)
      exact iff_of_true (.inr hnot) (.inl ⟨line, rfl, hline⟩)

theorem applyHunks_replaces {library : Library} (laws : LibraryLaws library)
    {before after rest : List Char} (hdiffer : before ≠ after)
    (hends : AtLineStart before ∨ rest = []) (hempty : before = [] → rest = []) :
    applyHunks library (before ++ rest)
      (library.createPatch (max (lines before).length (lines after).length) before after) =
      .ok (after ++ rest) := by
  obtain ⟨hunk, hpatch, hold, hnew⟩ := laws.whole _ before after hdiffer
    (le_max_left _ _) (le_max_right _ _)
  rw [← hold] at hends hempty
  have happlied := laws.first hunk [] rest atLineStart_nil hends hempty
    (fun _ _ _ _ => Nat.zero_le _)
  rw [List.nil_append, List.nil_append, hold, hnew] at happlied
  unfold applyHunks
  rw [hpatch, happlied]
  rfl

theorem createPatch_nil_iff {library : Library} (laws : LibraryLaws library)
    (before after : List Char) :
    library.createPatch (max (lines before).length (lines after).length) before after = [] ↔
      before = after := by
  constructor
  · intro hnone
    by_contra hdiffer
    obtain ⟨hunk, hpatch, _⟩ := laws.whole _ before after hdiffer
      (le_max_left _ _) (le_max_right _ _)
    rw [hnone] at hpatch
    cases hpatch
  · rintro rfl
    exact laws.equal _ _

theorem patchTail_ok {content suffix : List Char} {cursor : Nat}
    (h : patchTail content cursor = .ok suffix) :
    cursor ≤ content.length ∧ content.drop cursor = suffix := by
  unfold patchTail at h
  by_cases hbound : cursor ≤ content.length
  · rw [if_pos hbound] at h
    exact ⟨hbound, Except.ok.inj h⟩
  · rw [if_neg hbound] at h
    cases h

theorem replaceBlock_found {library : Library} (laws : LibraryLaws library)
    {progress next : Progress} {endOfFile : Bool} {before after : List Char} {cursor : Nat}
    (hends : ∀ start, blockStart endOfFile progress.updated before cursor = .ok start →
      (AtLineStart before ∧ before ≠ []) ∨ progress.updated.drop start = before)
    (h : replaceBlock library progress endOfFile before after cursor = .ok next) :
    ∃ start offset, blockStart endOfFile progress.updated before cursor = .ok start ∧
      start ≤ progress.updated.length ∧
      findPatchFragment (progress.updated.drop start) before = some offset ∧
      next.updated = progress.updated.take (start + offset) ++ after ++
        progress.updated.drop (start + offset + before.length) ∧
      next.cursor = start + offset + after.length := by
  unfold replaceBlock at h
  obtain ⟨start, hstart, h⟩ := bind_ok h
  obtain ⟨suffix, htail, h⟩ := bind_ok h
  obtain ⟨work, _, h⟩ := bind_ok h
  obtain ⟨hbound, hsuffix⟩ := patchTail_ok htail
  rw [← hsuffix] at h
  cases hfound : findPatchFragment (progress.updated.drop start) before with
  | none =>
    rw [hfound] at h
    cases h
  | some offset =>
    rw [hfound] at h
    obtain ⟨hoccurs, hfirst⟩ := findPatchFragment_first hfound
    obtain ⟨rest, hrest⟩ := hoccurs.2.2
    rw [List.drop_drop] at hrest
    have hlater : progress.updated.drop (start + offset + before.length) = rest := by
      rw [← List.drop_drop, ← hrest, List.drop_left]
    have hwhole : AtLineStart before ∨ rest = [] := by
      rcases hends start hstart with ⟨hlines, _⟩ | hall
      · exact .inl hlines
      · right
        have hlength := congrArg List.length hrest
        rw [← List.drop_drop, hall, List.length_append, List.length_drop] at hlength
        exact List.length_eq_zero_iff.mp (by omega)
    have hblank : before = [] → rest = [] := by
      intro hempty
      rcases hends start hstart with ⟨_, hne⟩ | hall
      · exact absurd hempty hne
      · have hlength := congrArg List.length hrest
        rw [← List.drop_drop, hall, List.length_append, List.length_drop] at hlength
        exact List.length_eq_zero_iff.mp (by omega)
    refine ⟨start, offset, hstart, hbound, hfound, ?_⟩
    by_cases hsame : before = after
    · have hnone := (createPatch_nil_iff laws before after).mpr hsame
      simp only [hnone, if_true] at h
      have hnext := Except.ok.inj h
      rw [← hnext, hlater]
      constructor
      · rw [← hsame, List.append_assoc, hrest, List.take_append_drop]
      · rw [← hsame]
    · have hsome := (createPatch_nil_iff laws before after).not.mpr hsame
      simp only [hsome, if_false] at h
      obtain ⟨suffix', htail', h⟩ := bind_ok h
      obtain ⟨patched, hpatched, h⟩ := bind_ok h
      have hdrop : before ++ rest = suffix' := by
        rw [hrest]
        exact (patchTail_ok htail').2
      rw [← hdrop, applyHunks_replaces laws hsame hwhole hblank] at hpatched
      have hnext := Except.ok.inj h
      rw [← hnext, ← Except.ok.inj hpatched, hlater]
      constructor
      · rw [List.append_assoc]
      · rfl

end Blocks

section Steps

/-- A file in its two parts. -/
def edited (progress : Progress) : Edited :=
  ⟨progress.updated.take progress.cursor, progress.updated.drop progress.cursor⟩

/-- The next change is looked for from a line start, or at the end of the file. -/
structure Stands (progress : Progress) : Prop where
  bound : progress.cursor ≤ progress.updated.length
  place : AtLineStart (progress.updated.take progress.cursor) ∨
    progress.updated.drop progress.cursor = []

structure WholeBlocks (change : PatchChange) : Prop where
  before : AtLineStart change.before
  after : AtLineStart change.after

/-- What a change with a block does to a file, where its block may begin inside a line if the
change ends the file. -/
structure Replaced (ending done rest : List Char) (change : PatchChange)
    (skipped between later : List Char) (next : Edited) : Prop where
  anchor : AnchorPassed change.anchor rest skipped
  found : rest = skipped ++ between ++
    blockIn ending (done ++ rest) change.endOfFile change.before ++ later
  ends : AtLineStart (blockIn ending (done ++ rest) change.endOfFile change.before) ∨ later = []
  last : change.endOfFile = true → later = []
  starts : change.endOfFile = false → AtLineStart (done ++ skipped ++ between)
  first : change.endOfFile = false → ∀ between' later',
    rest = skipped ++ between' ++
      blockIn ending (done ++ rest) change.endOfFile change.before ++ later' →
    AtLineStart (done ++ skipped ++ between') → between.length ≤ between'.length
  next : next = ⟨done ++ skipped ++ between ++
    blockIn ending (done ++ rest) change.endOfFile change.after, later⟩

theorem take_block {all start block : List Char} (h : all = start ++ block) :
    all.take (all.length - block.length) = start := by
  rw [h, List.length_append, Nat.add_sub_cancel, List.take_left]

variable {change : PatchChange} {ending later : List Char} {cursor : Nat} {progress next : Progress}
  {library : Library}

theorem Replaced.tail {done rest skipped between : List Char} {next : Edited}
    (h : Replaced ending done rest change skipped between later next)
    (hend : change.endOfFile = true) :
    beforeTail ending (done ++ rest) change = done ++ skipped ++ between := by
  refine take_block ?_
  conv_lhs => rw [h.found, h.last hend]
  simp only [List.append_assoc, List.append_nil]

/-- The text that a change ends keeps its final line feed, or its absence, exactly if the change
fits. -/
theorem Replaced.final {done rest skipped between : List Char} {next : Edited}
    (h : Replaced ending done rest change skipped between later next)
    (hending : ending.getLast? = some '\n') (hwhole : WholeBlocks change)
    (hblock : change.before ≠ []) (hstarts : AtLineStart (done ++ skipped ++ between)) :
    FinalKept (done ++ rest) (done ++ skipped ++ between ++
        linesIn ending (done ++ rest) change change.after ++ later) ↔
      (change.endOfFile = true → ¬EndsLine (done ++ rest) →
        LeavesLine (done ++ skipped ++ between) change.after) := by
  have hfile : done ++ rest = done ++ skipped ++ between ++
      blockIn ending (done ++ rest) change.endOfFile change.before ++ later := by
    conv_lhs => rw [h.found]
    simp only [List.append_assoc]
  by_cases hended : LinesEnded (done ++ rest) change
  · refine iff_of_true ?_ (fun hend hopen => ?_)
    · have hafter : AtLineStart (linesIn ending (done ++ rest) change change.after) := by
        unfold linesIn
        rw [if_pos hended, ← withEnding_eq ending hwhole.after]
        exact withEnding_start hending hwhole.after
      by_cases hlater : later = []
      · have hlines := hstarts.append hafter
        rw [hlater, List.append_nil]
        rcases hlines with hempty | hlast
        · exact .inl hempty
        · refine .inr (iff_of_true ?_ hlast)
          rcases hended with hinner | hlast
          · have hne := withEnding_ne_nil hending hblock
            have hends := (withEnding_start hending hwhole.before).resolve_left hne
            unfold EndsLine
            rw [hfile, hlater, List.append_nil, hinner, blockIn_inner,
              List.getLast?_append_of_ne_nil _ hne]
            exact hends
          · exact hlast
      · refine .inr ?_
        unfold EndsLine
        rw [hfile, List.getLast?_append_of_ne_nil _ hlater,
          List.getLast?_append_of_ne_nil _ hlater]
    · rcases hended with hinner | hlast
      · rw [hinner] at hend
        cases hend
      · exact absurd hlast hopen
  · obtain ⟨hinner, hopen⟩ := not_or.mp hended
    have hend : change.endOfFile = true := by simpa using hinner
    have hshown : linesIn ending (done ++ rest) change change.after =
        ending.intercalate (blockLines change.after) := if_neg hended
    rw [h.last hend, List.append_nil, hshown,
      finalKept_iff hending hstarts hwhole.after hopen]
    exact ⟨fun hleaves _ _ => hleaves, fun hleaves => hleaves hend hopen⟩

theorem Replaced.edit {done rest skipped between : List Char} {next : Edited}
    (h : Replaced ending done rest change skipped between later next)
    (hending : ending.getLast? = some '\n') (hwhole : WholeBlocks change)
    (hblock : change.before ≠ []) (hfitting : Fitting ending (done ++ rest) change) :
    Edit ending ⟨done, rest⟩ change next := by
  have hstarts : AtLineStart (done ++ skipped ++ between) := by
    cases hend : change.endOfFile with
    | false => exact h.starts hend
    | true =>
      have haligned := hfitting.aligned hend hblock
      rwa [h.tail hend] at haligned
  have hfinal := (h.final hending hwhole hblock hstarts).mpr fun hend hopen => by
    have hleaves := hfitting.leaves hend hblock hopen
    rwa [h.tail hend] at hleaves
  have hfound := h.found
  have hends := h.ends
  have hfirst := h.first
  rw [blockIn_eq hending hwhole.before] at hfound hends
  rw [blockIn_eq hending hwhole.before] at hfirst
  rw [h.next, blockIn_eq hending hwhole.after]
  exact .replace hblock rfl rfl h.anchor hfound hstarts hends h.last hfirst hfinal

theorem Replaced.only {done rest skipped between : List Char} {next other : Edited}
    (h : Replaced ending done rest change skipped between later next)
    (hending : ending.getLast? = some '\n') (hwhole : WholeBlocks change)
    (hblock : change.before ≠ []) (hedit : Edit ending ⟨done, rest⟩ change other) :
    Fitting ending (done ++ rest) change ∧ other = next := by
  cases hedit with
  | append pure _ _ => exact absurd pure hblock
  | @replace _ _ skipped' between' before' after' later' _ _ stands placed anchor found starts ends
      last first final =>
    rw [← blockIn_eq hending hwhole.before] at stands
    subst stands placed
    have hskipped := AnchorPassed.unique h.anchor anchor
    subst hskipped
    have hlengths := congrArg List.length (h.found.symm.trans found)
    simp only [List.length_append] at hlengths
    have hbetween : between.length = between'.length := by
      cases hend : change.endOfFile with
      | true =>
        rw [h.last hend, last hend] at hlengths
        omega
      | false =>
        have hle := h.first hend between' later' found starts
        have hge := first hend between later h.found (h.starts hend)
        omega
    have hsame := h.found.symm.trans found
    rw [List.append_assoc, List.append_assoc, List.append_assoc, List.append_assoc] at hsame
    have hrest := List.append_cancel_left hsame
    obtain ⟨hbetweens, htails⟩ := List.append_inj hrest hbetween
    have hlater := List.append_cancel_left htails
    subst hbetweens hlater
    refine ⟨⟨fun hpure => absurd hpure hblock, fun hend _ => ?_, fun hend _ hopen => ?_⟩, ?_⟩
    · rwa [h.tail hend]
    · rw [h.tail hend]
      exact (h.final hending hwhole hblock starts).mp final hend hopen
    · rw [h.next, blockIn_eq hending hwhole.after]

theorem edited_whole (progress : Progress) :
    (edited progress).done ++ (edited progress).rest = progress.updated :=
  List.take_append_drop _ _

theorem skipAnchor_passes (hstands : Stands progress)
    (h : skipAnchor library progress change = .ok cursor) :
    ∃ skipped, AnchorPassed change.anchor (edited progress).rest skipped ∧
      progress.updated.take cursor = (edited progress).done ++ skipped ∧
      (edited progress).rest = skipped ++ progress.updated.drop cursor ∧
      (AtLineStart (progress.updated.take cursor) ∨ progress.updated.drop cursor = []) := by
  unfold skipAnchor at h
  cases hanchor : change.anchor with
  | none =>
    rw [hanchor] at h
    have hsame := Except.ok.inj h
    rw [← hsame]
    exact ⟨[], .none _, (List.append_nil _).symm, rfl, hstands.place⟩
  | some anchor =>
    rw [hanchor] at h
    obtain ⟨tail, htail, h⟩ := bind_ok h
    cases hfound : findPatchAnchor tail anchor with
    | none =>
      rw [hfound] at h
      cases h
    | some offset =>
      rw [hfound] at h
      have hcursor : progress.cursor + offset = cursor := Except.ok.inj h
      rw [← (patchTail_ok htail).2] at hfound
      obtain ⟨skipped, hpassed, hlength⟩ := findPatchAnchor_passed hfound
      obtain ⟨later, hsplit, hends⟩ := hpassed.splits
      have hdrop : progress.updated.drop cursor = later := by
        rw [← hcursor, ← List.drop_drop, hsplit, ← hlength, List.drop_left]
      have htake : progress.updated.take cursor = (edited progress).done ++ skipped := by
        rw [← hcursor, List.take_add, hsplit, ← hlength, List.take_left]
        rfl
      refine ⟨skipped, hpassed, htake, ?_, ?_⟩
      · rw [hdrop]
        exact hsplit
      · rcases hends with hlines | hnone
        · rcases hstands.place with hstart | hempty
          · left
            rw [htake]
            exact hstart.append hlines
          · right
            rw [hempty] at hsplit
            rw [hdrop]
            exact (List.append_eq_nil_iff.mp hsplit.symm).2
        · right
          rw [hdrop, hnone]

theorem blockStart_ok {endOfFile : Bool} {updated before : List Char} {start : Nat}
    (h : blockStart endOfFile updated before cursor = .ok start) :
    (endOfFile = true → cursor ≤ start ∧ updated.drop start = before) ∧
      (endOfFile = false → start = cursor) := by
  unfold blockStart at h
  cases endOfFile with
  | false =>
    have hsame := Except.ok.inj h
    exact ⟨fun hend => absurd hend (by simp), fun _ => hsame.symm⟩
  | true =>
    refine ⟨fun _ => ?_, fun hend => absurd hend (by simp)⟩
    simp only [if_true] at h
    by_cases hbad : updated.length - before.length < cursor ∨ ¬ before.isSuffixOf updated = true
    · rw [if_pos hbad] at h
      cases h
    · rw [if_neg hbad] at h
      have hstart := Except.ok.inj h
      obtain ⟨hcursor, hsuffix⟩ := not_or.mp hbad
      obtain ⟨earlier, hearlier⟩ := List.isSuffixOf_iff_suffix.mp (not_not.mp hsuffix)
      rw [← hstart]
      refine ⟨by omega, ?_⟩
      rw [← hearlier, List.length_append, Nat.add_sub_cancel, List.drop_left]

theorem occurs_of_split {between fragment later : List Char} (hstart : AtLineStart between) :
    Occurs (between ++ fragment ++ later) fragment between.length := by
  refine ⟨?_, ?_, ?_⟩
  · simp only [List.length_append]
    omega
  · rwa [List.append_assoc, List.take_left]
  · rw [List.append_assoc, List.drop_left]
    exact List.prefix_append _ _

theorem edited_cut {first : List Char} (hupdated : progress.updated = first ++ later)
    (hcursor : progress.cursor = first.length) :
    edited progress = ⟨first, later⟩ ∧ progress.cursor ≤ progress.updated.length := by
  constructor
  · unfold edited
    rw [hupdated, hcursor, List.take_left, List.drop_left]
  · rw [hupdated, hcursor, List.length_append]
    omega

theorem replaceBlock_replaced (laws : LibraryLaws library) (hending : ending.getLast? = some '\n')
    (hstands : Stands progress) (hwhole : WholeBlocks change) (hblock : change.before ≠ [])
    (hskip : skipAnchor library progress change = .ok cursor)
    (h : replaceBlock library progress change.endOfFile
      (blockIn ending progress.updated change.endOfFile change.before)
      (blockIn ending progress.updated change.endOfFile change.after) cursor = .ok next) :
    ∃ skipped between later, Replaced ending (edited progress).done (edited progress).rest change
      skipped between later (edited next) ∧ next.cursor ≤ next.updated.length := by
  obtain ⟨skipped, hpassed, htake, hrest, hplace⟩ := skipAnchor_passes hstands hskip
  generalize hbefores : blockIn ending progress.updated change.endOfFile change.before = before
    at h
  generalize hafters : blockIn ending progress.updated change.endOfFile change.after = after at h
  have hinner : change.endOfFile = false → AtLineStart before ∧ before ≠ [] := by
    intro hend
    rw [← hbefores, hend, blockIn_inner]
    exact ⟨withEnding_start hending hwhole.before, withEnding_ne_nil hending hblock⟩
  have hends : ∀ start,
      blockStart change.endOfFile progress.updated before cursor = .ok start →
      (AtLineStart before ∧ before ≠ []) ∨ progress.updated.drop start = before := by
    intro start hstart
    cases hend : change.endOfFile with
    | false => exact .inl (hinner hend)
    | true => exact .inr ((blockStart_ok hstart).1 hend).2
  obtain ⟨start, offset, hstart, hbound, hfound, hupdated, hcursor⟩ :=
    replaceBlock_found laws hends h
  obtain ⟨hoccurs, hfirst⟩ := findPatchFragment_first hfound
  obtain ⟨later, hlater⟩ := hoccurs.2.2
  have hinside : start + offset ≤ progress.updated.length := by
    have hle := hoccurs.1
    rw [List.length_drop] at hle
    omega
  have hcursorle : cursor ≤ start + offset := by
    cases hend : change.endOfFile with
    | false =>
      have hsame := (blockStart_ok hstart).2 hend
      omega
    | true =>
      have hle := ((blockStart_ok hstart).1 hend).1
      omega
  obtain ⟨distance, hdistance⟩ := Nat.exists_eq_add_of_le hcursorle
  rw [List.drop_drop] at hlater
  have hdrop : progress.updated.drop (start + offset + before.length) = later := by
    rw [← List.drop_drop, ← hlater, List.drop_left]
  have hbetween : progress.updated.drop cursor =
      (progress.updated.drop cursor).take distance ++ before ++ later := by
    rw [List.append_assoc, hlater, hdistance, ← List.drop_drop, List.take_append_drop]
  have hlength : ((progress.updated.drop cursor).take distance).length = distance := by
    rw [List.length_take, List.length_drop]
    omega
  have hbefore : progress.updated.take (start + offset) =
      (edited progress).done ++ skipped ++ (progress.updated.drop cursor).take distance := by
    rw [hdistance, List.take_add, htake]
  have hnext := edited_cut (hupdated.trans (by rw [hdrop])) (by
    rw [hcursor, List.length_append, List.length_take, Nat.min_eq_left hinside])
  have hnone : change.endOfFile = true → later = [] := by
    intro hend
    have hall := ((blockStart_ok hstart).1 hend).2
    have hzero := hfirst 0 ⟨Nat.zero_le _, atLineStart_nil, by
      rw [List.drop_zero, hall]⟩
    have hoffset : offset = 0 := by omega
    rw [← hdrop, hoffset, Nat.add_zero, ← List.drop_drop, hall, List.drop_length]
  refine ⟨skipped, (progress.updated.drop cursor).take distance, later, ?_, hnext.2⟩
  have hsplit : (edited progress).rest =
      skipped ++ (progress.updated.drop cursor).take distance ++ before ++ later := by
    rw [hrest, List.append_assoc skipped, List.append_assoc skipped]
    exact congrArg (skipped ++ ·) hbetween
  constructor
  · exact hpassed
  · rw [edited_whole, hbefores]
    exact hsplit
  · rw [edited_whole, hbefores]
    cases hend : change.endOfFile with
    | false => exact .inl (hinner hend).1
    | true => exact .inr (hnone hend)
  · exact hnone
  · intro hend
    have hsame := (blockStart_ok hstart).2 hend
    have hoffset : offset = distance := by omega
    rw [← htake]
    rcases hplace with hstarts | hempty
    · refine hstarts.append ?_
      rw [← hoffset, ← hsame]
      exact hoccurs.2.1
    · rw [hempty] at hbetween
      have hblank := (List.append_eq_nil_iff.mp hbetween.symm).1
      exact absurd (List.append_eq_nil_iff.mp hblank).2 (hinner hend).2
  · intro hend between' later' hsplit' hstarts
    rw [edited_whole, hbefores, hrest, List.append_assoc skipped, List.append_assoc skipped]
      at hsplit'
    have hfile := List.append_cancel_left hsplit'
    have hsame := (blockStart_ok hstart).2 hend
    have hoccurs' := @occurs_of_split between' before later' hstarts.of_append
    rw [← hfile, ← hsame] at hoccurs'
    have hle := hfirst _ hoccurs'
    rw [hlength]
    omega
  · rw [hnext.1, hbefore, edited_whole, hafters]

/-- What one round of the application does: from a place where a change can be looked for it comes
to another, and it edits whole lines exactly if the change fits the file. -/
theorem applyChange_edits (laws : LibraryLaws library) (hending : ending.getLast? = some '\n')
    (hstands : Stands progress) (hwhole : WholeBlocks change)
    (h : applyChange library ending progress change = .ok next) :
    Stands next ∧
      (Fitting ending progress.updated change →
        Edit ending (edited progress) change (edited next)) ∧
      ∀ other, Edit ending (edited progress) change other →
        Fitting ending progress.updated change ∧ other = edited next := by
  unfold applyChange at h
  obtain ⟨cursor, hskip, h⟩ := bind_ok h
  by_cases hblock : change.before = []
  · obtain ⟨skipped, hpassed, _⟩ := skipAnchor_passes hstands hskip
    rw [if_pos hblock] at h
    have hnext := Except.ok.inj h
    have hparts : edited next =
        ⟨endLastLine ending progress.updated ++ withEnding ending change.after, []⟩ := by
      rw [← hnext]
      unfold edited
      rw [List.take_length, List.drop_length]
    have hended : AtLineStart progress.updated → endLastLine ending progress.updated =
        (edited progress).done ++ (edited progress).rest := by
      intro hlines
      rw [edited_whole]
      unfold endLastLine
      refine if_neg ?_
      rintro ⟨hsome, hopen⟩
      exact hopen (hlines.resolve_left hsome)
    refine ⟨⟨?_, ?_⟩, ?_, ?_⟩
    · rw [← hnext]
    · right
      exact congrArg Edited.rest hparts
    · intro hfitting
      have hlines := hfitting.insertion hblock
      rw [hparts, hended hlines, withEnding_eq ending hwhole.after]
      exact .append hblock hpassed (by rw [← edited_whole progress] at hlines; exact hlines)
    · intro other hedit
      rw [hparts]
      cases hedit with
      | append _ _ ended =>
        have ended : AtLineStart progress.updated := by
          rw [← edited_whole progress]
          exact ended
        rw [hended ended, withEnding_eq ending hwhole.after]
        exact ⟨⟨fun _ => ended, fun _ hne => absurd hblock hne, fun _ hne => absurd hblock hne⟩,
          rfl⟩
      | replace block _ _ _ _ _ _ _ _ _ => exact absurd hblock block
  · rw [if_neg hblock] at h
    obtain ⟨skipped, between, later, hreplaced, hbound⟩ :=
      replaceBlock_replaced laws hending hstands hwhole hblock hskip h
    refine ⟨⟨hbound, ?_⟩, ?_, ?_⟩
    · cases hend : change.endOfFile with
      | true =>
        right
        have hrest := congrArg Edited.rest hreplaced.next
        exact hrest.trans (hreplaced.last hend)
      | false =>
        left
        have hstart : AtLineStart (edited next).done := by
          rw [hreplaced.next, hend, blockIn_inner]
          exact (hreplaced.starts hend).append (withEnding_start hending hwhole.after)
        exact hstart
    · intro hfitting
      rw [← edited_whole progress] at hfitting
      exact hreplaced.edit hending hwhole hblock hfitting
    · intro other hedit
      rw [← edited_whole progress]
      exact hreplaced.only hending hwhole hblock hedit

/-- Every change finds the file as it needs it, from a state on. -/
def FittingFrom (library : Library) (ending : List Char) (progress : Progress)
    (changes : List PatchChange) : Prop :=
  ∀ earlier change later reached, changes = earlier ++ change :: later →
    applyChanges library ending progress earlier = .ok reached →
    Fitting ending reached.updated change

theorem fittingFrom_cons {later : List PatchChange}
    (h : applyChange library ending progress change = .ok next) :
    FittingFrom library ending progress (change :: later) ↔
      Fitting ending progress.updated change ∧ FittingFrom library ending next later := by
  constructor
  · intro hfitting
    refine ⟨hfitting [] change later progress rfl rfl, ?_⟩
    intro earlier other rest reached hsplit hreached
    refine hfitting (change :: earlier) other rest reached (by rw [hsplit]; rfl) ?_
    unfold applyChanges
    rw [h]
    exact hreached
  · rintro ⟨hfirst, hlater⟩ earlier other rest reached hsplit hreached
    cases earlier with
    | nil =>
      obtain ⟨hother, _⟩ := List.cons.inj hsplit
      have hsame := Except.ok.inj hreached
      rw [← hother, ← hsame]
      exact hfirst
    | cons head earlier =>
      obtain ⟨hhead, hrest⟩ := List.cons.inj hsplit
      unfold applyChanges at hreached
      rw [← hhead, h] at hreached
      exact hlater earlier other rest reached hrest hreached

theorem applyChanges_edits (laws : LibraryLaws library) (hending : ending.getLast? = some '\n')
    (changes : List PatchChange) :
    ∀ progress last, Stands progress → (∀ change ∈ changes, WholeBlocks change) →
      applyChanges library ending progress changes = .ok last →
      (FittingFrom library ending progress changes →
        Edits ending (edited progress) changes (edited last)) ∧
      ∀ other, Edits ending (edited progress) changes other →
        FittingFrom library ending progress changes ∧ other = edited last := by
  induction changes with
  | nil =>
    intro progress last _ _ h
    have hsame := Except.ok.inj h
    rw [hsame]
    refine ⟨fun _ => .nil _, ?_⟩
    intro other hedits
    cases hedits
    refine ⟨?_, rfl⟩
    intro earlier change later _ hsplit _
    have hlength := congrArg List.length hsplit
    simp at hlength
  | cons change later ih =>
    intro progress last hstands hwhole h
    unfold applyChanges at h
    obtain ⟨next, hnext, h⟩ := bind_ok h
    obtain ⟨hstands', hedit, honly⟩ := applyChange_edits laws hending hstands
      (hwhole change List.mem_cons_self) hnext
    obtain ⟨hedits, honlies⟩ := ih next last hstands'
      (fun other hother => hwhole other (List.mem_cons_of_mem _ hother)) h
    constructor
    · intro hfitting
      obtain ⟨hfirst, hlater⟩ := (fittingFrom_cons hnext).mp hfitting
      exact .cons (hedit hfirst) (hedits hlater)
    · intro other hall
      cases hall with
      | cons head tail =>
        obtain ⟨hfirst, hsame⟩ := honly _ head
        rw [hsame] at tail
        obtain ⟨hlater, hlast⟩ := honlies other tail
        exact ⟨(fittingFrom_cons hnext).mpr ⟨hfirst, hlater⟩, hlast⟩

end Steps

section Parsing

theorem pushPatchLine_start (target line : List Char) : AtLineStart (pushPatchLine target line) :=
  atLineStart_concat _

theorem wholeBlocks_new : WholeBlocks {} := ⟨atLineStart_nil, atLineStart_nil⟩

theorem changeLine_whole {change next : PatchChange} {line : List Char}
    (hwhole : WholeBlocks change) (h : changeLine change line = .ok next) : WholeBlocks next := by
  unfold changeLine at h
  split at h
  · rw [← Except.ok.inj h]
    exact ⟨pushPatchLine_start _ _, pushPatchLine_start _ _⟩
  · rw [← Except.ok.inj h]
    exact ⟨hwhole.before, pushPatchLine_start _ _⟩
  · rw [← Except.ok.inj h]
    exact ⟨pushPatchLine_start _ _, hwhole.after⟩
  · rw [← Except.ok.inj h]
    exact ⟨pushPatchLine_start _ _, pushPatchLine_start _ _⟩
  · cases h

theorem anchorLine_whole {change : PatchChange} (line : List Char) (hwhole : WholeBlocks change) :
    WholeBlocks (anchorLine change line) := by
  unfold anchorLine
  split
  · exact ⟨hwhole.before, hwhole.after⟩
  · exact hwhole

theorem pushPatchChange_whole {changes : List PatchChange} {change : PatchChange}
    (hall : ∀ other ∈ changes, WholeBlocks other) (hwhole : WholeBlocks change) :
    (∀ other ∈ (pushPatchChange changes change).1, WholeBlocks other) ∧
      WholeBlocks (pushPatchChange changes change).2 := by
  unfold pushPatchChange
  by_cases hlines : change.before ≠ [] ∨ change.after ≠ []
  · rw [if_pos hlines]
    refine ⟨?_, wholeBlocks_new⟩
    intro other hother
    rcases List.mem_append.mp hother with hearlier | hlast
    · exact hall other hearlier
    · rw [List.mem_singleton.mp hlast]
      exact hwhole
  · rw [if_neg hlines]
    exact ⟨hall, hwhole⟩

theorem parseChanges_whole (remaining : List (List Char)) :
    ∀ changes change result, (∀ other ∈ changes, WholeBlocks other) → WholeBlocks change →
      parseChanges remaining changes change = .ok result →
      ∀ other ∈ result, WholeBlocks other := by
  induction remaining with
  | nil =>
    intro changes change result _ _ h
    cases h
  | cons line later ih =>
    intro changes change result hall hwhole h
    obtain ⟨hpushed, hnew⟩ := pushPatchChange_whole hall hwhole
    unfold parseChanges at h
    by_cases hfinish : line = "*** End Patch".toList
    · rw [if_pos hfinish] at h
      by_cases hlater : later ≠ []
      · simp only [hlater, if_true, not_false_eq_true, ne_eq] at h
        cases h
      · by_cases hnone : (pushPatchChange changes change).1 = []
        · simp only [hlater, hnone, if_true, if_false] at h
          cases h
        · simp only [hlater, hnone, if_false] at h
          rw [← Except.ok.inj h]
          exact hpushed
    · rw [if_neg hfinish] at h
      by_cases hend : change.endOfFile = true
      · rw [if_pos hend] at h
        by_cases hblank : line = []
        · rw [if_pos hblank] at h
          exact ih changes change result hall hwhole h
        · rw [if_neg hblank] at h
          cases h
      · rw [if_neg hend] at h
        by_cases hanchor : line = "@@".toList ∨ "@@ ".toList.isPrefixOf line = true
        · rw [if_pos hanchor] at h
          exact ih _ _ result hpushed (anchorLine_whole line hnew) h
        · rw [if_neg hanchor] at h
          by_cases hfile : line = "*** End of File".toList
          · rw [if_pos hfile] at h
            by_cases hempty : change.before = [] ∧ change.after = []
            · rw [if_pos hempty] at h
              cases h
            · rw [if_neg hempty] at h
              exact ih changes { change with endOfFile := true } result hall
                ⟨hwhole.before, hwhole.after⟩ h
          · rw [if_neg hfile] at h
            by_cases hother : "*** ".toList.isPrefixOf line = true
            · rw [if_pos hother] at h
              cases h
            · rw [if_neg hother] at h
              cases hline : changeLine change line with
              | error error =>
                rw [hline] at h
                cases h
              | ok next =>
                rw [hline] at h
                exact ih _ _ result hall (changeLine_whole hwhole hline) h

theorem parsePatchDocument_whole {input : List Char} {document : PatchDocument}
    (h : parsePatchDocument input = .ok document) :
    ∀ change ∈ document.changes, WholeBlocks change := by
  unfold parsePatchDocument at h
  split at h
  · cases h
  · rename_i first later _
    by_cases hfirst : first ≠ "*** Begin Patch".toList
    · rw [if_pos hfirst] at h
      cases h
    · rw [if_neg hfirst] at h
      split at h
      · cases h
      · rename_i line later' _
        split at h
        · rename_i head tail _
          cases hparsed : parseChanges later' [] {} with
          | error error =>
            rw [hparsed] at h
            cases h
          | ok changes =>
            rw [hparsed] at h
            have hdocument := Except.ok.inj h
            rw [← hdocument]
            exact parseChanges_whole later' [] {} changes
              (fun _ hother => absurd hother List.not_mem_nil) wholeBlocks_new hparsed
        · cases h

end Parsing

section Documents

theorem containsCrlf_iff (content : List Char) :
    containsCrlf content = true ↔ ['\r', '\n'] <:+: content := by
  induction content using containsCrlf.induct with
  | case1 rest => exact iff_of_true rfl ⟨[], rest, rfl⟩
  | case2 c rest hother ih =>
    rw [containsCrlf, ih, List.infix_cons_iff]
    · refine ⟨.inr, fun h => h.resolve_left ?_⟩
      rintro ⟨later, hlater⟩
      exact hother later (List.cons.inj hlater).1.symm (List.cons.inj hlater).2.symm
    · exact hother
  | case3 => exact iff_of_false Bool.false_ne_true (by simp)

theorem fileEnding_iff (content ending : List Char) :
    FileEnding content ending ↔ ending = lineEnding content := by
  unfold lineEnding
  constructor
  · rintro (found | absent)
    · rw [if_pos ((containsCrlf_iff content).mpr found)]
    · rw [if_neg fun h => absent ((containsCrlf_iff content).mp h)]
  · rintro rfl
    by_cases hcrlf : containsCrlf content = true
    · rw [if_pos hcrlf]
      exact .crlf ((containsCrlf_iff content).mp hcrlf)
    · rw [if_neg hcrlf]
      exact .lf fun h => hcrlf ((containsCrlf_iff content).mpr h)

/-- An accepted document edits whole lines exactly where its context matches: for each change the
block at a line start behind the earlier ones is replaced and nothing else, exactly if every change
finds the file as it needs it. -/
theorem accepted_patch_edits_lines {library : Library} (laws : LibraryLaws library)
    {input content result : List Char} {document : PatchDocument}
    (hparsed : parsePatchDocument input = .ok document)
    (happlied : applyPatchDocument library content document = .ok result) :
    LineEdits content document result ↔ ChangesFitting library content document := by
  unfold applyPatchDocument at happlied
  cases hrun : applyChanges library (lineEnding content) ⟨content, 0, 0⟩ document.changes with
  | error error =>
    rw [hrun] at happlied
    cases happlied
  | ok last =>
    rw [hrun] at happlied
    have hresult : last.updated = result := Except.ok.inj happlied
    have hstands : Stands ⟨content, 0, 0⟩ := ⟨Nat.zero_le _, .inl atLineStart_nil⟩
    obtain ⟨hedits, honly⟩ := applyChanges_edits laws (lineEnding_ends content) document.changes
      ⟨content, 0, 0⟩ last hstands (parsePatchDocument_whole hparsed) hrun
    constructor
    · rintro ⟨ending, hending, other, hother, _⟩
      rw [(fileEnding_iff content ending).mp hending] at hother
      exact (honly other hother).1
    · intro hfitting
      refine ⟨_, (fileEnding_iff content _).mpr rfl, edited last, hedits hfitting, ?_⟩
      rw [edited_whole, hresult]

/-- A library that deletes the lines of the preimage and inserts those of the postimage. -/
def plainLibrary : Library where
  createPatch _ before after :=
    if before = after then []
    else [⟨1, (lines after).length,
      (splitInclusive before).map .delete ++ (splitInclusive after).map .insert⟩]
  apply content hunks := hunks.foldlM (fun content hunk =>
    match findPatchFragment content hunk.preimage with
    | some offset => .ok (content.take offset ++ hunk.postimage ++
        content.drop (offset + hunk.preimage.length))
    | none => .error "error applying hunk #1") content
  debug text := String.ofList text

theorem plainLibrary_laws : LibraryLaws plainLibrary := by
  constructor
  · intro context text
    exact if_pos rfl
  · intro context before after hdiffer _ _
    refine ⟨_, if_neg hdiffer, ?_, ?_⟩
    · simp [Hunk.preimage, Line.old, List.filterMap_append, List.filterMap_map, Function.comp_def]
    · simp [Hunk.postimage, Line.new, List.filterMap_append, List.filterMap_map, Function.comp_def]
  · intro hunk earlier rest hstart _ _ hminimal
    have hoccurs := @occurs_of_split earlier hunk.preimage rest hstart
    obtain ⟨found, hfound⟩ := findPatchFragment_some hoccurs
    obtain ⟨hthere, hfirst⟩ := findPatchFragment_first hfound
    have hle := hfirst _ hoccurs
    obtain ⟨later, hlater⟩ := hthere.2.2
    have hsplit := List.take_append_drop found (earlier ++ hunk.preimage ++ rest)
    rw [← hlater, ← List.append_assoc] at hsplit
    have hge := hminimal _ later hsplit.symm hthere.2.1
    rw [List.length_take, Nat.min_eq_left hthere.1] at hge
    have hplace : found = earlier.length := by omega
    have hrun : plainLibrary.apply (earlier ++ hunk.preimage ++ rest) [hunk] =
        .ok ((earlier ++ hunk.preimage ++ rest).take found ++ hunk.postimage ++
          (earlier ++ hunk.preimage ++ rest).drop (found + hunk.preimage.length)) := by
      simp only [plainLibrary, List.foldlM_cons, List.foldlM_nil, hfound, bind_pure]
    rw [hrun, hplace, ← List.length_append, List.drop_left, List.append_assoc earlier,
      List.take_left]

/-- A document of one file. -/
def noteDocument (changes : String) : List Char :=
  ("*** Begin Patch\n*** Update File: note.txt\n" ++ changes ++ "\n*** End Patch").toList

def noteChanges (changes : List PatchChange) : PatchDocument := ⟨"note.txt".toList, changes⟩

/-- Two changes of a file of two sections, the second of its last line, which is not ended. -/
def sectionChanges : List PatchChange :=
  [⟨some "one:".toList, "old\n".toList, "new\nmore\n".toList, false⟩,
    ⟨none, "end\n".toList, "last\n".toList, true⟩]

/-- The line after an anchor is replaced by two and the last line, which is not ended, by another,
with the line endings of the file. -/
theorem accepted_patch_edits_lines_small :
    LineEdits "old\r\none:\r\nold\r\nend".toList (noteChanges sectionChanges)
      "old\r\none:\r\nnew\r\nmore\r\nlast".toList := by
  refine (@accepted_patch_edits_lines plainLibrary plainLibrary_laws
    (noteDocument "@@ one:\n-old\n+new\n+more\n@@\n-end\n+last\n*** End of File")
    "old\r\none:\r\nold\r\nend".toList "old\r\none:\r\nnew\r\nmore\r\nlast".toList
    (noteChanges sectionChanges) (by rfl) (by rfl)).mpr ?_
  refine (fittingFrom_cons (by rfl)).mpr ⟨⟨?_, ?_, ?_⟩, (fittingFrom_cons (by rfl)).mpr
    ⟨⟨?_, ?_, ?_⟩, ?_⟩⟩
  · intro hpure
    cases hpure
  · intro hend
    cases hend
  · intro hend
    cases hend
  · intro hpure
    cases hpure
  · intro _ _
    exact .inr (by rfl)
  · intro _ _ _
    exact .inl ⟨"last".toList, by rfl, by decide⟩
  · intro earlier change later reached hsplit
    exact absurd hsplit (by simp)

/-- The end of a line is replaced as if it were the last line of the file, lines are put behind a
last line that is ended for them, and what is left of a file whose last line goes is ended. -/
theorem end_of_line_is_replaced :
    (parsePatchDocument (noteDocument "@@\n-bar\n+baz\n*** End of File") =
        .ok (noteChanges [⟨none, "bar\n".toList, "baz\n".toList, true⟩]) ∧
      applyPatchDocument plainLibrary "foobar\n".toList
          (noteChanges [⟨none, "bar\n".toList, "baz\n".toList, true⟩]) =
        .ok "foobaz\n".toList ∧
      ¬LineEdits "foobar\n".toList
        (noteChanges [⟨none, "bar\n".toList, "baz\n".toList, true⟩]) "foobaz\n".toList) ∧
    (parsePatchDocument (noteDocument "@@\n+b") =
        .ok (noteChanges [⟨none, [], "b\n".toList, false⟩]) ∧
      applyPatchDocument plainLibrary "a".toList (noteChanges [⟨none, [], "b\n".toList, false⟩]) =
        .ok "a\nb\n".toList ∧
      ¬LineEdits "a".toList (noteChanges [⟨none, [], "b\n".toList, false⟩]) "a\nb\n".toList) ∧
    parsePatchDocument (noteDocument "@@\n-b\n*** End of File") =
        .ok (noteChanges [⟨none, "b\n".toList, [], true⟩]) ∧
      applyPatchDocument plainLibrary "a\nb".toList (noteChanges [⟨none, "b\n".toList, [], true⟩]) =
        .ok "a\n".toList ∧
      ¬LineEdits "a\nb".toList (noteChanges [⟨none, "b\n".toList, [], true⟩]) "a\n".toList := by
  refine ⟨⟨by rfl, by rfl, ?_⟩, ⟨by rfl, by rfl, ?_⟩, by rfl, by rfl, ?_⟩
  all_goals
    rintro ⟨ending, hending, last, hedits, -⟩
    rw [(fileEnding_iff _ ending).mp hending] at hedits
  · cases hedits with
    | cons head tail =>
      cases head with
      | append pure _ _ => cases pure
      | replace block stands placed anchor found starts ends last first final =>
        rw [last rfl, List.append_nil] at found
        have hstart := take_block found
        rw [List.nil_append] at starts
        rw [← hstart, stands] at starts
        exact absurd starts (by decide)
  · cases hedits with
    | cons head tail =>
      cases head with
      | append _ _ ended => exact absurd ended (by decide)
      | replace block _ _ _ _ _ _ _ _ _ => exact block rfl
  · cases hedits with
    | cons head tail =>
      cases head with
      | append pure _ _ => cases pure
      | replace block stands placed anchor found starts ends last first final =>
        rw [last rfl, List.append_nil] at found final
        have hstart := take_block found
        rw [List.nil_append, List.nil_append, ← hstart, stands, placed] at final
        exact absurd final (by unfold FinalKept; decide)

end Documents

end MobiusAgent.PatchEdits
