import MobiusAgent.DelimitedStreams
import MobiusAgent.Utf8Characters
import MobiusAgent.ProtocolEvents

/-!
# Frames of server-sent events

`backend/model/transport.rs`: `SseDecoder` and the loop of `read_sse` that
pushes a chunk and takes frames until none is left. A subtraction of the
decoder has no value where it would underflow, and neither has a loop that
does not end. The frames are the parts of the stream between its leftmost
blank lines, however it is cut into chunks.
-/

namespace MobiusAgent.SseFraming

open ProtocolEvents DelimitedStreams Utf8Characters

def maxSseFrameBytes : Nat := 8 * 1024 * 1024

def maxStreamBytes : Nat := 64 * 1024 * 1024

section Texts

/-- The text of the error of `std::str::from_utf8`: where the first bytes that are no character
stand, and whether the bytes end inside a character. -/
def utf8Error : Nat → Nat → List UInt8 → Option String
  | _, _, [] => none
  | skipped + 1, index, _ :: rest => utf8Error skipped (index + 1) rest
  | 0, index, byte :: rest =>
    match decodeChar? (byte :: rest) with
    | some c => utf8Error (c.utf8Size - 1) (index + 1) rest
    | none =>
      let broken := brokenLength (byte :: rest)
      if broken = rest.length + 1 ∧ broken < charWidth byte then
        some ("incomplete utf-8 byte sequence from index " ++ toString index)
      else
        some ("invalid utf-8 sequence of " ++ toString broken ++ " bytes from index " ++
          toString index)

/-- `std::str::from_utf8`, with the error of `next_frame`. -/
def fromUtf8 (bytes : List UInt8) : Except Error String :=
  match String.fromUTF8? ⟨bytes.toArray⟩ with
  | some text => .ok text
  | none =>
    .error (.provider ("invalid SSE UTF-8: " ++ (utf8Error 0 0 bytes).getD "") false)

theorem fromUtf8_ok {bytes : List UInt8} {text : String} (h : fromUtf8 bytes = .ok text) :
    text.toByteArray = ⟨bytes.toArray⟩ := by
  unfold fromUtf8 at h
  cases hread : String.fromUTF8? ⟨bytes.toArray⟩ with
  | none =>
    rw [hread] at h
    cases h
  | some found =>
    rw [hread] at h
    cases h
    unfold String.fromUTF8? at hread
    split_ifs at hread with hvalid
    cases hread
    rfl

end Texts

section Blank

/-- The width of the blank line at the front of some bytes. -/
def delimiterWidth (rest : List UInt8) : Option Nat :=
  if [13, 10, 13, 10].isPrefixOf rest then some 4
  else if [10, 10].isPrefixOf rest then some 2
  else none

/-- The bytes at the end of an unfinished frame that may belong to a blank line. -/
def delimiterPrefix (unfinished : List UInt8) : Nat :=
  if [13, 10, 13].isSuffixOf unfinished then 3
  else if [13, 10].isSuffixOf unfinished then 2
  else if [13].isSuffixOf unfinished ∨ [10].isSuffixOf unfinished then 1
  else 0

variable {rest front more items : List UInt8}

theorem delimiterWidth_some {size : Nat} :
    delimiterWidth rest = some size ↔
      (size = 4 ∧ [13, 10, 13, 10] <+: rest) ∨ (size = 2 ∧ [10, 10] <+: rest) := by
  unfold delimiterWidth
  simp only [List.isPrefixOf_iff_prefix]
  by_cases hwide : [13, 10, 13, 10] <+: rest
  · have hnarrow : ¬[10, 10] <+: rest := by
      rintro ⟨tail, rfl⟩
      simp at hwide
    simp [hwide, hnarrow, eq_comm]
  · by_cases hnarrow : [10, 10] <+: rest
    · simp [hwide, hnarrow, eq_comm]
    · simp [hwide, hnarrow]

theorem prefix_stable (h : front <+: rest) (more : List UInt8) :
    front <+: rest ++ more := h.trans (List.prefix_append _ _)

theorem prefix_decided (hlength : front.length ≤ rest.length) (h : front <+: rest ++ more) :
    front <+: rest :=
  List.prefix_of_prefix_length_le h (List.prefix_append _ _) hlength

theorem delimiterWidth_decided (hlength : 4 ≤ items.length) (h : delimiterWidth items = none) :
    delimiterWidth (items ++ more) = none := by
  cases hwidth : delimiterWidth (items ++ more) with
  | none => rfl
  | some size =>
    have hsome : (delimiterWidth items).isSome = true := by
      rcases delimiterWidth_some.mp hwidth with ⟨hsize, hfront⟩ | ⟨hsize, hfront⟩
      · rw [delimiterWidth_some.mpr (.inl ⟨hsize, prefix_decided hlength hfront⟩)]
        rfl
      · have hshort : [10, 10].length ≤ items.length := by
          simp only [List.length_cons, List.length_nil]
          omega
        rw [delimiterWidth_some.mpr (.inr ⟨hsize, prefix_decided hshort hfront⟩)]
        rfl
    rw [h] at hsome
    cases hsome

theorem delimiterWidth_settled {place : Nat} (hplace : 0 < place)
    (hbehind : (delimiterWidth (items.drop place)).isSome = true)
    (h : delimiterWidth items = none) : delimiterWidth (items ++ more) = none := by
  by_cases hlong : 4 ≤ items.length
  · exact delimiterWidth_decided hlong h
  · obtain ⟨size, hsize⟩ := Option.isSome_iff_exists.mp hbehind
    -- Three bytes that end with a blank line are the only ones too short to decide.
    rcases delimiterWidth_some.mp hsize with ⟨_, hfront⟩ | ⟨_, hfront⟩
    · have hwide := hfront.length_le
      simp only [List.length_cons, List.length_nil, List.length_drop] at hwide
      omega
    · have hnarrow := hfront.length_le
      simp only [List.length_cons, List.length_nil, List.length_drop] at hnarrow
      have hthree : items.length = 3 := by omega
      have hone : place = 1 := by omega
      subst hone
      obtain ⟨first, second, third, rfl⟩ := List.length_eq_three.mp hthree
      obtain ⟨rfl, rfl⟩ : 10 = second ∧ 10 = third := by simpa using hfront
      have hfirst : 10 ≠ first := by
        rintro rfl
        cases h
      simp [delimiterWidth, List.isPrefixOf, hfirst]

def blankLine : Delimiter UInt8 where
  width := delimiterWidth
  reach := 4
  positive := by
    intro items size h
    rcases delimiterWidth_some.mp h with ⟨rfl, _⟩ | ⟨rfl, _⟩
    · decide
    · decide
  inside := by
    intro items size h
    rcases delimiterWidth_some.mp h with ⟨rfl, hfront⟩ | ⟨rfl, hfront⟩
    · exact hfront.length_le
    · exact hfront.length_le
  stable := by
    intro items more size h
    rcases delimiterWidth_some.mp h with ⟨hsize, hfront⟩ | ⟨hsize, hfront⟩
    · exact delimiterWidth_some.mpr (.inl ⟨hsize, prefix_stable hfront more⟩)
    · exact delimiterWidth_some.mpr (.inr ⟨hsize, prefix_stable hfront more⟩)
  decided := fun _ _ hlength h => delimiterWidth_decided hlength h
  settled := fun _ _ _ hplace hbehind h => delimiterWidth_settled hplace hbehind h

theorem starts_iff :
    Starts blankLine items ↔ items ∈ [[], [10], [13], [13, 10], [13, 10, 13]] := by
  constructor
  · rintro ⟨hnone, more, hsome⟩
    obtain ⟨size, hsize⟩ := Option.isSome_iff_exists.mp hsome
    have hshort : items.length < 4 := by
      by_contra hlong
      have hstill : delimiterWidth (items ++ more) = none :=
        delimiterWidth_decided (Nat.le_of_not_lt hlong) hnone
      rw [show blankLine.width = delimiterWidth from rfl, hstill] at hsize
      cases hsize
    rcases delimiterWidth_some.mp hsize with ⟨_, hfront⟩ | ⟨_, hfront⟩
    · have hitems : items <+: [13, 10, 13, 10] :=
        List.prefix_of_prefix_length_le (List.prefix_append _ _) hfront (Nat.le_of_lt hshort)
      have hinits : items ∈ [[], [13], [13, 10], [13, 10, 13], [13, 10, 13, 10]] :=
        (List.mem_inits _ _).mpr hitems
      simp only [List.mem_cons, List.not_mem_nil, or_false] at hinits ⊢
      rcases hinits with rfl | rfl | rfl | rfl | rfl
      · simp
      · simp
      · simp
      · simp
      · cases hnone
    · have hlength : items.length ≤ 2 := by
        by_contra hlong
        have hwidth := delimiterWidth_some.mpr (.inr ⟨rfl, prefix_decided
          (by simp only [List.length_cons, List.length_nil]; omega) hfront⟩)
        rw [show blankLine.width = delimiterWidth from rfl, hwidth] at hnone
        cases hnone
      have hitems : items <+: [10, 10] :=
        List.prefix_of_prefix_length_le (List.prefix_append _ _) hfront hlength
      have hinits : items ∈ [[], [10], [10, 10]] := (List.mem_inits _ _).mpr hitems
      simp only [List.mem_cons, List.not_mem_nil, or_false] at hinits ⊢
      rcases hinits with rfl | rfl | rfl
      · simp
      · simp
      · cases hnone
  · intro h
    simp only [List.mem_cons, List.not_mem_nil, or_false] at h
    rcases h with rfl | rfl | rfl | rfl | rfl
    · exact ⟨rfl, [10, 10], rfl⟩
    · exact ⟨rfl, [10], rfl⟩
    · exact ⟨rfl, [10, 13, 10], rfl⟩
    · exact ⟨rfl, [13, 10], rfl⟩
    · exact ⟨rfl, [10], rfl⟩

theorem le_delimiterPrefix {tail : List UInt8} (h : Starts blankLine tail) :
    tail.length ≤ delimiterPrefix (front ++ tail) := by
  have hsuffix : tail <:+ front ++ tail := List.suffix_append _ _
  unfold delimiterPrefix
  simp only [List.isSuffixOf_iff_suffix]
  have htail := starts_iff.mp h
  simp only [List.mem_cons, List.not_mem_nil, or_false] at htail
  rcases htail with rfl | rfl | rfl | rfl | rfl
  · exact Nat.zero_le _
  · split_ifs with _ _ hone
    · decide
    · decide
    · decide
    · exact absurd (.inr hsuffix) hone
  · split_ifs with _ _ hone
    · decide
    · decide
    · decide
    · exact absurd (.inl hsuffix) hone
  · split_ifs
    · decide
    · decide
  · rw [if_pos hsuffix]
    decide

theorem delimiterPrefix_tail (items : List UInt8) :
    ∃ front tail, items = front ++ tail ∧ Starts blankLine tail ∧
      delimiterPrefix items = tail.length := by
  unfold delimiterPrefix
  simp only [List.isSuffixOf_iff_suffix]
  split_ifs with hthree htwo hone
  · obtain ⟨front, hfront⟩ := hthree
    exact ⟨front, _, hfront.symm, starts_iff.mpr (by decide), rfl⟩
  · obtain ⟨front, hfront⟩ := htwo
    exact ⟨front, _, hfront.symm, starts_iff.mpr (by decide), rfl⟩
  · rcases hone with ⟨front, hfront⟩ | ⟨front, hfront⟩
    · exact ⟨front, _, hfront.symm, starts_iff.mpr (by decide), rfl⟩
    · exact ⟨front, _, hfront.symm, starts_iff.mpr (by decide), rfl⟩
  · exact ⟨items, [], (List.append_nil _).symm, starts_iff.mpr (by decide), rfl⟩

theorem payload_mono (items more : List UInt8) :
    items.length - delimiterPrefix items ≤
      (items ++ more).length - delimiterPrefix (items ++ more) := by
  obtain ⟨front, tail, hsplit, hstarts, hprefix⟩ := delimiterPrefix_tail (items ++ more)
  have hlength := congrArg List.length hsplit
  rw [List.length_append, List.length_append] at hlength
  rw [List.length_append, hprefix]
  by_cases hwithin : tail.length ≤ more.length
  · omega
  · obtain ⟨first, hfirst⟩ : ∃ first, tail = first ++ more ∧ items = front ++ first := by
      have hsame : items ++ more = (front ++ tail.take (tail.length - more.length)) ++
          tail.drop (tail.length - more.length) := by
        rw [hsplit, List.append_assoc, List.take_append_drop]
      obtain ⟨hitems, hmore⟩ := List.append_inj' hsame (by rw [List.length_drop]; omega)
      refine ⟨tail.take (tail.length - more.length), ?_, hitems⟩
      conv_lhs => rw [← List.take_append_drop (tail.length - more.length) tail, ← hmore]
    obtain ⟨htail, hitems⟩ := hfirst
    rw [htail] at hstarts
    have hle := @le_delimiterPrefix front _ hstarts.of_append
    rw [← hitems] at hle
    rw [htail, List.length_append] at hlength hwithin ⊢
    omega

theorem payload_le_part {before delimiter after : List UInt8} (hbare : Bare blankLine rest)
    (h : Leftmost blankLine (rest ++ more) before delimiter after) :
    rest.length - delimiterPrefix rest ≤ before.length := by
  rcases h.late hbare with hbehind | hstarts
  · omega
  · have hle := @le_delimiterPrefix (rest.take before.length) _ hstarts
    rw [List.take_append_drop, List.length_drop] at hle
    omega

end Blank

section Decoder

structure SseDecoder where
  bytes : List UInt8
  /-- Where the unfinished frame starts. -/
  frameStart : Nat
  /-- Where the search for a blank line goes on. -/
  scan : Nat
  /-- The bytes of the stream so far. -/
  total : Nat
  deriving DecidableEq, Repr

/-- A subtraction of two lengths, which may underflow. -/
def checkedSub (first second : Nat) : Option Nat :=
  if second ≤ first then some (first - second) else none

def frameTooLong : Error := .provider "SSE frame exceeded size limit" false

def accountStreamBytes (total added : Nat) (provider : String) : Except Error Nat :=
  if total + added ≤ maxStreamBytes then .ok (total + added)
  else .error (.provider (provider ++ " stream exceeded size limit") false)

namespace SseDecoder

def new : SseDecoder := ⟨[], 0, 0, 0⟩

def push (decoder : SseDecoder) (chunk : List UInt8) (provider : String) :
    Except Error SseDecoder :=
  match accountStreamBytes decoder.total chunk.length provider with
  | .error error => .error error
  | .ok total => .ok { decoder with bytes := decoder.bytes ++ chunk, total := total }

def compact (decoder : SseDecoder) : Option SseDecoder := do
  let remaining ← checkedSub decoder.bytes.length decoder.frameStart
  if decoder.frameStart = 0 ∨ decoder.frameStart < remaining then some decoder
  else
    let scan ← checkedSub decoder.scan decoder.frameStart
    some { decoder with
      bytes := decoder.bytes.drop decoder.frameStart
      scan := scan
      frameStart := 0 }

/-- The loop of `next_frame`: where the first blank line starts and how wide it is. -/
def search : Nat → List UInt8 → Option (Nat × Nat)
  | _, [] => none
  | index, byte :: rest =>
    match delimiterWidth (byte :: rest) with
    | some width => some (index, width)
    | none => search (index + 1) rest

/-- The body of `next_frame` after the compaction. -/
def takeFrame (decoder : SseDecoder) : Option (SseDecoder × Except Error (Option String)) :=
  let start := decoder.frameStart
  let index := max decoder.scan start
  match search index (decoder.bytes.drop index) with
  | some (index, width) => do
    let length ← checkedSub index start
    if length > maxSseFrameBytes then some (decoder, .error frameTooLong)
    else some ({ decoder with frameStart := index + width, scan := index + width },
      (fromUtf8 ((decoder.bytes.drop start).take length)).map some)
  | none => do
    let decoder := { decoder with scan := max (decoder.bytes.length - 3) start }
    let unfinished := decoder.bytes.drop start
    let payload ← checkedSub unfinished.length (delimiterPrefix unfinished)
    if payload > maxSseFrameBytes then some (decoder, .error frameTooLong)
    else some (decoder, .ok none)

def nextFrame (decoder : SseDecoder) : Option (SseDecoder × Except Error (Option String)) :=
  decoder.compact.bind takeFrame

/-- The inner loop of `read_sse`: the frames until none is left or one fails. -/
def drain : Nat → SseDecoder → Option (List String × Except Error SseDecoder)
  | 0, _ => none
  | fuel + 1, decoder => do
    let (decoder, result) ← decoder.nextFrame
    match result with
    | .error error => some ([], .error error)
    | .ok none => some ([], .ok decoder)
    | .ok (some frame) =>
      let (frames, last) ← drain fuel decoder
      some (frame :: frames, last)

/-- The loop of `read_sse` over the chunks of a stream. -/
def feed (provider : String) : SseDecoder → List (List UInt8) →
    Option (List String × Except Error SseDecoder)
  | decoder, [] => some ([], .ok decoder)
  | decoder, chunk :: chunks =>
    match decoder.push chunk provider with
    | .error error => some ([], .error error)
    | .ok decoder => do
      let (frames, last) ← drain (decoder.bytes.length + 1) decoder
      match last with
      | .error error => some (frames, .error error)
      | .ok decoder =>
        let (later, last) ← feed provider decoder chunks
        some (frames ++ later, last)

/-- The bytes that were pushed and not taken yet. -/
def unread (decoder : SseDecoder) : List UInt8 := decoder.bytes.drop decoder.frameStart

end SseDecoder

/-- The state of a decoder between two calls: the indices stand in their order, and no blank line
can start before the place where the search goes on. -/
structure Reading (decoder : SseDecoder) : Prop where
  start_le : decoder.frameStart ≤ decoder.scan
  scan_le : decoder.scan ≤ decoder.bytes.length
  scanned : ∀ place, decoder.frameStart ≤ place → place < decoder.scan → ∀ more,
    delimiterWidth ((decoder.bytes ++ more).drop place) = none

variable {decoder next : SseDecoder} {provider : String} {chunk : List UInt8}

theorem new_reading : Reading .new :=
  ⟨Nat.le_refl _, Nat.le_refl _, fun _ _ hplace => absurd hplace (Nat.not_lt_zero _)⟩

theorem push_ok (h : Reading decoder) (hpush : decoder.push chunk provider = .ok next) :
    Reading next ∧ next.unread = decoder.unread ++ chunk ∧
      next.total = decoder.total + chunk.length ∧ next.bytes = decoder.bytes ++ chunk := by
  unfold SseDecoder.push accountStreamBytes at hpush
  split_ifs at hpush with hlimit
  cases hpush
  have hinside : decoder.frameStart ≤ decoder.bytes.length := h.start_le.trans h.scan_le
  refine ⟨⟨h.start_le, ?_, ?_⟩, ?_, rfl, rfl⟩
  · simp only [List.length_append]
    exact h.scan_le.trans (Nat.le_add_right _ _)
  · intro place hstart hscan more
    rw [List.append_assoc]
    exact h.scanned place hstart hscan _
  · exact List.drop_append_of_le_length hinside

theorem push_accepts (hlimit : decoder.total + chunk.length ≤ maxStreamBytes) :
    ∃ next, decoder.push chunk provider = .ok next := by
  unfold SseDecoder.push accountStreamBytes
  rw [if_pos hlimit]
  exact ⟨_, rfl⟩

theorem compact_reading (h : Reading decoder) :
    ∃ next, decoder.compact = some next ∧ Reading next ∧ next.unread = decoder.unread ∧
      next.total = decoder.total := by
  have hinside : decoder.frameStart ≤ decoder.bytes.length := h.start_le.trans h.scan_le
  unfold SseDecoder.compact checkedSub
  rw [if_pos hinside, if_pos h.start_le]
  dsimp only [Option.bind_eq_bind, Option.bind_some]
  split_ifs with hkeep
  · exact ⟨decoder, rfl, h, rfl, rfl⟩
  · refine ⟨_, rfl, ⟨Nat.zero_le _, ?_, ?_⟩, rfl, rfl⟩
    · have hscan := h.scan_le
      simp only [List.length_drop]
      omega
    · intro place _ hplace more
      dsimp only at hplace ⊢
      have hshifted := h.scanned (decoder.frameStart + place) (Nat.le_add_right _ _)
        (by omega) more
      rw [← List.drop_append_of_le_length hinside, List.drop_drop]
      exact hshifted

theorem search_spec (index : Nat) (items : List UInt8) :
    match SseDecoder.search index items with
    | some (found, width) => ∃ before after, items = before ++ after ∧ found = index + before.length ∧
        delimiterWidth after = some width ∧
          ∀ place < before.length, delimiterWidth (items.drop place) = none
    | none => Bare blankLine items := by
  induction items generalizing index with
  | nil =>
    intro place
    rw [List.drop_nil]
    rfl
  | cons byte rest ih =>
    unfold SseDecoder.search
    cases hwidth : delimiterWidth (byte :: rest) with
    | some width =>
      exact ⟨[], byte :: rest, rfl, rfl, hwidth, fun _ hplace => absurd hplace (Nat.not_lt_zero _)⟩
    | none =>
      dsimp only
      have hrest := ih (index + 1)
      cases hsearch : SseDecoder.search (index + 1) rest with
      | none =>
        rw [hsearch] at hrest
        intro place
        cases place with
        | zero => exact hwidth
        | succ place => exact hrest place
      | some found =>
        rw [hsearch] at hrest
        obtain ⟨before, after, hsplit, hfound, hafter, hfirst⟩ := hrest
        refine ⟨byte :: before, after, ?_, ?_, hafter, ?_⟩
        · rw [hsplit]
          rfl
        · rw [hfound, List.length_cons]
          omega
        · intro place hplace
          cases place with
          | zero => exact hwidth
          | succ place => exact hfirst place (by simpa using hplace)

/-- What the search finds is the leftmost blank line of the bytes not taken. -/
theorem search_found (h : Reading decoder) {found width : Nat}
    (hsearch : SseDecoder.search decoder.scan (decoder.bytes.drop decoder.scan) =
      some (found, width)) :
    decoder.scan ≤ found ∧ found + width ≤ decoder.bytes.length ∧
      Leftmost blankLine decoder.unread (decoder.unread.take (found - decoder.frameStart))
        ((decoder.bytes.drop found).take width) (decoder.bytes.drop (found + width)) := by
  have hspec := search_spec decoder.scan (decoder.bytes.drop decoder.scan)
  rw [hsearch] at hspec
  obtain ⟨before, after, hsplit, hfound, hafter, hfirst⟩ := hspec
  have hstart := h.start_le
  have hscan := h.scan_le
  have hlength := congrArg List.length hsplit
  simp only [List.length_drop, List.length_append] at hlength
  have hbehind : decoder.bytes.drop found = after := by
    rw [hfound, ← List.drop_drop, hsplit, List.drop_left]
  have hwidth : width ≤ after.length := blankLine.inside _ _ hafter
  have hunread : decoder.unread.drop (found - decoder.frameStart) = decoder.bytes.drop found := by
    unfold SseDecoder.unread
    rw [List.drop_drop]
    congr 1
    omega
  have htaken : (decoder.unread.take (found - decoder.frameStart)).length =
      found - decoder.frameStart := by
    unfold SseDecoder.unread
    rw [List.length_take, List.length_drop]
    omega
  refine ⟨by omega, by omega, ?_, ?_, ?_⟩
  · rw [← List.drop_drop, List.take_append_drop, ← hunread, List.take_append_drop]
  · rw [← List.drop_drop, List.take_append_drop, hbehind, List.length_take,
      Nat.min_eq_left hwidth]
    exact hafter
  · intro place hplace
    rw [htaken] at hplace
    unfold SseDecoder.unread
    rw [List.drop_drop]
    by_cases hscanned : decoder.frameStart + place < decoder.scan
    · have hnone := h.scanned _ (Nat.le_add_right _ _) hscanned []
      rw [List.append_nil] at hnone
      exact hnone
    · have hnone := hfirst (decoder.frameStart + place - decoder.scan) (by omega)
      rw [List.drop_drop] at hnone
      have hsame : decoder.scan + (decoder.frameStart + place - decoder.scan) =
          decoder.frameStart + place := by omega
      rw [hsame] at hnone
      exact hnone

theorem search_none (h : Reading decoder)
    (hsearch : SseDecoder.search decoder.scan (decoder.bytes.drop decoder.scan) = none) :
    Bare blankLine decoder.unread := by
  have hspec := search_spec decoder.scan (decoder.bytes.drop decoder.scan)
  rw [hsearch] at hspec
  intro place
  unfold SseDecoder.unread
  rw [List.drop_drop]
  by_cases hscanned : decoder.frameStart + place < decoder.scan
  · have hnone := h.scanned _ (Nat.le_add_right _ _) hscanned []
    rw [List.append_nil] at hnone
    exact hnone
  · have hnone := hspec (decoder.frameStart + place - decoder.scan)
    rw [List.drop_drop] at hnone
    have hsame : decoder.scan + (decoder.frameStart + place - decoder.scan) =
        decoder.frameStart + place := by omega
    rw [hsame] at hnone
    exact hnone

def TooLong (unfinished : List UInt8) : Prop :=
  unfinished.length - delimiterPrefix unfinished > maxSseFrameBytes

/-- Whether an unfinished frame is too long can be decided. -/
instance (unfinished : List UInt8) : Decidable (TooLong unfinished) :=
  inferInstanceAs (Decidable (_ > _))

theorem delimiterPrefix_le (items : List UInt8) : delimiterPrefix items ≤ items.length := by
  obtain ⟨front, tail, hsplit, _, hpending⟩ := delimiterPrefix_tail items
  rw [hpending, hsplit, List.length_append]
  exact Nat.le_add_left _ _

theorem takeFrame_bare (h : Reading decoder) (hbare : Bare blankLine decoder.unread) :
    ∃ next, decoder.takeFrame = some (next, if TooLong decoder.unread then .error frameTooLong
        else .ok none) ∧
      Reading next ∧ next.unread = decoder.unread ∧ next.total = decoder.total := by
  have hmax : max decoder.scan decoder.frameStart = decoder.scan := Nat.max_eq_left h.start_le
  have hinside : decoder.frameStart ≤ decoder.bytes.length := h.start_le.trans h.scan_le
  unfold SseDecoder.takeFrame
  dsimp only
  rw [hmax]
  cases hsearch : SseDecoder.search decoder.scan (decoder.bytes.drop decoder.scan) with
  | some found =>
    obtain ⟨_, _, hleft⟩ := @search_found decoder h found.1 found.2 hsearch
    exact absurd hbare hleft.not_bare
  | none =>
    have hreading : Reading { decoder with
        scan := max (decoder.bytes.length - 3) decoder.frameStart } := by
      refine ⟨Nat.le_max_right _ _, ?_, ?_⟩
      · exact Nat.max_le.mpr ⟨Nat.sub_le _ _, hinside⟩
      · -- A place four bytes before the end was decided.
        intro place hstart hplace more
        dsimp only at hstart hplace ⊢
        have hearly : place < decoder.bytes.length - 3 := by omega
        have hdecided := @Bare.scanned _ _ _ hbare (place - decoder.frameStart)
          (by simp only [SseDecoder.unread, blankLine, List.length_drop]; omega) more
        unfold SseDecoder.unread at hdecided
        rw [← List.drop_append_of_le_length hinside, List.drop_drop] at hdecided
        have hsame : decoder.frameStart + (place - decoder.frameStart) = place := by omega
        rw [hsame] at hdecided
        exact hdecided
    dsimp only
    unfold checkedSub
    rw [if_pos (delimiterPrefix_le _)]
    refine ⟨_, ?_, hreading, rfl, rfl⟩
    dsimp only [Option.bind_eq_bind, Option.bind_some]
    by_cases hlong : TooLong decoder.unread
    · rw [if_pos hlong]
      exact if_pos hlong
    · rw [if_neg hlong]
      exact if_neg hlong

theorem takeFrame_leftmost (h : Reading decoder) {before delimiter after : List UInt8}
    (hleft : Leftmost blankLine decoder.unread before delimiter after) :
    ∃ next, decoder.takeFrame = some (next, if before.length > maxSseFrameBytes then
        .error frameTooLong else (fromUtf8 before).map some) ∧
      (before.length ≤ maxSseFrameBytes →
        Reading next ∧ next.unread = after ∧ next.total = decoder.total) := by
  have hmax : max decoder.scan decoder.frameStart = decoder.scan := Nat.max_eq_left h.start_le
  unfold SseDecoder.takeFrame
  dsimp only
  rw [hmax]
  cases hsearch : SseDecoder.search decoder.scan (decoder.bytes.drop decoder.scan) with
  | none => exact absurd (search_none h hsearch) hleft.not_bare
  | some found =>
    obtain ⟨found, width⟩ := found
    obtain ⟨hscan, hinside, hfound⟩ := search_found h hsearch
    obtain ⟨hbefore, _, hafter⟩ := hleft.unique hfound
    have hstart := h.start_le
    have hlength : before.length = found - decoder.frameStart := by
      rw [hbefore]
      unfold SseDecoder.unread
      rw [List.length_take, List.length_drop]
      omega
    dsimp only
    unfold checkedSub
    rw [if_pos (hstart.trans hscan)]
    dsimp only [Option.bind_eq_bind, Option.bind_some]
    rw [← hlength]
    have htaken : (decoder.bytes.drop decoder.frameStart).take before.length = before := by
      rw [hlength]
      exact hbefore.symm
    rw [htaken]
    split_ifs with hlong
    · exact ⟨_, rfl, fun hshort => absurd hlong (Nat.not_lt.mpr hshort)⟩
    · refine ⟨_, rfl, fun _ => ⟨⟨Nat.le_refl _, hinside, ?_⟩, hafter.symm, rfl⟩⟩
      intro place hplace hnot
      exact absurd hplace (Nat.not_le.mpr hnot)

theorem nextFrame_bare (h : Reading decoder) (hbare : Bare blankLine decoder.unread) :
    ∃ next, decoder.nextFrame = some (next, if TooLong decoder.unread then .error frameTooLong
        else .ok none) ∧
      Reading next ∧ next.unread = decoder.unread ∧ next.total = decoder.total := by
  obtain ⟨compacted, hcompact, hreading, hunread, htotal⟩ := compact_reading h
  rw [← hunread] at hbare ⊢
  obtain ⟨next, htake, hnext, hkept, hcount⟩ := takeFrame_bare hreading hbare
  unfold SseDecoder.nextFrame
  rw [hcompact, Option.bind_some]
  exact ⟨next, htake, hnext, hkept, hcount.trans htotal⟩

theorem nextFrame_leftmost (h : Reading decoder) {before delimiter after : List UInt8}
    (hleft : Leftmost blankLine decoder.unread before delimiter after) :
    ∃ next, decoder.nextFrame = some (next, if before.length > maxSseFrameBytes then
        .error frameTooLong else (fromUtf8 before).map some) ∧
      (before.length ≤ maxSseFrameBytes →
        Reading next ∧ next.unread = after ∧ next.total = decoder.total) := by
  obtain ⟨compacted, hcompact, hreading, hunread, htotal⟩ := compact_reading h
  rw [← hunread] at hleft
  obtain ⟨next, htake, hnext⟩ := takeFrame_leftmost hreading hleft
  unfold SseDecoder.nextFrame
  rw [hcompact, Option.bind_some, ← htotal]
  exact ⟨next, htake, hnext⟩

end Decoder

section Runs

/-- What a stream cut into parts says: the texts before the first part that is too long or no
text, and the error found there. -/
def judge : List (List UInt8) → List UInt8 → List String × Option Error
  | [], rest => ([], if TooLong rest then some frameTooLong else none)
  | part :: parts, rest =>
    if part.length > maxSseFrameBytes then ([], some frameTooLong)
    else
      match fromUtf8 part with
      | .error error => ([], some error)
      | .ok text => (text :: (judge parts rest).1, (judge parts rest).2)

theorem judge_nil (rest : List UInt8) :
    judge [] rest = ([], if TooLong rest then some frameTooLong else none) := rfl

theorem judge_cons (part : List UInt8) (parts : List (List UInt8)) (rest : List UInt8) :
    judge (part :: parts) rest =
      if part.length > maxSseFrameBytes then ([], some frameTooLong)
      else
        match fromUtf8 part with
        | .error error => ([], some error)
        | .ok text => (text :: (judge parts rest).1, (judge parts rest).2) := rfl

def errorOf {T : Type} : Except Error T → Option Error
  | .error error => some error
  | .ok _ => none

variable {decoder : SseDecoder} {provider : String}

variable {parts : List (List UInt8)} {rest : List UInt8}

theorem judge_error_stable {more last : List UInt8} {later : List (List UInt8 × List UInt8)}
    (hbare : Bare blankLine rest) (hmore : Cut blankLine (rest ++ more) later last)
    {error : Error} (h : (judge parts rest).2 = some error) :
    judge (parts ++ later.map Prod.fst) last = judge parts rest := by
  induction parts with
  | nil =>
    unfold judge at h
    split_ifs at h with hlong
    rw [List.nil_append]
    conv_rhs => rw [judge, if_pos hlong]
    cases hmore with
    | rest bare =>
      have hstill : TooLong (rest ++ more) := Nat.lt_of_lt_of_le hlong (payload_mono rest more)
      rw [List.map_nil, judge, if_pos hstill]
    | part first others =>
      rename_i before delimiter after parts
      have hstill : before.length > maxSseFrameBytes :=
        Nat.lt_of_lt_of_le hlong (payload_le_part hbare first)
      rw [List.map_cons, judge, if_pos hstill]
  | cons part parts ih =>
    rw [List.cons_append]
    rw [judge_cons] at h ⊢
    rw [judge_cons]
    split_ifs at h ⊢
    · rfl
    · cases htext : fromUtf8 part with
      | error failure => rfl
      | ok text =>
        rw [htext] at h
        dsimp only at h ⊢
        rw [ih h]

theorem judge_append {last : List UInt8} {later : List (List UInt8)}
    (h : (judge parts rest).2 = none) :
    judge (parts ++ later) last =
      ((judge parts rest).1 ++ (judge later last).1, (judge later last).2) := by
  induction parts with
  | nil => rfl
  | cons part parts ih =>
    rw [List.cons_append]
    rw [judge_cons] at h ⊢
    rw [judge_cons]
    split_ifs at h ⊢
    cases htext : fromUtf8 part with
    | error failure =>
      rw [htext] at h
      cases h
    | ok text =>
      rw [htext] at h
      dsimp only at h ⊢
      rw [ih h]
      rfl

theorem judge_fits (h : (judge parts rest).2 = none) : ¬TooLong rest := by
  induction parts with
  | nil =>
    intro hlong
    rw [judge_nil, if_pos hlong] at h
    cases h
  | cons part parts ih =>
    rw [judge_cons] at h
    split_ifs at h
    cases htext : fromUtf8 part with
    | error failure =>
      rw [htext] at h
      cases h
    | ok text =>
      rw [htext] at h
      exact ih h

theorem judge_texts (parts : List (List UInt8)) (rest : List UInt8) :
    ((judge parts rest).1.map fun text => text.toByteArray.data.toList) <+: parts ∧
      ((judge parts rest).2 = none →
        ((judge parts rest).1.map fun text => text.toByteArray.data.toList) = parts) := by
  induction parts with
  | nil => exact ⟨List.prefix_rfl, fun _ => rfl⟩
  | cons part parts ih =>
    rw [judge_cons]
    split_ifs with hlong
    · exact ⟨List.nil_prefix, nofun⟩
    · cases htext : fromUtf8 part with
      | error failure => exact ⟨List.nil_prefix, nofun⟩
      | ok text =>
        have hbytes : text.toByteArray.data.toList = part := by
          rw [fromUtf8_ok htext]
        dsimp only
        rw [List.map_cons, hbytes]
        exact ⟨(List.prefix_cons_inj part).mpr ih.1, fun hnone => congrArg _ (ih.2 hnone)⟩

/-- The inner loop judges the bytes not taken, and leaves the rest. -/
theorem drain_spec {fuel : Nat} {parts : List (List UInt8 × List UInt8)} (h : Reading decoder)
    (hcut : Cut blankLine decoder.unread parts rest) (hfuel : parts.length < fuel) :
    ∃ last, decoder.drain fuel = some ((judge (parts.map Prod.fst) rest).1, last) ∧
      errorOf last = (judge (parts.map Prod.fst) rest).2 ∧
      ∀ next, last = .ok next → Reading next ∧ next.unread = rest ∧ next.total = decoder.total := by
  induction fuel generalizing decoder parts with
  | zero => exact absurd hfuel (Nat.not_lt_zero _)
  | succ fuel ih =>
    unfold SseDecoder.drain
    cases hcut with
    | rest bare =>
      obtain ⟨next, hcall, hnext, hkept, hcount⟩ := nextFrame_bare h bare
      rw [hcall, List.map_nil, judge_nil]
      by_cases hlong : TooLong decoder.unread
      · rw [if_pos hlong, if_pos hlong]
        exact ⟨_, rfl, rfl, nofun⟩
      · rw [if_neg hlong, if_neg hlong]
        refine ⟨_, rfl, rfl, ?_⟩
        rintro _ ⟨rfl⟩
        exact ⟨hnext, hkept, hcount⟩
    | part first later =>
      rename_i before delimiter after parts
      obtain ⟨next, hcall, hnext⟩ := nextFrame_leftmost h first
      rw [hcall, List.map_cons, judge_cons]
      by_cases hlong : before.length > maxSseFrameBytes
      · rw [if_pos hlong, if_pos hlong]
        exact ⟨_, rfl, rfl, nofun⟩
      · rw [if_neg hlong, if_neg hlong]
        obtain ⟨hread, hleft, hcount⟩ := hnext (Nat.le_of_not_lt hlong)
        cases htext : fromUtf8 before with
        | error error => exact ⟨_, rfl, rfl, nofun⟩
        | ok text =>
          rw [← hleft] at later
          have hshort : parts.length < fuel := by
            rw [List.length_cons] at hfuel
            omega
          obtain ⟨last, hdrain, herror, hlast⟩ := ih hread later hshort
          dsimp only [Except.map, Option.bind_eq_bind, Option.bind_some]
          rw [hdrain]
          refine ⟨last, rfl, herror, ?_⟩
          intro later hlater
          obtain ⟨hreads, hrest, hsame⟩ := hlast later hlater
          exact ⟨hreads, hrest, hsame.trans hcount⟩

theorem feed_spec {chunks : List (List UInt8)} {parts : List (List UInt8 × List UInt8)}
    (h : Reading decoder) (hbare : Bare blankLine decoder.unread)
    (hshort : ¬TooLong decoder.unread)
    (hlimit : decoder.total + chunks.flatten.length ≤ maxStreamBytes)
    (hcut : Cut blankLine (decoder.unread ++ chunks.flatten) parts rest) :
    ∃ last, decoder.feed provider chunks = some ((judge (parts.map Prod.fst) rest).1, last) ∧
      errorOf last = (judge (parts.map Prod.fst) rest).2 ∧
      ∀ next, last = .ok next → Reading next ∧ next.unread = rest := by
  induction chunks generalizing decoder parts with
  | nil =>
    rw [List.flatten_nil, List.append_nil] at hcut
    obtain ⟨rfl, rfl⟩ := hcut.unique (.rest hbare)
    unfold SseDecoder.feed
    rw [List.map_nil, judge_nil, if_neg hshort]
    refine ⟨_, rfl, rfl, ?_⟩
    rintro _ ⟨rfl⟩
    exact ⟨h, rfl⟩
  | cons chunk chunks ih =>
    rw [List.flatten_cons, List.length_append] at hlimit
    rw [List.flatten_cons, ← List.append_assoc] at hcut
    obtain ⟨pushed, hpush⟩ := @push_accepts decoder provider chunk (by omega)
    obtain ⟨hreading, hunread, htotal, hbytes⟩ := push_ok h hpush
    rw [← hunread] at hcut
    obtain ⟨first, kept, hfirst⟩ := exists_cut blankLine pushed.unread
    obtain ⟨later, last, hlater⟩ := exists_cut blankLine (kept ++ chunks.flatten)
    obtain ⟨rfl, rfl⟩ := hcut.unique (hfirst.append hlater)
    have hfuel : first.length < pushed.bytes.length + 1 := by
      have hparts := hfirst.length_le
      unfold SseDecoder.unread at hparts
      rw [List.length_drop] at hparts
      omega
    obtain ⟨result, hdrain, herror, hnext⟩ := drain_spec hreading hfirst hfuel
    unfold SseDecoder.feed
    rw [hpush]
    dsimp only
    rw [hdrain]
    dsimp only [Option.bind_eq_bind, Option.bind_some]
    rw [List.map_append]
    cases result with
    | error error =>
      rw [judge_error_stable hfirst.bare hlater herror.symm]
      exact ⟨_, rfl, herror, nofun⟩
    | ok next =>
      obtain ⟨hread, hkept, hcount⟩ := hnext next rfl
      have hnone : (judge (first.map Prod.fst) kept).2 = none := herror.symm
      have hfits : ¬TooLong kept := judge_fits hnone
      rw [← hkept] at hlater hfits
      obtain ⟨final, hfeed, hfinal, hends⟩ := ih hread (by rw [hkept]; exact hfirst.bare) hfits
        (by omega) hlater
      dsimp only
      rw [hfeed, judge_append hnone]
      exact ⟨final, rfl, hfinal, hends⟩

theorem feed_new {chunks : List (List UInt8)} {parts : List (List UInt8 × List UInt8)}
    (hlimit : chunks.flatten.length ≤ maxStreamBytes)
    (hcut : Cut blankLine chunks.flatten parts rest) :
    ∃ last, SseDecoder.new.feed provider chunks = some ((judge (parts.map Prod.fst) rest).1, last) ∧
      errorOf last = (judge (parts.map Prod.fst) rest).2 ∧
      ∀ next, last = .ok next → Reading next ∧ next.unread = rest := by
  refine feed_spec new_reading (bare_nil blankLine) (by decide) ?_ hcut
  rw [show SseDecoder.new.total = 0 from rfl, Nat.zero_add]
  exact hlimit

/-- A stream within its limit is framed in one way: however it is cut into chunks, the same frames
come out before the same error or none, they are the parts between the leftmost blank lines, no
byte is lost or taken twice, and no index underflows. -/
theorem sse_framing_independent (provider : String) {chunks chunks' : List (List UInt8)}
    (hsame : chunks.flatten = chunks'.flatten) (hlimit : chunks.flatten.length ≤ maxStreamBytes) :
    ∃ parts rest frames last last',
      SseDecoder.new.feed provider chunks = some (frames, last) ∧
      SseDecoder.new.feed provider chunks' = some (frames, last') ∧
      errorOf last = errorOf last' ∧
      Cut blankLine chunks.flatten parts rest ∧
      chunks.flatten = parts.flatMap (fun part => part.1 ++ part.2) ++ rest ∧
      (frames, errorOf last) = judge (parts.map Prod.fst) rest ∧
      (frames.map fun frame => frame.toByteArray.data.toList) <+: parts.map Prod.fst ∧
      ∀ decoder, last = .ok decoder →
        (frames.map fun frame => frame.toByteArray.data.toList) = parts.map Prod.fst ∧
          decoder.unread = rest := by
  obtain ⟨parts, rest, hcut⟩ := exists_cut blankLine chunks.flatten
  obtain ⟨last, hfeed, herror, hnext⟩ := @feed_new provider rest chunks parts hlimit hcut
  obtain ⟨last', hfeed', herror', -⟩ := @feed_new provider rest chunks' parts
    (by rw [← hsame]; exact hlimit) (by rw [← hsame]; exact hcut)
  obtain ⟨htexts, hall⟩ := judge_texts (parts.map Prod.fst) rest
  refine ⟨parts, rest, _, last, last', hfeed, hfeed', herror.trans herror'.symm, hcut, hcut.flatten,
    Prod.ext rfl herror, htexts, ?_⟩
  intro decoder hdecoder
  refine ⟨hall ?_, (hnext decoder hdecoder).2⟩
  rw [← herror, hdecoder]
  rfl

/-- A blank line cut into three chunks ends the same frame. -/
theorem sse_framing_independent_cut :
    ∃ frames last last',
      SseDecoder.new.feed "test" [[104, 105, 13], [10, 13], [10, 100]] = some (frames, last) ∧
      SseDecoder.new.feed "test" [[104, 105, 13, 10, 13, 10, 100]] = some (frames, last') ∧
      errorOf last = errorOf last' := by
  obtain ⟨_, _, frames, last, last', hfeed, hfeed', herror, -⟩ :=
    @sse_framing_independent "test" [[104, 105, 13], [10, 13], [10, 100]]
      [[104, 105, 13, 10, 13, 10, 100]] rfl (by decide)
  exact ⟨frames, last, last', hfeed, hfeed', herror⟩

end Runs

end MobiusAgent.SseFraming
