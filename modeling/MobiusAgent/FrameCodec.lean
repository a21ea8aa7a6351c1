import Mathlib.Algebra.Group.Nat.Defs
import MobiusAgent.CheckpointValidation

/-!
# Length-prefixed gateway frames

`wire/codec.rs`: `FrameReader` with `read_frame_with_limit`, and the writer
`encode_bounded_frame`. A read runs up to its only await, the read of the
transport, and goes on when bytes arrive. A future dropped there leaves the
buffer of the reader and the bytes of the transport as they are. The JSON
encoder and decoder are parameters.
-/

namespace MobiusAgent.FrameCodec

def maxFrameBytes : Nat := 50 * 1024 * 1024

inductive FrameError where
  | protocol (message : String)
  /-- A payload that is no value. -/
  | json (message : String)
  /-- An end of the transport inside a frame. -/
  | unexpectedEof
  deriving DecidableEq, Repr

section Prefix

/-- `to_be_bytes` of a 32-bit length. -/
def toBigEndian (length : Nat) : List UInt8 :=
  [.ofNat (length / 2 ^ 24), .ofNat (length / 2 ^ 16), .ofNat (length / 2 ^ 8), .ofNat length]

/-- `from_be_bytes`. -/
def fromBigEndian (first second third fourth : UInt8) : Nat :=
  first.toNat * 2 ^ 24 + second.toNat * 2 ^ 16 + third.toNat * 2 ^ 8 + fourth.toNat

theorem fromBigEndian_toBigEndian {length : Nat} (h : length < 2 ^ 32) :
    fromBigEndian (.ofNat (length / 2 ^ 24)) (.ofNat (length / 2 ^ 16)) (.ofNat (length / 2 ^ 8))
      (.ofNat length) = length := by
  simp only [fromBigEndian, UInt8.toNat_ofNat']
  omega

def frame (payload : List UInt8) : List UInt8 := toBigEndian payload.length ++ payload

@[simp]
theorem length_frame (payload : List UInt8) : (frame payload).length = payload.length + 4 := by
  simp only [frame, toBigEndian, List.cons_append, List.nil_append, List.length_cons]

end Prefix

section Writer

variable {T : Type} (toWriter : T → Except String (List UInt8))

def encodeBoundedFrame (value : T) : Except FrameError (Option (List UInt8)) :=
  match toWriter value with
  | .error message => .error (.json message)
  | .ok payload =>
    if payload.length = 0 ∨ payload.length > maxFrameBytes then .ok none
    else if payload.length < 2 ^ 32 then .ok (some (frame payload))
    else .error (.protocol "encoded frame length is unsupported")

def encodeFrame (value : T) : Except FrameError (List UInt8) :=
  match encodeBoundedFrame toWriter value with
  | .error error => .error error
  | .ok none =>
    .error (.protocol ("encoded frame must be 1–" ++ toString maxFrameBytes ++ " bytes"))
  | .ok (some encoded) => .ok encoded

/-- A payload a reader with a limit accepts. -/
def Fits (maxBytes : Nat) (payload : List UInt8) : Prop :=
  0 < payload.length ∧ payload.length ≤ maxBytes ∧ payload.length < 2 ^ 32

variable {toWriter}

theorem encodeFrame_ok_iff {value : T} {encoded : List UInt8} :
    encodeFrame toWriter value = .ok encoded ↔
      ∃ payload, toWriter value = .ok payload ∧ Fits maxFrameBytes payload ∧
        encoded = frame payload := by
  unfold encodeFrame encodeBoundedFrame Fits
  cases hpayload : toWriter value with
  | error message => simp
  | ok payload =>
    dsimp only
    split_ifs with hbound hshort
    · simp only [Except.ok.injEq, false_iff, not_exists, not_and]
      rintro other rfl ⟨hpositive, hlimit, _⟩
      omega
    · constructor
      · intro h
        refine ⟨payload, rfl, ⟨by omega, by omega, hshort⟩, (Except.ok.inj h).symm⟩
      · rintro ⟨other, hother, _, rfl⟩
        cases hother
        rfl
    · have hmax : maxFrameBytes < 2 ^ 32 := by decide
      omega

end Writer

section Reader

variable {T : Type}

/-- What a reader finds in its buffer. -/
inductive Inspected where
  | needed (count : Nat)
  /-- The length is no length of a frame. -/
  | malformed (error : FrameError)
  | complete (payload : List UInt8)
  deriving DecidableEq, Repr

/-- The start of each round of `read_frame_with_limit`. -/
def inspect (maxBytes : Nat) : List UInt8 → Inspected
  | first :: second :: third :: fourth :: body =>
    let length := fromBigEndian first second third fourth
    if length = 0 ∨ length > maxBytes then
      .malformed (.protocol ("frame length must be 1–" ++ toString maxBytes ++ " bytes"))
    else if length ≤ body.length then .complete (body.take length)
    else .needed (4 + length - (body.length + 4))
  | buffer => .needed (4 - buffer.length)

/-- A reader, the read of the transport its running call awaits, and what the transport holds. -/
structure State where
  /-- The retained bytes of a partial frame. -/
  buffer : List UInt8
  /-- The limit of the running call and the most bytes it asked the transport for. -/
  awaiting : Option (Nat × Nat)
  /-- The bytes the transport has not handed over yet. -/
  incoming : List UInt8
  deriving DecidableEq, Repr

/-- What a call returns. -/
inductive Outcome (T : Type) where
  | frame (value : T)
  | ended
  | failed (error : FrameError)
  deriving DecidableEq

/-- What happens to a reader. -/
inductive Event where
  /-- A call of `read_frame_with_limit`. -/
  | start (maxBytes : Nat)
  /-- The awaited read returns so many bytes. -/
  | deliver (count : Nat)
  /-- The awaited read returns no byte: the transport is at its end. -/
  | close
  /-- The future of the call is dropped. -/
  | cancel
  deriving DecidableEq, Repr

variable (fromSlice : List UInt8 → Except String T)

/-- A call up to its next await or its end. -/
def proceed (maxBytes : Nat) (state : State) : State × Option (Outcome T) :=
  match inspect maxBytes state.buffer with
  | .needed count => ({ state with awaiting := some (maxBytes, min count (8 * 1024)) }, none)
  | .malformed error => ({ state with awaiting := none }, some (.failed error))
  | .complete payload =>
    match fromSlice payload with
    | .ok value => ({ state with buffer := [], awaiting := none }, some (.frame value))
    | .error message => ({ state with awaiting := none }, some (.failed (.json message)))

/-- What an event makes of a reader, where it can happen. -/
def step (state : State) : Event → Option (State × Option (Outcome T))
  | .start maxBytes =>
    if state.awaiting = none then some (proceed fromSlice maxBytes state) else none
  | .deliver count =>
    match state.awaiting with
    | none => none
    | some (maxBytes, wanted) =>
      if 0 < count ∧ count ≤ wanted ∧ count ≤ state.incoming.length then
        some (proceed fromSlice maxBytes
          { state with
            buffer := state.buffer ++ state.incoming.take count
            incoming := state.incoming.drop count })
      else none
  | .close =>
    if state.awaiting.isSome ∧ state.incoming = [] then
      some ({ state with awaiting := none },
        some (if state.buffer = [] then .ended else .failed .unexpectedEof))
    else none
  | .cancel =>
    if state.awaiting.isSome then some ({ state with awaiting := none }, none) else none

/-- A reader on a transport that holds some bytes. -/
def fresh (incoming : List UInt8) : State := ⟨[], none, incoming⟩

/-- A run of a reader and what its calls returned. Each call is made with a limit that is allowed
after the outcomes so far. -/
inductive Run (allowed : List (Outcome T) → Nat → Prop) (first : State) :
    List (Outcome T) → State → Prop where
  | nil : Run allowed first [] first
  | snoc {outcomes : List (Outcome T)} {state next : State} {event : Event}
      {outcome : Option (Outcome T)} (before : Run allowed first outcomes state)
      (hallowed : ∀ maxBytes, event = .start maxBytes → allowed outcomes maxBytes)
      (h : step fromSlice state event = some (next, outcome)) :
      Run allowed first (outcomes ++ outcome.toList) next

/-- The values of the frames among some outcomes. -/
def values : List (Outcome T) → List T
  | [] => []
  | .frame value :: rest => value :: values rest
  | _ :: rest => values rest

@[simp]
theorem values_append (first second : List (Outcome T)) :
    values (first ++ second) = values first ++ values second := by
  induction first with
  | nil => rfl
  | cons outcome rest ih => cases outcome <;> simp [values, ih]

end Reader

section Inspection

variable {maxBytes : Nat}

theorem inspect_frame {payload extra : List UInt8} (h : Fits maxBytes payload) :
    inspect maxBytes (frame payload ++ extra) = .complete payload := by
  obtain ⟨hpositive, hlimit, hshort⟩ := h
  simp only [frame, toBigEndian, List.cons_append, List.nil_append, inspect]
  rw [fromBigEndian_toBigEndian hshort, if_neg (by omega), if_pos (by simp)]
  rw [List.take_left]

theorem inspect_complete {buffer payload : List UInt8}
    (h : inspect maxBytes buffer = .complete payload) :
    Fits maxBytes payload ∧ ∃ extra, buffer = frame payload ++ extra := by
  match buffer with
  | first :: second :: third :: fourth :: body =>
    simp only [inspect] at h
    split_ifs at h with hbad hwhole
    · simp only [Inspected.complete.injEq] at h
      have hbound : fromBigEndian first second third fourth < 2 ^ 32 := by
        have hfirst := first.toNat_lt
        have hsecond := second.toNat_lt
        have hthird := third.toNat_lt
        have hfourth := fourth.toNat_lt
        simp only [fromBigEndian]
        omega
      have hlength : payload.length = fromBigEndian first second third fourth := by
        rw [← h, List.length_take]
        omega
      refine ⟨⟨by omega, by omega, by omega⟩, body.drop payload.length, ?_⟩
      have hbegins : toBigEndian payload.length = [first, second, third, fourth] := by
        rw [hlength]
        have hfirst := first.toNat_lt
        have hsecond := second.toNat_lt
        have hthird := third.toNat_lt
        have hfourth := fourth.toNat_lt
        simp only [toBigEndian, fromBigEndian, List.cons.injEq, and_true]
        refine ⟨?_, ?_, ?_, ?_⟩
        all_goals
          apply UInt8.toNat_inj.mp
          rw [UInt8.toNat_ofNat']
          omega
      have hbody : payload ++ body.drop payload.length = body := by
        rw [hlength, ← h]
        exact List.take_append_drop _ _
      simp [frame, hbegins, hbody]
  | [] => cases h
  | [_] => cases h
  | [_, _] => cases h
  | [_, _, _] => cases h

theorem inspect_part {buffer rest payload : List UInt8} (h : Fits maxBytes payload)
    (hpart : buffer ++ rest = frame payload) (hrest : rest ≠ []) :
    ∃ count, inspect maxBytes buffer = .needed count ∧ 0 < count ∧ count ≤ rest.length := by
  obtain ⟨hpositive, hlimit, hshort⟩ := h
  have hlength : buffer.length + rest.length = payload.length + 4 := by
    rw [← List.length_append, hpart, length_frame]
  have hleft : 0 < rest.length := List.length_pos_iff.mpr hrest
  match buffer with
  | first :: second :: third :: fourth :: body =>
    simp only [List.length_cons] at hlength
    simp only [frame, toBigEndian, List.cons_append, List.nil_append, List.cons.injEq] at hpart
    obtain ⟨rfl, rfl, rfl, rfl, _⟩ := hpart
    refine ⟨rest.length, ?_, hleft, Nat.le_refl _⟩
    simp only [inspect]
    rw [fromBigEndian_toBigEndian hshort, if_neg (by omega), if_neg (by omega)]
    congr 1
    omega
  | [] =>
    simp only [List.length_nil] at hlength
    exact ⟨4, rfl, by omega, by omega⟩
  | [_] =>
    simp only [List.length_cons, List.length_nil] at hlength
    exact ⟨3, rfl, by omega, by omega⟩
  | [_, _] =>
    simp only [List.length_cons, List.length_nil] at hlength
    exact ⟨2, rfl, by omega, by omega⟩
  | [_, _, _] =>
    simp only [List.length_cons, List.length_nil] at hlength
    exact ⟨1, rfl, by omega, by omega⟩

/-- A buffer with no byte beyond the frame it starts. -/
def Exact (buffer : List UInt8) : Prop :=
  ∀ first second third fourth body, buffer = first :: second :: third :: fourth :: body →
    body.length ≤ fromBigEndian first second third fourth

theorem Exact.complete {buffer payload : List UInt8} (hexact : Exact buffer)
    (h : inspect maxBytes buffer = .complete payload) : buffer = frame payload := by
  obtain ⟨⟨_, _, hshort⟩, extra, rfl⟩ := inspect_complete h
  have hbody := hexact _ _ _ _ (payload ++ extra) rfl
  rw [fromBigEndian_toBigEndian hshort, List.length_append] at hbody
  have hempty : extra = [] := List.length_eq_zero_iff.mp (by omega)
  rw [hempty, List.append_nil]

theorem Exact.append {buffer more : List UInt8} {count : Nat} (hexact : Exact buffer)
    (h : inspect maxBytes buffer = .needed count) (hmore : more.length ≤ count) :
    Exact (buffer ++ more) := by
  intro first second third fourth body hwhole
  have hlength : buffer.length + more.length = body.length + 4 := by
    rw [← List.length_append, hwhole]
    simp only [List.length_cons]
  match buffer with
  | one :: two :: three :: four :: part =>
    simp only [List.cons_append, List.cons.injEq] at hwhole
    obtain ⟨rfl, rfl, rfl, rfl, hbody⟩ := hwhole
    simp only [inspect] at h
    split_ifs at h with hbad hfull
    simp only [Inspected.needed.injEq] at h
    simp only [List.length_cons] at hlength
    omega
  | [] =>
    simp only [inspect, Inspected.needed.injEq, List.length_nil] at h hlength
    omega
  | [_] =>
    simp only [inspect, Inspected.needed.injEq, List.length_cons, List.length_nil] at h hlength
    omega
  | [_, _] =>
    simp only [inspect, Inspected.needed.injEq, List.length_cons, List.length_nil] at h hlength
    omega
  | [_, _, _] =>
    simp only [inspect, Inspected.needed.injEq, List.length_cons, List.length_nil] at h hlength
    omega

end Inspection

section Streams

variable {T : Type} {fromSlice : List UInt8 → Except String T}

/-- A reader between two events: its buffer is exact, and a running call awaits what it needs. -/
structure Steady (state : State) : Prop where
  exact : Exact state.buffer
  asked : ∀ maxBytes wanted, state.awaiting = some (maxBytes, wanted) →
    ∃ count, inspect maxBytes state.buffer = .needed count ∧ wanted ≤ count

/-- What a call does with an exact buffer: it goes on, fails, or returns the frame the buffer is. -/
theorem proceed_cases {maxBytes : Nat} {state next : State} {outcome : Option (Outcome T)}
    (hexact : Exact state.buffer) (h : proceed fromSlice maxBytes state = (next, outcome)) :
    Steady next ∧ (∀ limit wanted, next.awaiting = some (limit, wanted) → limit = maxBytes) ∧
      next.incoming = state.incoming ∧
      ((outcome = none ∧ next.buffer = state.buffer ∧ next.awaiting.isSome = true) ∨
        (∃ error, outcome = some (.failed error) ∧ next.buffer = state.buffer ∧
          next.awaiting = none) ∨
        ∃ payload value, outcome = some (.frame value) ∧ Fits maxBytes payload ∧
          state.buffer = frame payload ∧ fromSlice payload = .ok value ∧ next.buffer = [] ∧
          next.awaiting = none) := by
  unfold proceed at h
  cases hinspected : inspect maxBytes state.buffer with
  | needed count =>
    rw [hinspected] at h
    cases h
    refine ⟨⟨hexact, ?_⟩, ?_, rfl, .inl ⟨rfl, rfl, rfl⟩⟩
    · intro limit wanted hasked
      cases hasked
      exact ⟨count, hinspected, Nat.min_le_left _ _⟩
    · intro limit wanted hasked
      cases hasked
      rfl
  | malformed error =>
    rw [hinspected] at h
    cases h
    exact ⟨⟨hexact, by simp⟩, by simp, rfl, .inr (.inl ⟨_, rfl, rfl, rfl⟩)⟩
  | complete payload =>
    rw [hinspected] at h
    dsimp only at h
    cases hvalue : fromSlice payload with
    | ok value =>
      rw [hvalue] at h
      cases h
      refine ⟨⟨by simp [Exact], by simp⟩, by simp, rfl, .inr (.inr ⟨payload, value, rfl, ?_, ?_,
        hvalue, rfl, rfl⟩)⟩
      · exact (inspect_complete hinspected).1
      · exact hexact.complete hinspected
    | error message =>
      rw [hvalue] at h
      cases h
      exact ⟨⟨hexact, by simp⟩, by simp, rfl, .inr (.inl ⟨_, rfl, rfl, rfl⟩)⟩

/-- What an event does to a steady reader: the bytes taken from the transport go to the buffer, a
frame returned is all of it, and a clean end is reported with nothing left. -/
theorem step_cases {state next : State} {event : Event} {outcome : Option (Outcome T)}
    (hsteady : Steady state) (h : step fromSlice state event = some (next, outcome)) :
    Steady next ∧
    (∀ maxBytes wanted, next.awaiting = some (maxBytes, wanted) →
      event = .start maxBytes ∨ ∃ asked, state.awaiting = some (maxBytes, asked)) ∧
    ∃ taken, state.incoming = taken ++ next.incoming ∧
      ((outcome = none ∧ next.buffer = state.buffer ++ taken) ∨
        (∃ error, outcome = some (.failed error) ∧ next.buffer = state.buffer ++ taken) ∨
        (outcome = some .ended ∧ next.buffer = [] ∧ state.buffer = [] ∧ state.incoming = []) ∨
        ∃ payload value maxBytes, outcome = some (.frame value) ∧ Fits maxBytes payload ∧
          (event = .start maxBytes ∨ ∃ wanted, state.awaiting = some (maxBytes, wanted)) ∧
          state.buffer ++ taken = frame payload ∧ fromSlice payload = .ok value ∧
          next.buffer = []) := by
  cases event with
  | start maxBytes =>
    simp only [step] at h
    split_ifs at h with hidle
    obtain ⟨hnext, hlimit, hincoming, hcases⟩ := proceed_cases hsteady.exact (Option.some.inj h)
    refine ⟨hnext, ?_, [], by rw [hincoming]; rfl, ?_⟩
    · intro limit wanted hasked
      rw [hlimit limit wanted hasked]
      exact .inl rfl
    rw [List.append_nil]
    rcases hcases with ⟨hnone, hbuffer, _⟩ | ⟨error, herror, hbuffer, _⟩ |
      ⟨payload, value, hframe, hfits, hbuffer, hvalue, hclear, _⟩
    · exact .inl ⟨hnone, hbuffer⟩
    · exact .inr (.inl ⟨error, herror, hbuffer⟩)
    · exact .inr (.inr (.inr ⟨payload, value, maxBytes, hframe, hfits, .inl rfl, hbuffer, hvalue,
        hclear⟩))
  | deliver count =>
    simp only [step] at h
    cases hawaiting : state.awaiting with
    | none =>
      rw [hawaiting] at h
      cases h
    | some call =>
      obtain ⟨maxBytes, wanted⟩ := call
      rw [hawaiting] at h
      dsimp only at h
      split_ifs at h with hcount
      obtain ⟨needed, hneeded, hasked⟩ := hsteady.asked maxBytes wanted hawaiting
      have htaken : (state.incoming.take count).length ≤ needed := by
        rw [List.length_take]
        omega
      have hexact := hsteady.exact.append hneeded htaken
      obtain ⟨hnext, hlimit, hincoming, hcases⟩ := proceed_cases hexact (Option.some.inj h)
      refine ⟨hnext, ?_, state.incoming.take count, ?_, ?_⟩
      · intro limit asked hnow
        rw [hlimit limit asked hnow]
        exact .inr ⟨wanted, rfl⟩
      · rw [hincoming]
        exact (List.take_append_drop _ _).symm
      · rcases hcases with ⟨hnone, hbuffer, _⟩ | ⟨error, herror, hbuffer, _⟩ |
          ⟨payload, value, hframe, hfits, hbuffer, hvalue, hclear, _⟩
        · exact .inl ⟨hnone, hbuffer⟩
        · exact .inr (.inl ⟨error, herror, hbuffer⟩)
        · exact .inr (.inr (.inr ⟨payload, value, maxBytes, hframe, hfits, .inr ⟨wanted, rfl⟩,
            hbuffer, hvalue, hclear⟩))
  | close =>
    simp only [step] at h
    split_ifs at h with hclosed hempty
    · cases h
      exact ⟨⟨hsteady.exact, by simp⟩, by simp, [], rfl,
        .inr (.inr (.inl ⟨rfl, hempty, hempty, hclosed.2⟩))⟩
    · cases h
      refine ⟨⟨hsteady.exact, by simp⟩, by simp, [], rfl, .inr (.inl ⟨_, rfl, ?_⟩)⟩
      rw [List.append_nil]
  | cancel =>
    simp only [step] at h
    split_ifs at h with hrunning
    cases h
    refine ⟨⟨hsteady.exact, by simp⟩, by simp, [], rfl, .inl ⟨rfl, ?_⟩⟩
    rw [List.append_nil]

variable {allowed : List (Outcome T) → Nat → Prop} {stream : List UInt8}

/-- What a reader made of a stream so far: the frames it returned, its buffer and the rest. -/
structure Accounted (fromSlice : List UInt8 → Except String T) (maxBytes : Nat)
    (stream : List UInt8) (outcomes : List (Outcome T)) (state : State) : Prop where
  steady : Steady state
  limited : ∀ limit wanted, state.awaiting = some (limit, wanted) → limit ≤ maxBytes
  /-- The stream starts with the frames of the values returned. -/
  framed : ∃ payloads : List (List UInt8),
    stream = (payloads.map frame).flatten ++ (state.buffer ++ state.incoming) ∧
      List.Forall₂ (fun payload value => Fits maxBytes payload ∧ fromSlice payload = .ok value)
        payloads (values outcomes)
  ended : .ended ∈ outcomes → state.buffer = [] ∧ state.incoming = []

theorem Fits.mono {small large : Nat} {payload : List UInt8} (h : Fits small payload)
    (hle : small ≤ large) : Fits large payload :=
  ⟨h.1, h.2.1.trans hle, h.2.2⟩

theorem Run.accounted {maxBytes : Nat} {outcomes : List (Outcome T)} {state : State}
    (hlimit : ∀ outcomes limit, allowed outcomes limit → limit ≤ maxBytes)
    (h : Run fromSlice allowed (fresh stream) outcomes state) :
    Accounted fromSlice maxBytes stream outcomes state := by
  induction h with
  | nil =>
    have hsteady : Steady (fresh stream) := by
      refine ⟨?_, by simp [fresh]⟩
      intro first second third fourth body hbuffer
      cases hbuffer
    exact ⟨hsteady, by simp [fresh], ⟨[], rfl, .nil⟩, by simp⟩
  | @snoc outcomes state next event outcome before hallowed hstep ih =>
    obtain ⟨hsteady, hbound, ⟨payloads, hstream, hvalues⟩, hended⟩ := ih
    obtain ⟨hnext, hasked, taken, hincoming, hcases⟩ := step_cases hsteady hstep
    have hcall : ∀ limit, (event = .start limit ∨ ∃ wanted, state.awaiting = some (limit, wanted)) →
        limit ≤ maxBytes := by
      rintro limit (hstart | ⟨wanted, hwanted⟩)
      · exact hlimit _ _ (hallowed limit hstart)
      · exact hbound limit wanted hwanted
    have hbounds : ∀ limit wanted, next.awaiting = some (limit, wanted) → limit ≤ maxBytes :=
      fun limit wanted hwanted => hcall limit (hasked limit wanted hwanted)
    have hkept : ∀ {rest : List UInt8}, rest = state.buffer ++ taken →
        stream = (payloads.map frame).flatten ++ (rest ++ next.incoming) := by
      rintro rest rfl
      rw [hstream, hincoming, List.append_assoc]
    have hstill : .ended ∈ outcomes → taken = [] ∧ state.buffer = [] ∧ next.incoming = [] := by
      intro hmem
      obtain ⟨hbuffer, hempty⟩ := hended hmem
      rw [hincoming] at hempty
      exact ⟨(List.append_eq_nil_iff.mp hempty).1, hbuffer, (List.append_eq_nil_iff.mp hempty).2⟩
    rcases hcases with ⟨rfl, hbuffer⟩ | ⟨error, rfl, hbuffer⟩ | ⟨rfl, hbuffer, hempty, hnothing⟩ |
      ⟨payload, value, limit, rfl, hfits, hlimited, hframe, hvalue, hbuffer⟩
    · refine ⟨hnext, hbounds, ⟨payloads, hkept hbuffer, by simpa using hvalues⟩, ?_⟩
      intro hmem
      obtain ⟨htaken, hempty, hnone⟩ := hstill (by simpa using hmem)
      exact ⟨by rw [hbuffer, htaken, hempty]; rfl, hnone⟩
    · refine ⟨hnext, hbounds, ⟨payloads, hkept hbuffer, by simpa [values] using hvalues⟩, ?_⟩
      intro hmem
      obtain ⟨htaken, hempty, hnone⟩ := hstill (by simpa using hmem)
      exact ⟨by rw [hbuffer, htaken, hempty]; rfl, hnone⟩
    · rw [hnothing] at hincoming
      obtain ⟨htaken, hnone⟩ := List.append_eq_nil_iff.mp hincoming.symm
      refine ⟨hnext, hbounds, ⟨payloads, hkept ?_, by simpa [values] using hvalues⟩,
        fun _ => ⟨hbuffer, hnone⟩⟩
      rw [hbuffer, hempty, htaken]
      rfl
    · refine ⟨hnext, hbounds, ⟨payloads ++ [payload], ?_, ?_⟩, ?_⟩
      · rw [hkept rfl, hframe, hbuffer]
        simp
      · rw [values_append]
        exact List.rel_append hvalues (.cons ⟨hfits.mono (hcall limit hlimited), hvalue⟩ .nil)
      · intro hmem
        obtain ⟨htaken, hempty, hnone⟩ := hstill (by simpa using hmem)
        exact ⟨hbuffer, hnone⟩

end Streams

section Messages

variable {T : Type} {fromSlice : List UInt8 → Except String T}

/-- A message and its payload. -/
abbrev Parcel (T : Type) := T × List UInt8

/-- The bytes of some messages. -/
def wire (parcels : List (Parcel T)) : List UInt8 :=
  (parcels.map fun parcel => frame parcel.2).flatten

@[simp]
theorem wire_cons (parcel : Parcel T) (rest : List (Parcel T)) :
    wire (parcel :: rest) = frame parcel.2 ++ wire rest := rfl

/-- A message due next, whose frame the buffer starts. -/
structure Due (parcel : Parcel T) (state : State) : Prop where
  short : state.buffer.length < (frame parcel.2).length
  /-- A running call accepts it, and asked for a part of what is missing. -/
  awaited : ∀ maxBytes wanted, state.awaiting = some (maxBytes, wanted) →
    Fits maxBytes parcel.2 ∧ 0 < wanted ∧
      wanted + state.buffer.length ≤ (frame parcel.2).length

/-- How far a reader is with some messages. -/
structure Underway (done rest : List (Parcel T)) (outcomes : List (Outcome T)) (state : State) :
    Prop where
  returned : values outcomes = done.map Prod.fst
  clean : ∀ error, .failed error ∉ outcomes
  /-- The other messages are in the buffer and on their way. -/
  left : wire rest = state.buffer ++ state.incoming
  due : ∀ parcel later, rest = parcel :: later → Due parcel state
  ended : .ended ∈ outcomes → rest = []

variable {state : State} {maxBytes : Nat}

/-- A call with the next message under its limit returns it, or awaits more of it. -/
theorem proceed_due {parcel : Parcel T} {later : List UInt8} (hfits : Fits maxBytes parcel.2)
    (hvalue : fromSlice parcel.2 = .ok parcel.1)
    (hleft : frame parcel.2 ++ later = state.buffer ++ state.incoming)
    (hshort : state.buffer.length ≤ (frame parcel.2).length) :
    (state.buffer = frame parcel.2 ∧ state.incoming = later ∧
        proceed fromSlice maxBytes state =
          (⟨[], none, state.incoming⟩, some (.frame parcel.1))) ∨
      ∃ wanted, 0 < wanted ∧ wanted + state.buffer.length ≤ (frame parcel.2).length ∧
        state.buffer.length < (frame parcel.2).length ∧
        proceed fromSlice maxBytes state =
          ({ state with awaiting := some (maxBytes, wanted) }, none) := by
  obtain ⟨rest, hrest⟩ : ∃ rest, state.buffer ++ rest = frame parcel.2 :=
    List.prefix_of_prefix_length_le (List.prefix_append _ _)
      (hleft ▸ List.prefix_append _ _) hshort
  by_cases hempty : rest = []
  · refine .inl ?_
    rw [hempty, List.append_nil] at hrest
    have hincoming : later = state.incoming := by
      rw [hrest] at hleft
      exact List.append_cancel_left hleft
    have hinspected := @inspect_frame maxBytes parcel.2 [] hfits
    rw [List.append_nil] at hinspected
    refine ⟨hrest, hincoming.symm, ?_⟩
    unfold proceed
    rw [hrest, hinspected]
    dsimp only
    rw [hvalue]
  · refine .inr ?_
    obtain ⟨count, hinspected, hpositive, hcount⟩ := inspect_part hfits hrest hempty
    have hlength : state.buffer.length + rest.length = (frame parcel.2).length := by
      rw [← List.length_append, hrest]
    refine ⟨min count (8 * 1024), by omega, by omega, by omega, ?_⟩
    unfold proceed
    rw [hinspected]

theorem proceed_idle (h : state.buffer = []) :
    proceed fromSlice maxBytes state = ({ state with awaiting := some (maxBytes, 4) }, none) := by
  unfold proceed
  rw [h]
  rfl

theorem Underway.proceed {done rest : List (Parcel T)} {outcomes : List (Outcome T)}
    {next : State} {outcome : Option (Outcome T)}
    (hreturned : values outcomes = done.map Prod.fst) (hclean : ∀ error, .failed error ∉ outcomes)
    (hended : .ended ∈ outcomes → rest = []) (hleft : wire rest = state.buffer ++ state.incoming)
    (hvalues : ∀ parcel ∈ rest, fromSlice parcel.2 = .ok parcel.1)
    (hdue : ∀ parcel later, rest = parcel :: later → Fits maxBytes parcel.2 ∧
      state.buffer.length ≤ (frame parcel.2).length)
    (h : proceed fromSlice maxBytes state = (next, outcome)) :
    ∃ done' rest', done' ++ rest' = done ++ rest ∧
      Underway done' rest' (outcomes ++ outcome.toList) next := by
  cases rest with
  | nil =>
    have hnothing : state.buffer = [] ∧ state.incoming = [] :=
      List.append_eq_nil_iff.mp hleft.symm
    rw [proceed_idle hnothing.1] at h
    cases h
    refine ⟨done, [], rfl, ?_, ?_, hleft, by simp, by simp⟩
    · simpa using hreturned
    · simpa using hclean
  | cons parcel later =>
    obtain ⟨hfits, hshort⟩ := hdue parcel later rfl
    have hvalue := hvalues parcel List.mem_cons_self
    rw [wire_cons] at hleft
    rcases proceed_due hfits hvalue hleft hshort with ⟨hbuffer, hincoming, hproceed⟩ |
      ⟨wanted, hpositive, hwanted, hpart, hproceed⟩
    · rw [hproceed] at h
      cases h
      refine ⟨done ++ [parcel], later, by simp, ?_, ?_, by simpa using hincoming.symm, ?_, ?_⟩
      · rw [values_append, hreturned]
        simp [values]
      · simpa using hclean
      · rintro parcel' later' _
        exact ⟨by simp, by simp⟩
      · intro hmem
        have hnone := hended (by simpa using hmem)
        cases hnone
    · rw [hproceed] at h
      cases h
      refine ⟨done, parcel :: later, rfl, ?_, ?_, hleft, ?_, ?_⟩
      · simpa using hreturned
      · simpa using hclean
      · rintro parcel' later' hsame
        cases hsame
        refine ⟨hpart, ?_⟩
        intro limit asked hasked
        cases hasked
        exact ⟨hfits, hpositive, hwanted⟩
      · intro hmem
        exact hended (by simpa using hmem)

theorem Due.taken {parcel : Parcel T} {wanted count : Nat} (h : Due parcel state)
    (hawaiting : state.awaiting = some (maxBytes, wanted)) (hcount : count ≤ wanted) :
    Fits maxBytes parcel.2 ∧
      (state.buffer ++ state.incoming.take count).length ≤ (frame parcel.2).length := by
  obtain ⟨hfits, _, hwanted⟩ := h.awaited maxBytes wanted hawaiting
  refine ⟨hfits, ?_⟩
  rw [List.length_append, List.length_take]
  omega

theorem Underway.step {done rest : List (Parcel T)} {outcomes : List (Outcome T)}
    {state next : State} {event : Event} {outcome : Option (Outcome T)}
    (h : Underway done rest outcomes state)
    (hvalues : ∀ parcel ∈ rest, fromSlice parcel.2 = .ok parcel.1)
    (hallowed : ∀ maxBytes, event = .start maxBytes →
      ∀ parcel later, rest = parcel :: later → Fits maxBytes parcel.2)
    (hstep : step fromSlice state event = some (next, outcome)) :
    ∃ done' rest', done' ++ rest' = done ++ rest ∧
      Underway done' rest' (outcomes ++ outcome.toList) next := by
  cases event with
  | start maxBytes =>
    simp only [FrameCodec.step] at hstep
    split_ifs at hstep with hidle
    refine Underway.proceed h.returned h.clean h.ended h.left hvalues ?_ (Option.some.inj hstep)
    intro parcel later hrest
    exact ⟨hallowed maxBytes rfl parcel later hrest, Nat.le_of_lt (h.due parcel later hrest).short⟩
  | deliver count =>
    simp only [FrameCodec.step] at hstep
    cases hawaiting : state.awaiting with
    | none =>
      rw [hawaiting] at hstep
      cases hstep
    | some call =>
      obtain ⟨maxBytes, wanted⟩ := call
      rw [hawaiting] at hstep
      dsimp only at hstep
      split_ifs at hstep with hcount
      refine Underway.proceed h.returned h.clean h.ended ?_ hvalues ?_ (Option.some.inj hstep)
      · rw [List.append_assoc, List.take_append_drop]
        exact h.left
      · intro parcel later hrest
        exact (h.due parcel later hrest).taken hawaiting hcount.2.1
  | close =>
    simp only [FrameCodec.step] at hstep
    split_ifs at hstep with hclosed hempty
    · cases hstep
      have hnothing : rest = [] := by
        cases hrest : rest with
        | nil => rfl
        | cons parcel later =>
          have hleft := h.left
          rw [hrest, wire_cons, hempty, hclosed.2] at hleft
          have hlength := congrArg List.length hleft
          simp at hlength
      refine ⟨done, rest, rfl, ?_, ?_, h.left, ?_, fun _ => hnothing⟩
      · simpa [values] using h.returned
      · simpa using h.clean
      · intro parcel later hrest
        rw [hnothing] at hrest
        cases hrest
    · exfalso
      have hleft := h.left
      rw [hclosed.2, List.append_nil] at hleft
      cases hrest : rest with
      | nil =>
        rw [hrest] at hleft
        exact hempty hleft.symm
      | cons parcel later =>
        have hshort := (h.due parcel later hrest).short
        have hlength := congrArg List.length hleft
        rw [hrest, wire_cons, List.length_append] at hlength
        omega
  | cancel =>
    simp only [FrameCodec.step] at hstep
    split_ifs at hstep with hrunning
    cases hstep
    refine ⟨done, rest, rfl, ?_, ?_, h.left, ?_, ?_⟩
    · simpa using h.returned
    · simpa using h.clean
    · intro parcel later hrest
      exact ⟨(h.due parcel later hrest).short, by simp⟩
    · intro hmem
      exact h.ended (by simpa using hmem)

def Sent (toWriter : T → Except String (List UInt8)) (messages : List T)
    (encoded : List (List UInt8)) : Prop :=
  List.Forall₂ (fun value bytes => encodeFrame toWriter value = .ok bytes) messages encoded

/-- The limit of a call admits the message due after some outcomes. -/
def Admits (toWriter : T → Except String (List UInt8)) (messages : List T)
    (outcomes : List (Outcome T)) (maxBytes : Nat) : Prop :=
  ∀ value payload, messages[(values outcomes).length]? = some value →
    toWriter value = .ok payload → payload.length ≤ maxBytes

/-- What a reader returned of some messages sent to it, and where it stands. -/
structure Delivered (messages : List T) (encoded : List (List UInt8))
    (outcomes : List (Outcome T)) (state : State) : Prop where
  order : values outcomes <+: messages
  clean : ∀ error, .failed error ∉ outcomes
  /-- Nothing but the frames returned and the buffer is taken from the transport. -/
  left : (encoded.drop (values outcomes).length).flatten = state.buffer ++ state.incoming
  partly : ∀ bytes, encoded[(values outcomes).length]? = some bytes →
    state.buffer.length < bytes.length
  ended : .ended ∈ outcomes → values outcomes = messages
  /-- With nothing left on the way every message was returned. -/
  complete : state.incoming = [] → values outcomes = messages

variable {toWriter : T → Except String (List UInt8)}

theorem Sent.parcels {messages : List T} {encoded : List (List UInt8)}
    (h : Sent toWriter messages encoded) :
    ∃ parcels : List (Parcel T), messages = parcels.map Prod.fst ∧
      encoded = parcels.map (fun parcel => frame parcel.2) ∧
      ∀ parcel ∈ parcels, toWriter parcel.1 = .ok parcel.2 ∧ Fits maxFrameBytes parcel.2 := by
  induction h with
  | nil => exact ⟨[], rfl, rfl, by simp⟩
  | @cons value bytes messages encoded hhead htail ih =>
    obtain ⟨payload, hpayload, hfits, rfl⟩ := encodeFrame_ok_iff.mp hhead
    obtain ⟨parcels, rfl, rfl, hparcels⟩ := ih
    refine ⟨(value, payload) :: parcels, rfl, rfl, ?_⟩
    intro parcel hparcel
    rcases List.mem_cons.mp hparcel with rfl | hparcel
    · exact ⟨hpayload, hfits⟩
    · exact hparcels parcel hparcel

theorem Run.underway {parcels : List (Parcel T)} {outcomes : List (Outcome T)}
    (hparcels : ∀ parcel ∈ parcels, toWriter parcel.1 = .ok parcel.2 ∧ Fits maxFrameBytes parcel.2)
    (hvalues : ∀ parcel ∈ parcels, fromSlice parcel.2 = .ok parcel.1)
    (h : Run fromSlice (Admits toWriter (parcels.map Prod.fst)) (fresh (wire parcels))
      outcomes state) :
    ∃ done rest, parcels = done ++ rest ∧ Underway done rest outcomes state := by
  induction h with
  | nil =>
    refine ⟨[], parcels, rfl, rfl, by simp, rfl, ?_, by simp⟩
    intro parcel later hrest
    exact ⟨by simp [fresh], by simp [fresh]⟩
  | @snoc outcomes state next event outcome before hallowed hstep ih =>
    obtain ⟨done, rest, hsplit, hunder⟩ := ih
    have hrest : ∀ parcel ∈ rest, parcel ∈ parcels := fun parcel hmem => by
      rw [hsplit]
      exact List.mem_append_right _ hmem
    obtain ⟨done', rest', hsame, hnext⟩ := hunder.step
      (fun parcel hmem => hvalues parcel (hrest parcel hmem)) (by
        intro maxBytes hstart parcel later hdue
        obtain ⟨hpayload, hfits⟩ := hparcels parcel (hrest parcel (by simp [hdue]))
        refine ⟨hfits.1, hallowed maxBytes hstart parcel.1 parcel.2 ?_ hpayload, hfits.2.2⟩
        rw [hunder.returned, List.length_map, hsplit, hdue]
        simp) hstep
    exact ⟨done', rest', hsplit.trans hsame.symm, hnext⟩

theorem Underway.delivered {done rest : List (Parcel T)} {outcomes : List (Outcome T)}
    {state : State} (h : Underway done rest outcomes state) :
    Delivered ((done ++ rest).map Prod.fst)
      ((done ++ rest).map fun parcel => frame parcel.2) outcomes state := by
  have hcount : (values outcomes).length = done.length := by
    rw [h.returned, List.length_map]
  have hdrop : ((done ++ rest).map fun parcel => frame parcel.2).drop done.length =
      rest.map fun parcel => frame parcel.2 := by
    rw [List.map_append]
    exact List.drop_left' (List.length_map _)
  have hall : rest = [] → values outcomes = (done ++ rest).map Prod.fst := by
    rintro rfl
    rw [h.returned, List.append_nil]
  refine ⟨?_, h.clean, ?_, ?_, fun hended => hall (h.ended hended), fun hincoming => hall ?_⟩
  · rw [h.returned, List.map_append]
    exact List.prefix_append _ _
  · rw [hcount, hdrop]
    exact h.left
  · intro bytes hbytes
    rw [hcount, ← List.head?_drop, hdrop] at hbytes
    cases hrest : rest with
    | nil =>
      rw [hrest] at hbytes
      cases hbytes
    | cons parcel later =>
      rw [hrest] at hbytes
      cases hbytes
      exact (h.due parcel later hrest).short
  · cases hrest : rest with
    | nil => rfl
    | cons parcel later =>
      have hshort := (h.due parcel later hrest).short
      have hlength := congrArg List.length h.left
      rw [hincoming, List.append_nil, hrest, wire_cons, List.length_append] at hlength
      omega

end Messages

section Progress

variable {T : Type} {fromSlice : List UInt8 → Except String T}
  {allowed : List (Outcome T) → Nat → Prop} {first : State}

theorem proceed_incoming (fromSlice : List UInt8 → Except String T) (maxBytes : Nat)
    (state : State) : (proceed fromSlice maxBytes state).1.incoming = state.incoming := by
  unfold proceed
  cases inspect maxBytes state.buffer with
  | needed count | malformed error => rfl
  | complete payload =>
    dsimp only
    cases fromSlice payload <;> rfl

/-- A call that returns nothing yet awaits the transport, for at least a byte. -/
theorem proceed_awaits {maxBytes : Nat} {state next : State}
    (h : proceed fromSlice maxBytes state = (next, none)) :
    ∃ wanted, next.awaiting = some (maxBytes, wanted) ∧ 0 < wanted := by
  unfold proceed at h
  cases hinspected : inspect maxBytes state.buffer with
  | needed count =>
    rw [hinspected] at h
    cases h
    refine ⟨_, rfl, ?_⟩
    have hpositive : 0 < count := by
      match hbuffer : state.buffer with
      | one :: two :: three :: four :: body =>
        rw [hbuffer] at hinspected
        simp only [inspect] at hinspected
        split_ifs at hinspected with hbad hfull
        simp only [Inspected.needed.injEq] at hinspected
        omega
      | [] =>
        rw [hbuffer] at hinspected
        cases hinspected
        decide
      | [_] =>
        rw [hbuffer] at hinspected
        cases hinspected
        simp
      | [_, _] =>
        rw [hbuffer] at hinspected
        cases hinspected
        simp
      | [_, _, _] =>
        rw [hbuffer] at hinspected
        cases hinspected
        simp
    omega
  | malformed error =>
    rw [hinspected] at h
    cases h
  | complete payload =>
    rw [hinspected] at h
    dsimp only at h
    cases hvalue : fromSlice payload with
    | ok value | error message =>
      rw [hvalue] at h
      cases h

/-- A running call returns, however few bytes the transport hands over at a time. -/
theorem Run.returns_awaiting {outcomes : List (Outcome T)} {state : State} {maxBytes wanted : Nat}
    (h : Run fromSlice allowed first outcomes state)
    (hawaiting : state.awaiting = some (maxBytes, wanted)) (hwanted : 0 < wanted) :
    ∃ outcome final, Run fromSlice allowed first (outcomes ++ [outcome]) final := by
  induction hlength : state.incoming.length generalizing state wanted with
  | zero =>
    have hempty := List.length_eq_zero_iff.mp hlength
    have hstep : step fromSlice state .close = some ({ state with awaiting := none },
        some (if state.buffer = [] then .ended else .failed .unexpectedEof)) := by
      simp [step, hawaiting, hempty]
    exact ⟨_, _, .snoc h (by simp) hstep⟩
  | succ count ih =>
    have hstep : step fromSlice state (.deliver 1) = some (proceed fromSlice maxBytes
        { state with
          buffer := state.buffer ++ state.incoming.take 1
          incoming := state.incoming.drop 1 }) := by
      simp only [step, hawaiting]
      rw [if_pos (by omega)]
    have hincoming := proceed_incoming fromSlice maxBytes
      { state with
        buffer := state.buffer ++ state.incoming.take 1
        incoming := state.incoming.drop 1 }
    rcases hproceed : proceed fromSlice maxBytes
        { state with
          buffer := state.buffer ++ state.incoming.take 1
          incoming := state.incoming.drop 1 } with ⟨next, outcome⟩
    rw [hproceed] at hstep hincoming
    have hrun := Run.snoc h (by simp) hstep
    cases outcome with
    | some outcome => exact ⟨outcome, next, hrun⟩
    | none =>
      obtain ⟨asked, hasked, hpositive⟩ := proceed_awaits hproceed
      have hless : next.incoming.length = count := by
        rw [show next.incoming = state.incoming.drop 1 from hincoming, List.length_drop, hlength]
        rfl
      exact ih (by simpa using hrun) hasked hpositive hless

theorem Run.returns {outcomes : List (Outcome T)} {state : State} {maxBytes : Nat}
    (h : Run fromSlice allowed first outcomes state) (hallowed : allowed outcomes maxBytes) :
    ∃ outcome final, Run fromSlice allowed first (outcomes ++ [outcome]) final := by
  have hidle : ∃ idle, idle.awaiting = none ∧ Run fromSlice allowed first outcomes idle := by
    cases hawaiting : state.awaiting with
    | none => exact ⟨state, hawaiting, h⟩
    | some call =>
      have hstep : step fromSlice state .cancel =
          some ({ state with awaiting := none }, none) := by simp [step, hawaiting]
      exact ⟨_, rfl, by simpa using Run.snoc h (by simp) hstep⟩
  obtain ⟨idle, hnone, hrun⟩ := hidle
  have hstep : step fromSlice idle (.start maxBytes) = some (proceed fromSlice maxBytes idle) := by
    simp [step, hnone]
  rcases hproceed : proceed fromSlice maxBytes idle with ⟨next, outcome⟩
  rw [hproceed] at hstep
  have hnext := Run.snoc hrun (by
    intro limit hlimit
    cases hlimit
    exact hallowed) hstep
  cases outcome with
  | some outcome => exact ⟨outcome, next, hnext⟩
  | none =>
    obtain ⟨wanted, hawaiting, hpositive⟩ := proceed_awaits hproceed
    exact Run.returns_awaiting (by simpa using hnext) hawaiting hpositive

end Progress

section Results

variable {T : Type} {toWriter : T → Except String (List UInt8)}
  {fromSlice : List UInt8 → Except String T}

theorem frame_unique {small large : Nat} {payload other rest more : List UInt8}
    (hfits : Fits small payload) (hfitting : Fits large other)
    (h : frame payload ++ rest = frame other ++ more) : payload = other ∧ rest = more := by
  have hone := @inspect_frame (max small large) payload rest (hfits.mono (Nat.le_max_left _ _))
  have hother := @inspect_frame (max small large) other more (hfitting.mono (Nat.le_max_right _ _))
  rw [h, hother] at hone
  cases hone
  exact ⟨rfl, List.append_cancel_left h⟩

/-- Bytes no frame within the limit starts: a length of zero or over the limit, or a frame that is
cut off. -/
inductive Broken (maxBytes : Nat) : List UInt8 → Prop where
  /-- The length is zero or over the limit. -/
  | length {first second third fourth : UInt8} {rest : List UInt8}
      (h : fromBigEndian first second third fourth = 0 ∨
        fromBigEndian first second third fourth > maxBytes) :
      Broken maxBytes (first :: second :: third :: fourth :: rest)
  /-- The bytes end inside a frame. -/
  | truncated {payload bytes missing : List UInt8} (hfits : Fits maxBytes payload)
      (h : bytes ++ missing = frame payload) (hstarted : bytes ≠ []) (hmissing : missing ≠ []) :
      Broken maxBytes bytes

theorem Broken.no_frame {maxBytes : Nat} {bytes : List UInt8} (h : Broken maxBytes bytes) :
    bytes ≠ [] ∧ ∀ payload extra, Fits maxBytes payload → bytes ≠ frame payload ++ extra := by
  cases h with
  | length hlength =>
    refine ⟨by simp, ?_⟩
    intro payload extra hfits hsame
    have hinspected := @inspect_frame maxBytes payload extra hfits
    rw [← hsame] at hinspected
    simp only [inspect] at hinspected
    rw [if_pos hlength] at hinspected
    cases hinspected
  | truncated hfits hframe hstarted hmissing =>
    refine ⟨hstarted, ?_⟩
    rintro payload extra hother rfl
    rw [List.append_assoc] at hframe
    obtain ⟨rfl, hrest⟩ := frame_unique hother hfits (hframe.trans (List.append_nil _).symm)
    exact hmissing (List.append_eq_nil_iff.mp hrest).2

theorem frames_before_broken {maxBytes : Nat} {payloads found : List (List UInt8)}
    {broken rest : List UInt8} (hpayloads : ∀ payload ∈ payloads, Fits maxBytes payload)
    (hfound : ∀ payload ∈ found, Fits maxBytes payload) (hbroken : Broken maxBytes broken)
    (h : (payloads.map frame).flatten ++ broken = (found.map frame).flatten ++ rest) :
    found <+: payloads ∧ rest ≠ [] := by
  induction found generalizing payloads with
  | nil =>
    refine ⟨List.nil_prefix, ?_⟩
    rintro rfl
    simp only [List.map_nil, List.flatten_nil, List.append_nil, List.append_eq_nil_iff] at h
    exact hbroken.no_frame.1 h.2
  | cons payload later ih =>
    have hfits := hfound payload List.mem_cons_self
    cases payloads with
    | nil =>
      rw [List.map_cons, List.flatten_cons, List.append_assoc] at h
      exact absurd h (hbroken.no_frame.2 payload _ hfits)
    | cons other others =>
      rw [List.map_cons, List.flatten_cons, List.append_assoc, List.map_cons, List.flatten_cons,
        List.append_assoc] at h
      obtain ⟨rfl, hrest⟩ := frame_unique (hpayloads other List.mem_cons_self) hfits h
      obtain ⟨hbegins, hnonempty⟩ := ih
        (fun entry hentry => hpayloads entry (List.mem_cons_of_mem _ hentry))
        (fun entry hentry => hfound entry (List.mem_cons_of_mem _ hentry)) hrest
      exact ⟨(List.prefix_cons_inj other).mpr hbegins, hnonempty⟩

theorem values_concat_length (outcomes : List (Outcome T)) (outcome : Outcome T) :
    (values (outcomes ++ [outcome])).length =
      (values outcomes).length + (values [outcome]).length := by
  rw [values_append, List.length_append]

/-- A run over messages sent can be continued until all of them are returned. -/
theorem Run.completes {messages : List T} {encoded : List (List UInt8)}
    (hsent : Sent toWriter messages encoded)
    (hfaithful : ∀ value ∈ messages, ∀ payload, toWriter value = .ok payload →
      fromSlice payload = .ok value)
    (hdelivered : ∀ outcomes state, Run fromSlice (Admits toWriter messages)
      (fresh encoded.flatten) outcomes state → Delivered messages encoded outcomes state)
    {outcomes : List (Outcome T)} {state : State}
    (h : Run fromSlice (Admits toWriter messages) (fresh encoded.flatten) outcomes state) :
    ∃ more final, Run fromSlice (Admits toWriter messages) (fresh encoded.flatten)
      (outcomes ++ more) final ∧ values (outcomes ++ more) = messages ∧ .ended ∈ more := by
  have hadmits : ∀ outcomes, Admits toWriter messages outcomes maxFrameBytes := by
    intro outcomes value payload hvalue hpayload
    obtain ⟨parcels, rfl, _, hparcels⟩ := hsent.parcels
    obtain ⟨parcel, hparcel, rfl⟩ := List.mem_map.mp (List.mem_of_getElem? hvalue)
    obtain ⟨hpacked, hfits⟩ := hparcels parcel hparcel
    rw [hpacked] at hpayload
    cases hpayload
    exact hfits.2.1
  induction hleft : messages.length - (values outcomes).length generalizing outcomes state with
  | zero =>
    obtain ⟨outcome, final, hrun⟩ := h.returns (hadmits outcomes)
    have hnext := hdelivered _ _ hrun
    have hbefore := (hdelivered _ _ h).order.length_le
    have hafter := hnext.order.length_le
    rw [values_concat_length] at hafter
    cases outcome with
    | frame value =>
      simp only [values, List.length_cons, List.length_nil] at hafter
      omega
    | ended => exact ⟨[.ended], final, hrun, hnext.ended (by simp), by simp⟩
    | failed error => exact absurd (by simp) (hnext.clean error)
  | succ count ih =>
    obtain ⟨outcome, final, hrun⟩ := h.returns (hadmits outcomes)
    have hnext := hdelivered _ _ hrun
    cases outcome with
    | frame value =>
      have hless : messages.length - (values (outcomes ++ [.frame value])).length = count := by
        rw [values_concat_length]
        simp only [values, List.length_cons, List.length_nil]
        omega
      obtain ⟨more, last, hmore, hall, hend⟩ := ih hrun hless
      rw [List.append_assoc] at hmore hall
      exact ⟨_, last, hmore, hall, List.mem_append_right _ hend⟩
    | ended => exact ⟨[.ended], final, hrun, hnext.ended (by simp), by simp⟩
    | failed error => exact absurd (by simp) (hnext.clean error)

/-- A run over frames and broken bytes returns no more than the frames, reports no clean end and
can be continued until a call fails. -/
theorem Run.rejects {maxBytes : Nat} {payloads : List (List UInt8)} {broken : List UInt8}
    (hpayloads : ∀ payload ∈ payloads, Fits maxBytes payload) (hbroken : Broken maxBytes broken)
    {outcomes : List (Outcome T)} {state : State}
    (h : Run fromSlice (fun _ limit => limit = maxBytes)
      (fresh ((payloads.map frame).flatten ++ broken)) outcomes state) :
    (values outcomes).length ≤ payloads.length ∧ .ended ∉ outcomes ∧
      ∃ more error final, Run fromSlice (fun _ limit => limit = maxBytes)
        (fresh ((payloads.map frame).flatten ++ broken)) (outcomes ++ more) final ∧
          .failed error ∈ more := by
  have hbounded : ∀ {outcomes state}, Run fromSlice (fun _ limit => limit = maxBytes)
      (fresh ((payloads.map frame).flatten ++ broken)) outcomes state →
      (values outcomes).length ≤ payloads.length ∧ .ended ∉ outcomes := by
    intro outcomes state hrun
    obtain ⟨_, _, ⟨found, hstream, hvalues⟩, hended⟩ :=
      hrun.accounted fun _ _ hlimit => Nat.le_of_eq hlimit
    have hfits : ∀ payload ∈ found, Fits maxBytes payload := by
      intro payload hpayload
      obtain ⟨index, hindex, rfl⟩ := List.getElem_of_mem hpayload
      have hsecond : index < (values outcomes).length := hvalues.length_eq ▸ hindex
      exact (hvalues.get hindex hsecond).1
    obtain ⟨hbegins, hrest⟩ := frames_before_broken hpayloads hfits hbroken hstream
    refine ⟨hvalues.length_eq ▸ hbegins.length_le, fun hmem => hrest ?_⟩
    obtain ⟨hbuffer, hincoming⟩ := hended hmem
    rw [hbuffer, hincoming]
    rfl
  refine ⟨(hbounded h).1, (hbounded h).2, ?_⟩
  induction hleft : payloads.length - (values outcomes).length generalizing outcomes state with
  | zero =>
    obtain ⟨outcome, final, hrun⟩ := h.returns rfl
    obtain ⟨hcount, hnot⟩ := hbounded hrun
    have hbefore := (hbounded h).1
    rw [values_concat_length] at hcount
    cases outcome with
    | frame value =>
      simp only [values, List.length_cons, List.length_nil] at hcount
      omega
    | ended => exact absurd (by simp) hnot
    | failed error => exact ⟨[.failed error], error, final, hrun, by simp⟩
  | succ count ih =>
    obtain ⟨outcome, final, hrun⟩ := h.returns rfl
    obtain ⟨_, hnot⟩ := hbounded hrun
    cases outcome with
    | frame value =>
      have hless : payloads.length - (values (outcomes ++ [.frame value])).length = count := by
        rw [values_concat_length]
        simp only [values, List.length_cons, List.length_nil]
        omega
      obtain ⟨more, error, last, hmore, hfailed⟩ := ih hrun hless
      rw [List.append_assoc] at hmore
      exact ⟨_, error, last, hmore, List.mem_append_right _ hfailed⟩
    | ended => exact absurd (by simp) hnot
    | failed error => exact ⟨[.failed error], error, final, hrun, by simp⟩

/-- The codec is a faithful transport. Of messages sent, each within the limit of the call that
reads it, a reader returns exactly these in order, however the bytes are handed over and calls are
cancelled: it takes no byte beyond the frame it returns, no call fails, a clean end is reported
after the last one, and every run can be continued until it is. On every other stream it returns
the values of whole frames within the limit only and reports a clean end only with nothing left,
and a frame that is empty, over the limit or cut off is rejected. -/
theorem frames_faithful (T : Type) (toWriter : T → Except String (List UInt8))
    (fromSlice : List UInt8 → Except String T) :
    (∀ (messages : List T) (encoded : List (List UInt8)), Sent toWriter messages encoded →
      (∀ value ∈ messages, ∀ payload, toWriter value = .ok payload →
        fromSlice payload = .ok value) →
      ∀ (outcomes : List (Outcome T)) (state : State),
        Run fromSlice (Admits toWriter messages) (fresh encoded.flatten) outcomes state →
        Delivered messages encoded outcomes state ∧
        ∃ more final, Run fromSlice (Admits toWriter messages) (fresh encoded.flatten)
          (outcomes ++ more) final ∧ values (outcomes ++ more) = messages ∧ .ended ∈ more) ∧
    (∀ (allowed : List (Outcome T) → Nat → Prop) (maxBytes : Nat) (stream : List UInt8)
        (outcomes : List (Outcome T)) (state : State),
      (∀ outcomes limit, allowed outcomes limit → limit ≤ maxBytes) →
      Run fromSlice allowed (fresh stream) outcomes state →
      Accounted fromSlice maxBytes stream outcomes state) ∧
    ∀ (maxBytes : Nat) (payloads : List (List UInt8)) (broken : List UInt8)
        (outcomes : List (Outcome T)) (state : State),
      (∀ payload ∈ payloads, Fits maxBytes payload) → Broken maxBytes broken →
      Run fromSlice (fun _ limit => limit = maxBytes)
        (fresh ((payloads.map frame).flatten ++ broken)) outcomes state →
      (values outcomes).length ≤ payloads.length ∧ .ended ∉ outcomes ∧
        ∃ more error final, Run fromSlice (fun _ limit => limit = maxBytes)
          (fresh ((payloads.map frame).flatten ++ broken)) (outcomes ++ more) final ∧
            .failed error ∈ more := by
  refine ⟨?_, ?_, ?_⟩
  · intro messages encoded hsent hfaithful
    have hdelivered : ∀ outcomes state, Run fromSlice (Admits toWriter messages)
        (fresh encoded.flatten) outcomes state → Delivered messages encoded outcomes state := by
      intro outcomes state hrun
      obtain ⟨parcels, rfl, rfl, hparcels⟩ := hsent.parcels
      have hvalues : ∀ parcel ∈ parcels, fromSlice parcel.2 = .ok parcel.1 :=
        fun parcel hparcel => hfaithful parcel.1 (List.mem_map_of_mem hparcel) parcel.2
          (hparcels parcel hparcel).1
      obtain ⟨done, rest, rfl, hunder⟩ := hrun.underway hparcels hvalues
      exact hunder.delivered
    intro outcomes state hrun
    exact ⟨hdelivered outcomes state hrun, hrun.completes hsent hfaithful hdelivered⟩
  · intro allowed maxBytes stream outcomes state hlimit hrun
    exact hrun.accounted hlimit
  · intro maxBytes payloads broken outcomes state hpayloads hbroken hrun
    exact hrun.rejects hpayloads hbroken

/-- A call dropped within the length of a frame, a stream cut off there, and a frame of length
zero. -/
theorem frames_faithful_small :
    (Delivered [[1, 2]] [[0, 0, 0, 2, 1, 2]] ([] : List (Outcome (List UInt8)))
        ⟨[0, 0, 0], none, [2, 1, 2]⟩ ∧
      ∃ more final, Run Except.ok (Admits Except.ok [[1, 2]]) (fresh [0, 0, 0, 2, 1, 2])
        ([] ++ more) final ∧ values ([] ++ more) = [[1, 2]] ∧ .ended ∈ more) ∧
    Accounted Except.ok 10 [0, 0, 0] ([] : List (Outcome (List UInt8))) (fresh [0, 0, 0]) ∧
    ∃ more error final, @Run (List UInt8) Except.ok (fun _ limit => limit = 10)
      (fresh [0, 0, 0, 0]) ([] ++ more) final ∧ .failed error ∈ more := by
  have hsent : Sent (Except.ok : List UInt8 → Except String (List UInt8)) [[1, 2]]
      [[0, 0, 0, 2, 1, 2]] :=
    .cons (encodeFrame_ok_iff.mpr ⟨[1, 2], rfl, ⟨by decide, by decide, by decide⟩, rfl⟩) .nil
  have hadmits : Admits (Except.ok : List UInt8 → Except String (List UInt8)) [[1, 2]]
      ([] : List (Outcome (List UInt8))) 10 := by
    rintro value payload hvalue hpayload
    cases hvalue
    cases hpayload
    decide
  have hstart : @Run (List UInt8) Except.ok (Admits Except.ok [[1, 2]])
      (fresh [0, 0, 0, 2, 1, 2]) [] ⟨[], some (10, 4), [0, 0, 0, 2, 1, 2]⟩ :=
    @Run.snoc _ _ _ _ _ _ _ (.start 10) none .nil
      (fun _ hcall => Event.start.inj hcall ▸ hadmits) rfl
  have hpart : @Run (List UInt8) Except.ok (Admits Except.ok [[1, 2]])
      (fresh [0, 0, 0, 2, 1, 2]) [] ⟨[0, 0, 0], some (10, 1), [2, 1, 2]⟩ :=
    @Run.snoc _ _ _ _ _ _ _ (.deliver 3) none hstart (fun _ hcall => by cases hcall) rfl
  have hdropped : @Run (List UInt8) Except.ok (Admits Except.ok [[1, 2]])
      (fresh [0, 0, 0, 2, 1, 2]) [] ⟨[0, 0, 0], none, [2, 1, 2]⟩ :=
    @Run.snoc _ _ _ _ _ _ _ .cancel none hpart (fun _ hcall => by cases hcall) rfl
  obtain ⟨hmessages, hstreams, hbroken⟩ := frames_faithful (List UInt8) Except.ok Except.ok
  refine ⟨?_, ?_, ?_⟩
  · refine hmessages [[1, 2]] [[0, 0, 0, 2, 1, 2]] hsent ?_ [] _ hdropped
    rintro value _ payload hpayload
    exact hpayload.symm
  · exact hstreams (fun _ limit => limit = 10) 10 [0, 0, 0] [] _
      (fun _ _ hlimit => Nat.le_of_eq hlimit) .nil
  · exact (hbroken 10 [] [0, 0, 0, 0] [] _ (by simp) (.length (.inl rfl)) .nil).2.2

end Results

end MobiusAgent.FrameCodec
