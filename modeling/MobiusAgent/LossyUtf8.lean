import MobiusAgent.Utf8Characters

/-!
# Lossy decoding of UTF-8

A lossy decoder puts the replacement character in place of bytes that are no
character, one for each longest start of a character. A text that is decoded
in pieces is read as the whole exactly when no character is cut: every piece
that starts inside a character adds a replacement character, so that the
pieces have more characters than the text.
-/

namespace MobiusAgent.LossyUtf8

open Utf8Characters

/-- The text of some bytes after these many were decoded. -/
def decodeAfter : Nat → List UInt8 → List Char
  | _, [] => []
  | skipped + 1, _ :: rest => decodeAfter skipped rest
  | 0, byte :: rest =>
    match decodeChar? (byte :: rest) with
    | some c => c :: decodeAfter (c.utf8Size - 1) rest
    | none => Char.ofNat 0xFFFD :: decodeAfter (brokenLength (byte :: rest) - 1) rest

/-- The text of some bytes, with replacements. -/
def decodeLossy (bytes : List UInt8) : List Char := decodeAfter 0 bytes

def encode (text : List Char) : List UInt8 := text.flatMap String.utf8EncodeChar

def Whole (bytes : List UInt8) : Prop := ∃ text, bytes = encode text

theorem Whole.nil : Whole [] := ⟨[], rfl⟩

theorem encode_append (first second : List Char) :
    encode (first ++ second) = encode first ++ encode second := List.flatMap_append

theorem Whole.append {first second : List UInt8} (h : Whole first) (h' : Whole second) :
    Whole (first ++ second) := by
  obtain ⟨text, rfl⟩ := h
  obtain ⟨more, rfl⟩ := h'
  exact ⟨text ++ more, (encode_append text more).symm⟩

section Decoding

theorem decodeAfter_append {skipped : List UInt8} {rest : List UInt8} :
    decodeAfter skipped.length (skipped ++ rest) = decodeLossy rest := by
  induction skipped with
  | nil => rfl
  | cons byte skipped ih => exact ih

theorem decodeChar?_encode (c : Char) (rest : List UInt8) :
    decodeChar? (String.utf8EncodeChar c ++ rest) = some c := by
  unfold decodeChar?
  rw [List.toByteArray_append]
  have hdecoded := @List.utf8DecodeChar?_utf8Encode_singleton_append rest.toByteArray c
  rwa [List.utf8Encode_singleton] at hdecoded

theorem decodeChar?_some {bytes : List UInt8} {c : Char} (h : decodeChar? bytes = some c) :
    ∃ rest, bytes = String.utf8EncodeChar c ++ rest := by
  obtain ⟨rest, hrest⟩ := ByteArray.exists_of_utf8DecodeChar?_eq_some h
  refine ⟨rest.data.toList, ?_⟩
  have hdata := congrArg (fun array => array.data.toList) hrest
  simpa using hdata

theorem decodeLossy_char (c : Char) (rest : List UInt8) :
    decodeLossy (String.utf8EncodeChar c ++ rest) = c :: decodeLossy rest := by
  have hdecoded := decodeChar?_encode c rest
  have hlength : (String.utf8EncodeChar c).length = c.utf8Size := String.length_utf8EncodeChar c
  cases hbytes : String.utf8EncodeChar c with
  | nil => exact absurd hbytes String.utf8EncodeChar_ne_nil
  | cons byte more =>
    rw [hbytes, List.cons_append] at hdecoded
    rw [hbytes, List.length_cons] at hlength
    have hmore : c.utf8Size - 1 = more.length := by omega
    rw [List.cons_append, decodeLossy, decodeAfter, hdecoded]
    dsimp only
    rw [hmore, decodeAfter_append]

theorem decodeLossy_encode (text : List Char) : decodeLossy (encode text) = text := by
  induction text with
  | nil => rfl
  | cons c text ih =>
    unfold encode at ih ⊢
    rw [List.flatMap_cons, decodeLossy_char, ih]

theorem flatMap_decodeLossy {pieces : List (List UInt8)} (h : ∀ piece ∈ pieces, Whole piece) :
    encode (pieces.flatMap decodeLossy) = pieces.flatten := by
  induction pieces with
  | nil => rfl
  | cons piece rest ih =>
    obtain ⟨hpiece, hrest⟩ := List.forall_mem_cons.mp h
    obtain ⟨text, rfl⟩ := hpiece
    rw [List.flatMap_cons, List.flatten_cons, encode_append, decodeLossy_encode, ih hrest]

end Decoding

section Counting

/-- The bytes that start a character. -/
def leads (bytes : List UInt8) : Nat := bytes.countP fun byte => !isContinuation byte

theorem isContinuation_ofNat (value : Nat) :
    isContinuation (UInt8.ofNat (value % 0x40 + 0x80)) = true := by
  have hless := Nat.mod_lt value (by decide : 0 < 0x40)
  have hmod : (value % 64 + 128) % 256 = value % 64 + 128 := by omega
  simp only [isContinuation, Bool.and_eq_true, decide_eq_true_eq, UInt8.le_iff_toNat_le,
    UInt8.toNat_ofNat', hmod]
  exact ⟨by simp, by simp; omega⟩

theorem not_isContinuation {value : Nat} (h : value < 0x80 ∨ 0xC0 ≤ value) (hbyte : value < 0x100) :
    isContinuation (UInt8.ofNat value) = false := by
  have hmod : value % 256 = value := Nat.mod_eq_of_lt hbyte
  simp only [isContinuation, Bool.and_eq_false_iff, decide_eq_false_iff_not, UInt8.le_iff_toNat_le,
    UInt8.toNat_ofNat', hmod]
  simp
  omega

theorem encodeChar_shape (c : Char) : ∃ byte more, String.utf8EncodeChar c = byte :: more ∧
    isContinuation byte = false ∧ ∀ other ∈ more, isContinuation other = true := by
  unfold String.utf8EncodeChar
  dsimp only
  have hrange : c.val.toNat < 0x110000 := by
    have hvalid := c.valid
    rcases hvalid with hlow | ⟨_, hhigh⟩ <;> omega
  split_ifs with hone htwo hthree
  · exact ⟨_, _, rfl, not_isContinuation (by omega) (by omega), nofun⟩
  · refine ⟨_, _, rfl, not_isContinuation (by omega) (by omega), ?_⟩
    simp only [List.forall_mem_cons, isContinuation_ofNat]
    exact ⟨trivial, nofun⟩
  · refine ⟨_, _, rfl, not_isContinuation (by omega) (by omega), ?_⟩
    simp only [List.forall_mem_cons, isContinuation_ofNat]
    exact ⟨trivial, trivial, nofun⟩
  · refine ⟨_, _, rfl, not_isContinuation (by omega) (by omega), ?_⟩
    simp only [List.forall_mem_cons, isContinuation_ofNat]
    exact ⟨trivial, trivial, trivial, nofun⟩

theorem leads_cons (byte : UInt8) (rest : List UInt8) :
    leads (byte :: rest) = leads rest + if isContinuation byte then 0 else 1 := by
  unfold leads
  rw [List.countP_cons]
  cases isContinuation byte with
  | true => rfl
  | false => rfl

theorem leads_append (first second : List UInt8) :
    leads (first ++ second) = leads first + leads second := List.countP_append

theorem leads_continuations {bytes : List UInt8}
    (h : ∀ byte ∈ bytes, isContinuation byte = true) : leads bytes = 0 := by
  unfold leads
  rw [List.countP_eq_zero]
  intro byte hbyte
  rw [h byte hbyte]
  decide

theorem leads_encode (text : List Char) : leads (encode text) = text.length := by
  induction text with
  | nil => rfl
  | cons c text ih =>
    obtain ⟨byte, more, hbytes, hfirst, hmore⟩ := encodeChar_shape c
    have hsplit : encode (c :: text) = byte :: more ++ encode text := by
      unfold encode
      rw [List.flatMap_cons, hbytes]
    rw [hsplit, leads_append, leads_cons, leads_continuations hmore, ih, hfirst, List.length_cons]
    simp only [Bool.false_eq_true, if_false]
    omega

theorem leads_broken (byte : UInt8) (rest : List UInt8) :
    leads (rest.take (brokenLength (byte :: rest) - 1)) = 0 := by
  have hfollow : ∀ second, mayFollow byte second = true → isContinuation second = true := by
    intro second hmay
    unfold mayFollow at hmay
    unfold isContinuation at hmay ⊢
    simp only [Bool.and_eq_true, decide_eq_true_eq, UInt8.le_iff_toNat_le] at hmay ⊢
    split_ifs at hmay <;> simp at hmay ⊢ <;> omega
  cases rest with
  | nil => rfl
  | cons second rest =>
    have hsecond : ¬(decide (charWidth byte < 3) || !mayFollow byte second) = true →
        isContinuation second = true := by
      intro hcase
      obtain ⟨_, hmay⟩ := Bool.or_eq_false_iff.mp (Bool.not_eq_true _ ▸ hcase)
      exact hfollow second (by simpa using hmay)
    cases rest with
    | nil =>
      dsimp only [brokenLength]
      split_ifs with hcase
      · rfl
      · exact leads_continuations (by simpa using hsecond hcase)
    | cons third rest =>
      dsimp only [brokenLength]
      split_ifs with hcase hthird
      · rfl
      · obtain ⟨_, hcontinues⟩ := Bool.and_eq_true_iff.mp hthird
        exact leads_continuations (by simpa using ⟨hsecond hcase, hcontinues⟩)
      · exact leads_continuations (by simpa using hsecond hcase)

/-- Decoding gives at least a character for each byte that starts one and is not skipped. -/
theorem leads_le_decodeAfter (bytes : List UInt8) : ∀ skipped,
    leads bytes ≤ (decodeAfter skipped bytes).length + leads (bytes.take skipped) := by
  induction bytes with
  | nil =>
    intro skipped
    exact Nat.zero_le _
  | cons byte rest ih =>
    intro skipped
    cases skipped with
    | succ skipped =>
      have hrest := ih skipped
      rw [List.take_succ_cons, leads_cons, leads_cons, decodeAfter]
      omega
    | zero =>
      have hone : leads (byte :: rest) ≤ leads rest + 1 := by
        rw [leads_cons]
        split_ifs <;> omega
      rw [decodeAfter]
      cases hdecoded : decodeChar? (byte :: rest) with
      | none =>
        have hrest := ih (brokenLength (byte :: rest) - 1)
        rw [leads_broken] at hrest
        simp only [List.length_cons]
        omega
      | some c =>
        obtain ⟨later, hlater⟩ := decodeChar?_some hdecoded
        obtain ⟨first, more, hbytes, _, hmore⟩ := encodeChar_shape c
        have hlength : (String.utf8EncodeChar c).length = c.utf8Size :=
          String.length_utf8EncodeChar c
        rw [hbytes, List.length_cons] at hlength
        rw [hbytes, List.cons_append, List.cons.injEq] at hlater
        have htaken : rest.take (c.utf8Size - 1) = more := by
          rw [hlater.2, show c.utf8Size - 1 = more.length by omega, List.take_left']
          rfl
        have hrest := ih (c.utf8Size - 1)
        rw [htaken, leads_continuations hmore] at hrest
        simp only [List.length_cons]
        omega

theorem leads_lt_decodeLossy {byte : UInt8} (h : isContinuation byte = true) (rest : List UInt8) :
    leads (byte :: rest) < (decodeLossy (byte :: rest)).length := by
  have hnone : decodeChar? (byte :: rest) = none := by
    cases hdecoded : decodeChar? (byte :: rest) with
    | none => rfl
    | some c =>
      obtain ⟨later, hlater⟩ := decodeChar?_some hdecoded
      obtain ⟨first, more, hbytes, hfirst, _⟩ := encodeChar_shape c
      rw [hbytes, List.cons_append, List.cons.injEq] at hlater
      rw [← hlater.1, h] at hfirst
      cases hfirst
  have hrest := leads_le_decodeAfter rest (brokenLength (byte :: rest) - 1)
  rw [leads_broken] at hrest
  rw [leads_cons, h, decodeLossy, decodeAfter, hnone]
  simp only [if_true, List.length_cons]
  omega

end Counting

section Pieces

theorem whole_front {text : List Char} : ∀ {front rest : List UInt8}, encode text = front ++ rest →
    (∀ byte more, rest = byte :: more → isContinuation byte = false) → Whole front := by
  induction text with
  | nil =>
    intro front rest h _
    rw [(List.append_eq_nil_iff.mp h.symm).1]
    exact .nil
  | cons c text ih =>
    intro front rest h hrest
    obtain ⟨byte, more, hbytes, _, hmore⟩ := encodeChar_shape c
    have hsplit : String.utf8EncodeChar c ++ encode text = front ++ rest := h
    rcases List.append_eq_append_iff.mp hsplit with ⟨after, hfront, htext⟩ | ⟨cut, hchar, hafter⟩
    · rw [hfront]
      exact Whole.append ⟨[c], by simp [encode]⟩ (ih htext hrest)
    · cases front with
      | nil => exact .nil
      | cons start front =>
        rw [hbytes, List.cons_append, List.cons.injEq] at hchar
        cases cut with
        | nil =>
          rw [List.append_nil] at hchar
          rw [← hchar.1, ← hchar.2, ← hbytes]
          exact ⟨[c], by simp [encode]⟩
        | cons next cut =>
          have hinside := hmore next (by
            rw [hchar.2]
            exact List.mem_append_right _ List.mem_cons_self)
          rw [hrest next _ hafter] at hinside
          cases hinside

theorem Whole.cancel {front rest : List UInt8} (h : Whole front) (hboth : Whole (front ++ rest)) :
    Whole rest := by
  obtain ⟨text, rfl⟩ := h
  obtain ⟨all, hall⟩ := hboth
  induction text generalizing all with
  | nil => exact ⟨all, hall⟩
  | cons c text ih =>
    have hfirst := congrArg decodeLossy hall
    have hsplit : encode (c :: text) ++ rest =
        String.utf8EncodeChar c ++ (encode text ++ rest) := by
      unfold encode
      rw [List.flatMap_cons, List.append_assoc]
    rw [hsplit, decodeLossy_char, decodeLossy_encode] at hfirst
    rw [hsplit, ← hfirst] at hall
    exact ih _ (List.append_cancel_left (hall : _ = String.utf8EncodeChar c ++ encode _))

theorem leads_le_pieces (pieces : List (List UInt8)) :
    leads pieces.flatten ≤ (pieces.flatMap decodeLossy).length := by
  induction pieces with
  | nil => exact Nat.zero_le _
  | cons piece rest ih =>
    have hpiece := leads_le_decodeAfter piece 0
    rw [List.take_zero] at hpiece
    rw [List.flatten_cons, leads_append, List.flatMap_cons, List.length_append]
    exact Nat.add_le_add hpiece ih

theorem pieces_start {pieces : List (List UInt8)}
    (h : (pieces.flatMap decodeLossy).length ≤ leads pieces.flatten) :
    ∀ piece ∈ pieces, ∀ byte more, piece = byte :: more → isContinuation byte = false := by
  induction pieces with
  | nil => exact nofun
  | cons piece rest ih =>
    have hrest := leads_le_pieces rest
    have hpiece := leads_le_decodeAfter piece 0
    rw [List.take_zero] at hpiece
    rw [List.flatten_cons, leads_append, List.flatMap_cons, List.length_append] at h
    change leads piece ≤ (decodeLossy piece).length + 0 at hpiece
    refine List.forall_mem_cons.mpr ⟨?_, ih (by omega)⟩
    rintro byte more rfl
    refine Bool.eq_false_iff.mpr fun hinside => ?_
    have hmore := leads_lt_decodeLossy hinside more
    omega

theorem pieces_whole {pieces : List (List UInt8)} (h : Whole pieces.flatten)
    (hstart : ∀ piece ∈ pieces, ∀ byte more, piece = byte :: more → isContinuation byte = false) :
    ∀ piece ∈ pieces, Whole piece := by
  induction pieces with
  | nil => exact nofun
  | cons piece rest ih =>
    obtain ⟨_, hrest⟩ := List.forall_mem_cons.mp hstart
    have hnext : ∀ byte more, rest.flatten = byte :: more → isContinuation byte = false := by
      intro byte more hbytes
      clear ih h hstart
      induction rest with
      | nil => cases hbytes
      | cons next rest ih =>
        obtain ⟨hnext, hlater⟩ := List.forall_mem_cons.mp hrest
        cases next with
        | nil => exact ih hlater hbytes
        | cons first next =>
          rw [List.flatten_cons, List.cons_append, List.cons.injEq] at hbytes
          rw [← hbytes.1]
          exact hnext first next rfl
    obtain ⟨text, htext⟩ := h
    have hpiece := whole_front htext.symm hnext
    exact List.forall_mem_cons.mpr ⟨hpiece, ih (hpiece.cancel ⟨text, htext⟩) hrest⟩

theorem pieces_exact {text : List Char} {pieces : List (List UInt8)}
    (h : pieces.flatten = encode text) :
    pieces.flatMap decodeLossy = text ↔ ∀ piece ∈ pieces, Whole piece := by
  constructor
  · intro hread
    refine pieces_whole ⟨text, h⟩ (pieces_start (Nat.le_of_eq ?_))
    rw [h, leads_encode, hread]
  · intro hwhole
    have hencoded := flatMap_decodeLossy hwhole
    rw [h] at hencoded
    have hdecoded := congrArg decodeLossy hencoded
    rwa [decodeLossy_encode, decodeLossy_encode] at hdecoded

end Pieces

end MobiusAgent.LossyUtf8
