import Mathlib.Data.List.Basic
import Mathlib.Tactic.IntervalCases

/-!
# Strings in JSON text

A JSON string is written in quotes, with escapes for quotes, backslashes and
control characters. No escape is the start of another, so that a quoted string
can be read back whatever follows it.
-/

namespace MobiusAgent.JsonStrings

/-- A hexadecimal digit, in lower case. -/
def hexDigit (n : Nat) : Char := if n < 10 then .ofNat (48 + n) else .ofNat (87 + n)

/-- The text of one character inside a JSON string. -/
def escape (c : Char) : List Char :=
  if c = '"' then ['\\', '"']
  else if c = '\\' then ['\\', '\\']
  else if c.toNat = 8 then ['\\', 'b']
  else if c.toNat = 9 then ['\\', 't']
  else if c.toNat = 10 then ['\\', 'n']
  else if c.toNat = 12 then ['\\', 'f']
  else if c.toNat = 13 then ['\\', 'r']
  else if c.toNat < 32 then
    ['\\', 'u', '0', '0', hexDigit (c.toNat / 16), hexDigit (c.toNat % 16)]
  else [c]

def quote (text : String) : String :=
  String.ofList ('"' :: (text.toList.flatMap escape ++ ['"']))

/-- The value of a hexadecimal digit. -/
def hexValue (c : Char) : Nat := if c.toNat < 58 then c.toNat - 48 else c.toNat - 87

/-- The character that an escape stands for, after its backslash. -/
def unescapeCode : List Char → Option (Char × List Char)
  | 'u' :: '0' :: '0' :: high :: low :: rest =>
    some (.ofNat (16 * hexValue high + hexValue low), rest)
  | 'b' :: rest => some (.ofNat 8, rest)
  | 't' :: rest => some (.ofNat 9, rest)
  | 'n' :: rest => some (.ofNat 10, rest)
  | 'f' :: rest => some (.ofNat 12, rest)
  | 'r' :: rest => some (.ofNat 13, rest)
  | c :: rest => some (c, rest)
  | [] => none

/-- The first character inside a JSON string, with what follows it. -/
def unescape : List Char → Option (Char × List Char)
  | [] => none
  | c :: rest => if c = '"' then none else if c = '\\' then unescapeCode rest else some (c, rest)

theorem unescape_escape (c : Char) (rest : List Char) :
    unescape (escape c ++ rest) = some (c, rest) := by
  by_cases hcontrol : c.toNat < 32
  · have hofNat : c = Char.ofNat c.toNat := (Char.ofNat_toNat c).symm
    generalize c.toNat = n at hofNat hcontrol
    rw [hofNat]
    interval_cases n
    all_goals rfl
  · by_cases hquote : c = '"'
    · rw [hquote]
      rfl
    · by_cases hbackslash : c = '\\'
      · rw [hbackslash]
        rfl
      · have hlarge : ∀ n, n < 32 → c.toNat ≠ n := fun n hn heq => hcontrol (heq ▸ hn)
        have hplain : escape c = [c] := by
          rw [escape, if_neg hquote, if_neg hbackslash, if_neg (hlarge 8 (by decide)),
            if_neg (hlarge 9 (by decide)), if_neg (hlarge 10 (by decide)),
            if_neg (hlarge 12 (by decide)), if_neg (hlarge 13 (by decide)), if_neg hcontrol]
        rw [hplain, List.singleton_append, unescape, if_neg hquote, if_neg hbackslash]

theorem escape_append_inj {first second left right : List Char}
    (h : first.flatMap escape ++ '"' :: left = second.flatMap escape ++ '"' :: right) :
    first = second ∧ left = right := by
  have hend : ∀ rest : List Char, unescape ('"' :: rest) = none := fun _ => rfl
  induction first generalizing second with
  | nil =>
    cases second with
    | nil => exact ⟨rfl, (List.cons.inj h).2⟩
    | cons c rest =>
      have hread := congrArg unescape h
      rw [List.flatMap_cons, List.append_assoc, unescape_escape] at hread
      exact absurd ((hend left).symm.trans hread) (fun heq => nomatch heq)
  | cons c rest ih =>
    have hread := congrArg unescape h
    rw [List.flatMap_cons, List.append_assoc, unescape_escape] at hread
    cases second with
    | nil => exact absurd (hread.trans (hend right)) (fun heq => nomatch heq)
    | cons d more =>
      rw [List.flatMap_cons, List.append_assoc, unescape_escape] at hread
      obtain ⟨hhead, htail⟩ := Prod.mk.inj (Option.some.inj hread)
      obtain ⟨hrest, hafter⟩ := ih htail
      exact ⟨by rw [hhead, hrest], hafter⟩

theorem quote_append_inj {first second : String} {left right : List Char}
    (h : (quote first).toList ++ left = (quote second).toList ++ right) :
    first = second ∧ left = right := by
  unfold quote at h
  rw [String.toList_ofList, String.toList_ofList, List.cons_append, List.cons_append,
    List.append_assoc, List.append_assoc] at h
  obtain ⟨hchars, hafter⟩ := escape_append_inj (List.cons.inj h).2
  exact ⟨String.toList_inj.mp hchars, hafter⟩

end MobiusAgent.JsonStrings
