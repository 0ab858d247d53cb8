import Mathlib.Tactic

/-!
# Reading JSON strings

A reader for what stands between the quotes of a JSON string, on the level of
bytes.  A backslash takes the next byte with it, and the first quote that is
left ends the string.  Bytes of multi-byte characters stand for themselves.
The escape with four hexadecimal digits is not read here.
-/

namespace JsonString

/-- What a byte after a backslash stands for. -/
def unescape (b : UInt8) : Option UInt8 :=
  if b = 34 ∨ b = 92 ∨ b = 47 then some b
  else if b = 98 then some 8
  else if b = 102 then some 12
  else if b = 110 then some 10
  else if b = 114 then some 13
  else if b = 116 then some 9
  else none

/-- The string up to the closing quote, and what follows the quote. -/
def read : List UInt8 → Option (List UInt8 × List UInt8)
  | [] => none
  | [b] => if b = 34 then some ([], []) else none
  | b :: c :: rest =>
      if b = 34 then some ([], c :: rest)
      else if b = 92 then
        match unescape c with
        | none => none
        | some d => (read rest).map fun r => (d :: r.1, r.2)
      else if b < 32 then none
      else (read (c :: rest)).map fun r => (b :: r.1, r.2)

/-- Between quotes, the bytes are a string with this content. -/
def Decodes (inside content : List UInt8) : Prop :=
  ∀ rest, read (inside ++ 34 :: rest) = some (content, rest)

theorem read_quote (rest : List UInt8) : read (34 :: rest) = some ([], rest) := by
  cases rest <;> simp [read]

theorem decodes_nil : Decodes [] [] := read_quote

theorem Decodes.plain
    {inside content : List UInt8} (h : Decodes inside content) {b : UInt8}
    (hquote : b ≠ 34) (hbackslash : b ≠ 92) (hprintable : 32 ≤ b) :
    Decodes (b :: inside) (b :: content) := by
  intro rest
  have hinside := h rest
  obtain ⟨c, tail, htail⟩ : ∃ c tail, inside ++ 34 :: rest = c :: tail := by
    cases inside with
    | nil => exact ⟨34, rest, rfl⟩
    | cons c inside => exact ⟨c, inside ++ 34 :: rest, rfl⟩
  rw [htail] at hinside
  rw [List.cons_append, htail, read, if_neg hquote, if_neg hbackslash,
    if_neg (UInt8.not_lt.mpr hprintable), hinside]
  rfl

theorem Decodes.escape
    {inside content : List UInt8} (h : Decodes inside content) {c d : UInt8}
    (hunescape : unescape c = some d) :
    Decodes (92 :: c :: inside) (d :: content) := by
  intro rest
  rw [List.cons_append, List.cons_append, read, if_neg (by decide),
    if_pos rfl, hunescape]
  simp only [h rest, Option.map_some]

theorem Decodes.unique
    {inside content content' : List UInt8} (h : Decodes inside content)
    (h' : Decodes inside content') : content = content' := by
  have hsame := (h []).symm.trans (h' [])
  simpa using hsame

end JsonString
