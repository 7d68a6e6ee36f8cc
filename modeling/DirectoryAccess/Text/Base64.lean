/-! # Base 64 — binary values in text

    The standard alphabet, with padding.  The reading is strict: whole groups of
    four, padding only where the last group needs it, and no stray bits in front
    of the padding, so that every list of bytes has exactly one spelling. -/

namespace DirectoryAccess.Text.Base64

/-- The value of a character of the alphabet. -/
def digit? (c : Char) : Option Nat :=
  let n := c.toNat
  if 0x41 ≤ n && n ≤ 0x5a then some (n - 0x41)
  else if 0x61 ≤ n && n ≤ 0x7a then some (n - 0x61 + 26)
  else if 0x30 ≤ n && n ≤ 0x39 then some (n - 0x30 + 52)
  else if c == '+' then some 62
  else if c == '/' then some 63
  else none

/-- The three bytes of a full group. -/
def group? (a b c d : Char) : Option (List UInt8) := do
  let w := (← digit? a) * 0x40000 + (← digit? b) * 0x1000 + (← digit? c) * 0x40 + (← digit? d)
  pure [UInt8.ofNat (w / 0x10000), UInt8.ofNat (w / 0x100), UInt8.ofNat w]

/-- The two bytes of a group with one padding character. -/
def pair? (a b c : Char) : Option (List UInt8) := do
  let w := (← digit? a) * 0x1000 + (← digit? b) * 0x40 + (← digit? c)
  if w % 4 == 0 then pure [UInt8.ofNat (w / 0x400), UInt8.ofNat (w / 4)] else none

/-- The one byte of a group with two padding characters. -/
def single? (a b : Char) : Option (List UInt8) := do
  let w := (← digit? a) * 0x40 + (← digit? b)
  if w % 16 == 0 then pure [UInt8.ofNat (w / 16)] else none

/-- The bytes that the characters spell, if they are a spelling. -/
def decode? : List Char → Option (List UInt8)
  | [] => some []
  | [a, b, c, d] =>
      if d == '=' then (if c == '=' then single? a b else pair? a b c)
      else group? a b c d
  | a :: b :: c :: d :: rest => do
      let front ← group? a b c d
      let back ← decode? rest
      pure (front ++ back)
  | _ => none

/-- The text whose UTF-8 bytes the characters spell. -/
def decodeText? (s : String) : Option String := do
  let bytes ← decode? s.toList
  String.fromUTF8? (ByteArray.mk bytes.toArray)

end DirectoryAccess.Text.Base64
