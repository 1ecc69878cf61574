/-!
# Reading damaged UTF-8

Bytes are read as characters one after the other. Where no character can be read, the replacement
character stands for the bytes that could have been the start of one, or else for a single byte.
Main statement: ASCII bytes are read as the characters of these numbers.
-/
namespace PubspecTidy.Text

/-- The character that stands for bytes which are none. -/
def replacement : Char := '\uFFFD'

/-- What the first byte of a character of several bytes tells: its own part of the code point, how
many bytes follow, and the bounds of the next one. -/
def leading? (byte : Nat) : Option (Nat × Nat × Nat × Nat) :=
  if 0xC2 ≤ byte ∧ byte ≤ 0xDF then some (byte - 0xC0, 1, 0x80, 0xBF)
  else if byte = 0xE0 then some (0, 2, 0xA0, 0xBF)
  else if byte = 0xED then some (0xD, 2, 0x80, 0x9F)
  else if 0xE1 ≤ byte ∧ byte ≤ 0xEF then some (byte - 0xE0, 2, 0x80, 0xBF)
  else if byte = 0xF0 then some (0, 3, 0x90, 0xBF)
  else if 0xF1 ≤ byte ∧ byte ≤ 0xF3 then some (byte - 0xF0, 3, 0x80, 0xBF)
  else if byte = 0xF4 then some (4, 3, 0x80, 0x8F)
  else none

/-- Goes on with a character of which `left` bytes are to follow, the next one within bounds; gives
the character and how many bytes belong to it. -/
def readFollowing (code left low high : Nat) : List UInt8 → Char × Nat
  | [] => (if left = 0 then Char.ofNat code else replacement, 0)
  | byte :: bytes =>
    if left = 0 then (Char.ofNat code, 0)
    else if low ≤ byte.toNat ∧ byte.toNat ≤ high then
      let (c, used) := readFollowing (code * 0x40 + byte.toNat % 0x40) (left - 1) 0x80 0xBF bytes
      (c, used + 1)
    else (replacement, 0)

/-- The character that starts with a byte, and how many of the bytes after it belong to it. -/
def readChar (byte : UInt8) (bytes : List UInt8) : Char × Nat :=
  if byte.toNat < 0x80 then (Char.ofNat byte.toNat, 0)
  else
    match leading? byte.toNat with
    | some (code, left, low, high) => readFollowing code left low high bytes
    | none => (replacement, 0)

/-- Skips some bytes and reads the others. -/
def readUtf8 : Nat → List UInt8 → List Char
  | _, [] => []
  | skipped + 1, _ :: bytes => readUtf8 skipped bytes
  | 0, byte :: bytes =>
    let (c, used) := readChar byte bytes
    c :: readUtf8 used bytes

theorem readUtf8_of_ascii {bytes : List UInt8} (h : ∀ b ∈ bytes, b.toNat < 0x80) :
    readUtf8 0 bytes = bytes.map fun b => Char.ofNat b.toNat := by
  induction bytes with
  | nil => rfl
  | cons b bs ih =>
    simp [readUtf8, readChar, h b List.mem_cons_self, ih fun c m => h c (List.mem_cons_of_mem b m)]

end PubspecTidy.Text
