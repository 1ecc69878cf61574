import PubspecTidy.FileTree
import PubspecTidy.Text.Encoding

/-!
# The bytes of ASCII text

Main statements: the UTF-8 of an ASCII text is the list of its code points, a text is read from its
own UTF-8, and so is a document of ASCII characters.
-/
namespace PubspecTidy.Text

variable {cs : List Char}

/-- The code points of ASCII characters. -/
def asciiBytes (cs : List Char) : List UInt8 := cs.map fun c => UInt8.ofNat c.toNat

theorem asciiBytes_append (cs cs' : List Char) :
    asciiBytes (cs ++ cs') = asciiBytes cs ++ asciiBytes cs' := List.map_append

theorem toNat_asciiByte {c : Char} (h : c.toNat < 128) : (UInt8.ofNat c.toNat).toNat = c.toNat := by
  rw [UInt8.toNat_ofNat']
  exact Nat.mod_eq_of_lt (by omega)

/-! ## Byte arrays as lists -/

theorem toList_loop (bytes : ByteArray) (i : Nat) (read : List UInt8) :
    ByteArray.toList.loop bytes i read = read.reverse ++ bytes.data.toList.drop i := by
  fun_induction ByteArray.toList.loop bytes i read with
  | case1 i read hlt ih =>
    have hlength : i < bytes.data.toList.length := hlt
    have hget : bytes.get! i = bytes.data.toList[i] := by
      obtain ⟨data⟩ := bytes
      exact getElem!_pos data i hlt
    rw [ih, List.reverse_cons, List.append_assoc, List.drop_eq_getElem_cons hlength, hget]
    rfl
  | case2 i read hge =>
    have hlength : bytes.data.toList.length ≤ i := Nat.not_lt.mp hge
    rw [List.drop_eq_nil_of_le hlength, List.append_nil]

theorem toList_eq_data (bytes : ByteArray) : bytes.toList = bytes.data.toList := by
  unfold ByteArray.toList
  rw [toList_loop, List.drop_zero]
  rfl

/-! ## UTF-8 -/

theorem utf8EncodeChar_of_ascii {c : Char} (h : c.toNat < 128) :
    String.utf8EncodeChar c = [UInt8.ofNat c.toNat] := by
  unfold String.utf8EncodeChar
  exact if_pos (by change c.toNat ≤ 127; omega)

theorem toUTF8_of_ascii (h : ∀ c ∈ cs, c.toNat < 128) :
    (String.ofList cs).toUTF8.toList = asciiBytes cs := by
  rw [String.toUTF8_eq_toByteArray, String.toByteArray_ofList, toList_eq_data, List.utf8Encode,
    List.toList_data_toByteArray]
  induction cs with
  | nil => rfl
  | cons c cs ih =>
    rw [List.flatMap_cons, utf8EncodeChar_of_ascii (h c List.mem_cons_self),
      ih fun c' hc' => h c' (List.mem_cons_of_mem c hc')]
    rfl

end PubspecTidy.Text

namespace PubspecTidy

/-- A text is read from its own UTF-8. -/
theorem decodeText?_encodeText (text : String) : decodeText? (encodeText text) = some text := by
  unfold decodeText? encodeText String.fromUTF8?
  rw [String.toUTF8_eq_toByteArray, dif_pos text.isValidUTF8]
  rfl

end PubspecTidy

/-! ## Documents -/

namespace PubspecTidy.Text.Encoding

variable {cs : List Char}

/-- Whether all characters are ASCII characters other than zero. -/
def isNonzeroAscii (cs : List Char) : Bool := cs.all fun c => decide (0 < c.toNat ∧ c.toNat < 128)

theorem zero_not_mem_asciiBytes (h : ∀ c ∈ cs, 0 < c.toNat ∧ c.toNat < 128) :
    0 ∉ asciiBytes cs := by
  intro hmem
  obtain ⟨c, hc, hbyte⟩ := List.mem_map.mp hmem
  have hcode := toNat_asciiByte (h c hc).2
  rw [hbyte] at hcode
  exact Nat.ne_of_lt (h c hc).1 hcode

/-- A document of ASCII characters is read from its own UTF-8. None of its bytes is zero, and no byte
order mark stands in front. -/
theorem decode?_of_isNonzeroAscii (hascii : isNonzeroAscii cs = true) :
    decode? (encodeText (String.ofList cs)).toList = some cs := by
  have h : ∀ c ∈ cs, 0 < c.toNat ∧ c.toNat < 128 := by simpa [isNonzeroAscii] using hascii
  have hbytes : (encodeText (String.ofList cs)).toList = asciiBytes cs :=
    toUTF8_of_ascii fun c hc => (h c hc).2
  have harray : (⟨(encodeText (String.ofList cs)).toList.toArray⟩ : ByteArray) =
      encodeText (String.ofList cs) := by
    rw [toList_eq_data]
  have htext : String.fromUTF8? (encodeText (String.ofList cs)) = some (String.ofList cs) :=
    decodeText?_encodeText (String.ofList cs)
  unfold decode?
  rw [hbytes, ofBytes_eq_utf8 (zero_not_mem_asciiBytes h), ← hbytes]
  dsimp only
  rw [ofUtf8?, harray, htext, Option.map_some, String.toList_ofList]
  split
  · exact absurd (h _ List.mem_cons_self).2 (by decide)
  · rfl

end PubspecTidy.Text.Encoding
