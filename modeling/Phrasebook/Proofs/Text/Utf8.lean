/-
UTF-8 is self-delimiting: the bytes of a character tell where they end, and no character begins with a
byte that UTF-8 does not use as a first byte. A text followed by such a byte is therefore read back
whatever comes after it.
-/
import Phrasebook.Proofs.Text.SelfDelimiting
import Phrasebook.Text.Utf8

namespace Phrasebook.Text

theorem selfDelimiting_utf8EncodeChar : SelfDelimiting String.utf8EncodeChar := by
  refine ⟨fun {c d x y} h => ?_⟩
  have hc := ByteArray.utf8DecodeChar?_utf8EncodeChar_append (b := x.toByteArray) (c := c)
  have hd := ByteArray.utf8DecodeChar?_utf8EncodeChar_append (b := y.toByteArray) (c := d)
  rw [← List.toByteArray_append, h, List.toByteArray_append, hd] at hc
  cases hc
  exact ⟨rfl, List.append_cancel_left h⟩

theorem utf8EncodeChar_append_ne {stop : UInt8} (hs : ¬ stop.IsUTF8FirstByte) (c : Char)
    (x y : List UInt8) : String.utf8EncodeChar c ++ x ≠ stop :: y := by
  intro h
  rcases he : String.utf8EncodeChar c with _ | ⟨b, bs⟩
  · exact absurd he String.utf8EncodeChar_ne_nil
  · have hb := UInt8.isUTF8FirstByte_getElem_zero_utf8EncodeChar (c := c)
    simp only [he, List.getElem_cons_zero] at hb
    rw [he] at h
    obtain ⟨rfl, -⟩ := List.cons.inj h
    exact hs hb

/-- The bytes of a text, closed by a byte that begins no character, are read back whatever follows. -/
theorem utf8_append_inj {stop : UInt8} (hs : ¬ stop.IsUTF8FirstByte) {s t : String}
    {x y : List UInt8} (h : utf8 s ++ stop :: x = utf8 t ++ stop :: y) : s = t ∧ x = y := by
  have hclosed := selfDelimiting_utf8EncodeChar.closed (utf8EncodeChar_append_ne hs)
  rw [List.append_cons, List.append_cons (utf8 t)] at h
  obtain ⟨hst, hxy⟩ := hclosed.read h
  exact ⟨String.toList_inj.1 hst, hxy⟩

end Phrasebook.Text
