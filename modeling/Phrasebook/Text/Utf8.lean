/-
The bytes of a text in UTF-8, and the order of texts by those bytes.
-/

namespace Phrasebook.Text

/-- The UTF-8 bytes of a text. -/
def utf8 (s : String) : List UInt8 :=
  s.toList.flatMap String.utf8EncodeChar

/-- Compares two texts byte by byte, the shorter first when one begins with the other. -/
def compareBytes (s t : String) : Ordering :=
  compare (utf8 s) (utf8 t)

end Phrasebook.Text
