/-!
# Bytes of a text

Texts travel as UTF-8.  Every text has bytes, but not every sequence of bytes
has a text.
-/

namespace LineScript.Text

/-- The bytes of a text. -/
def encode (text : String) : List UInt8 := text.toByteArray.data.toList

/-- The text of some bytes. -/
def decode? (bytes : List UInt8) : Option String := String.fromUTF8? ⟨bytes.toArray⟩

@[simp] theorem encode_append (left right : String) :
    encode (left ++ right) = encode left ++ encode right := by
  simp [encode]

@[simp] theorem decode?_encode (text : String) : decode? (encode text) = some text := by
  have bytes : (⟨(encode text).toArray⟩ : ByteArray) = text.toByteArray := by
    simp [encode]
  have valid : (⟨(encode text).toArray⟩ : ByteArray).IsValidUTF8 := by
    rw [bytes]
    exact text.isValidUTF8
  have read : decode? (encode text) = some (String.fromUTF8 ⟨(encode text).toArray⟩ valid) :=
    dif_pos valid
  rw [read]
  exact congrArg some (String.toByteArray_inj.mp bytes)

end LineScript.Text
