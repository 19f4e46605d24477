/-!
# Bytes and text

Files hold bytes, and a text is written to them in UTF-8.  Reading the bytes of a text gives the
text back, and bytes that are not UTF-8 have no text.
-/

namespace AgentConsole

/-- The contents of a file. -/
abbrev Bytes := List UInt8

namespace Text

/-- The bytes of a text. -/
def encode (s : String) : Bytes :=
  s.toByteArray.data.toList

/-- The text that some bytes stand for, if they are UTF-8. -/
def decode? (bytes : Bytes) : Option String :=
  String.fromUTF8? (ByteArray.mk bytes.toArray)

@[simp] theorem toArray_encode (s : String) : ByteArray.mk (encode s).toArray = s.toByteArray := by
  simp [encode]

/-- The bytes of a text read back as that text. -/
theorem decode?_encode (s : String) : decode? (encode s) = some s := by
  rw [decode?, toArray_encode, String.fromUTF8?, dif_pos s.isValidUTF8]
  rfl

/-- Only the bytes of a text read as that text. -/
theorem eq_encode_of_decode? {bytes : Bytes} {s : String} (h : decode? bytes = some s) :
    bytes = encode s := by
  unfold decode? String.fromUTF8? at h
  split at h
  · obtain rfl := Option.some.inj h
    rfl
  · cases h

end Text

end AgentConsole
