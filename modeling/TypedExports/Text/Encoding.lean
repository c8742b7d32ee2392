import TypedExports.Text.Basic

/-!
# Texts as bytes

Texts are stored in files and sent through pipes as UTF-8. Not every sequence of bytes is a text,
and each text has one spelling (`decode?_eq_some_iff`).
-/

namespace TypedExports

abbrev Bytes := List UInt8

namespace Text

def encode (s : Text) : ByteArray := (String.ofList s).toUTF8

/-- The text that the bytes spell, if they spell one. -/
def decode? (bytes : ByteArray) : Option Text := (String.fromUTF8? bytes).map String.toList

def byteLength (s : Text) : Nat := (encode s).size

def bytes (s : Text) : Bytes := s.flatMap String.utf8EncodeChar

theorem toByteArray_bytes (s : Text) : (bytes s).toByteArray = encode s := rfl

theorem decode?_encode (s : Text) : decode? (encode s) = some s := by
  have valid : (encode s).IsValidUTF8 := (String.ofList s).isValidUTF8
  unfold decode? String.fromUTF8?
  rw [dif_pos valid]
  exact congrArg some String.toList_ofList

/-- The bytes that spell a text are those it is stored as. -/
theorem decode?_eq_some_iff {bytes : ByteArray} {s : Text} :
    decode? bytes = some s ↔ bytes = encode s := by
  refine ⟨fun h => ?_, fun h => h ▸ decode?_encode s⟩
  unfold decode? String.fromUTF8? at h
  split at h
  · cases h
    rw [encode, String.ofList_toList]
    rfl
  · cases h

end Text

end TypedExports
