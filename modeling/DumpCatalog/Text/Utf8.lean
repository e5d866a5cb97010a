import DumpCatalog.Bytes

/-! # Text as bytes

The UTF-8 form of a text. A byte string is read as text only when all of it is well-formed; the main
statements say that reading and writing are inverse to each other. -/

namespace DumpCatalog.Text

/-- The UTF-8 form of a text. -/
def toBytes (text : String) : Bytes := text.toByteArray.data.toList

/-- The text that these bytes write in UTF-8, when all of them are well-formed. -/
def ofBytes? (bytes : Bytes) : Option String := String.fromUTF8? ⟨bytes.toArray⟩

@[simp] theorem toBytes_empty : toBytes "" = [] := rfl

@[simp] theorem ofBytes?_toBytes (text : String) : ofBytes? (toBytes text) = some text := by
  have whole : (⟨text.toByteArray.data.toList.toArray⟩ : ByteArray) = text.toByteArray := by
    cases text.toByteArray; simp
  simp only [ofBytes?, toBytes, whole, String.fromUTF8?, text.isValidUTF8, dite_true]
  rfl

theorem toBytes_of_ofBytes? {bytes : Bytes} {text : String} (h : ofBytes? bytes = some text) :
    toBytes text = bytes := by
  simp only [ofBytes?, String.fromUTF8?] at h
  split at h
  · cases h; rfl
  · cases h

theorem toBytes_inj {a b : String} (h : toBytes a = toBytes b) : a = b :=
  Option.some.inj (by rw [← ofBytes?_toBytes a, ← ofBytes?_toBytes b, h])

end DumpCatalog.Text
