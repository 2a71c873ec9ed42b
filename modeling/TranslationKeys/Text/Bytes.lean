import TranslationKeys.Text.Basic

/-!
# Bytes

Files and streams hold bytes, and a text is read from them as UTF-8.
-/

namespace TranslationKeys.Text

/-- The text that some bytes hold, if they are UTF-8. -/
def ofBytes? (bytes : ByteArray) : Option Text :=
  (String.fromUTF8? bytes).map String.toList

def toBytes (text : Text) : ByteArray :=
  (String.ofList text).toUTF8

@[simp]
theorem ofBytes?_toBytes (text : Text) : ofBytes? (toBytes text) = some text := by
  have h : String.fromUTF8? (String.ofList text).toUTF8 = some (String.ofList text) := by
    unfold String.fromUTF8?
    split
    · rfl
    · rename_i hinvalid
      exact absurd (String.ofList text).isValidUTF8 hinvalid
  simp only [ofBytes?, toBytes, h, Option.map_some, String.toList_ofList]

end TranslationKeys.Text
