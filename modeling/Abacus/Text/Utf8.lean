/-!
Texts as bytes. Main statement: the bytes of a text read back as that text.
-/

namespace Abacus.Text

def utf8 (text : String) : List UInt8 := text.toByteArray.data.toList

def ofUtf8? (bytes : List UInt8) : Option String := String.fromUTF8? ⟨bytes.toArray⟩

theorem ofUtf8?_utf8 (text : String) : ofUtf8? (utf8 text) = some text := by
  simp only [ofUtf8?, utf8, Array.toArray_toList, String.fromUTF8?]
  exact dif_pos text.isValidUTF8

theorem ofUtf8?_eq_some_iff {bytes : List UInt8} {text : String} :
    ofUtf8? bytes = some text ↔ bytes = utf8 text := by
  constructor
  · intro decoded
    simp only [ofUtf8?, String.fromUTF8?] at decoded
    split at decoded
    · cases decoded
      simp [utf8, String.fromUTF8]
    · cases decoded
  · rintro rfl
    exact ofUtf8?_utf8 text

theorem utf8_inj {left right : String} : utf8 left = utf8 right ↔ left = right := by
  constructor
  · intro same
    have read := ofUtf8?_utf8 left
    rw [same, ofUtf8?_utf8] at read
    exact (Option.some.inj read).symm
  · rintro rfl
    rfl

theorem utf8_append (left right : String) : utf8 (left ++ right) = utf8 left ++ utf8 right := by
  simp [utf8, String.toByteArray_append]

end Abacus.Text
