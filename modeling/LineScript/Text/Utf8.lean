/-!
# UTF-8

The bytes of a text are those of its characters, one after the other.
-/

namespace LineScript.Text

def utf8 (text : String) : List UInt8 :=
  text.toList.flatMap String.utf8EncodeChar

/-- The text that bytes encode, without its last character if that is cut short. -/
def ofUtf8 (bytes : List UInt8) : String :=
  let text? := (List.range 4).findSome? fun cut =>
    String.fromUTF8? (bytes.take (bytes.length - cut)).toByteArray
  text?.getD ""

end LineScript.Text
