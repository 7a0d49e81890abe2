/-! Text as bytes. -/
namespace TaggedJson.Text

/-- The text that bytes encode in UTF-8, if they do. -/
def ofUtf8? (bytes : List UInt8) : Option String := String.fromUTF8? ⟨bytes.toArray⟩

end TaggedJson.Text
