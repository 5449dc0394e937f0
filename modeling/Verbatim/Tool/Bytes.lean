import Verbatim.Error

/-!
Bytes as programs exchange them. They need not be text, but most of them are, so they are held in the form
of characters.
-/

namespace Verbatim.Tool

/-- Bytes, each held as the character with its number, so that they can be written and compared as text. -/
abbrev Bytes := List Char

def bytesOf (text : String) : Bytes := text.toUTF8.toList.map fun byte => Char.ofNat byte.toNat

def bufferOf (bytes : Bytes) : ByteArray := ⟨(bytes.map fun c => UInt8.ofNat c.toNat).toArray⟩

end Verbatim.Tool
