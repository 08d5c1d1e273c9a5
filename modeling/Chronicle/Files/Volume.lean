import Chronicle.Text.Bytes

/-!
# Volumes

What the commands ask of the files around them: what a path holds, to make the folders on a path,
and to write a text to a file. The commands are written for any volume.
-/

namespace Chronicle
namespace Files

/-- What a path holds. -/
inductive Contents
  | absent
  | folder
  | bytes (b : ByteArray)

namespace Contents

/-- The path holds a file. -/
def isFile : Contents → Bool
  | .bytes _ => true
  | _ => false

/-- The path holds a folder. -/
def isFolder : Contents → Bool
  | .folder => true
  | _ => false

/-- The path holds something. -/
def isPresent : Contents → Bool
  | .absent => false
  | _ => true

/-- The text of a file, if its bytes are one. -/
def text? : Contents → Option String
  | .bytes b => String.fromUTF8? b
  | _ => none

/-- The text of a file, with bytes that are no part of a character spelled out. -/
def document? : Contents → Option String
  | .bytes b => some (Text.ofBytes b)
  | _ => none

end Contents

/-- Access to files. Making folders and writing tell whether they succeeded. -/
class Volume (m : Type → Type) where
  contents : (path : String) → m Contents
  makeFolders : (path : String) → m Bool
  write : (path : String) → (text : String) → m Bool

end Files
end Chronicle
