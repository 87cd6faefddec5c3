import LicenseHeader.FileTree.Resolution

/-!
# Reading and writing files

Reading and writing follow links. Writing creates a file where nothing stands, in a directory that
exists and is not locked; nothing else about a tree is ever changed. A locked file can be read all
the same.
-/

namespace LicenseHeader.FileTree

/-- The content of the file that a path leads to. -/
def read (t : FileTree) (p : Path) : Except FileFault ByteArray := do
  match t.entry? (← t.resolve p) with
  | some (.file content) => return content
  | some _ => throw .isDirectory
  | none => throw .notFound

def readText (t : FileTree) (p : Path) : Except FileFault (List Char) := do
  match String.fromUTF8? (← t.read p) with
  | some text => return text.toList
  | none => throw .notText

/-- The location at which a file for a path is written, provided that it is not locked. A path with
a separator at its end names a directory, whether there is one or not. -/
def writeTarget (t : FileTree) (p : Path) : Except FileFault Location := do
  if p.isAbsolute && p.endsWithSeparator then
    match ← t.walk linkLimit [] p.components.dropLast with
    | .present l => throw (if t.isDirectory l then .isDirectory else .notDirectory)
    | .vacant _ => throw .notFound
  match ← t.place p with
  | .vacant l => if l.dropLast ∈ t.locked then throw .denied else return l
  | .present l =>
    if t.isDirectory l then throw .isDirectory
    else if l ∈ t.locked then throw .denied
    else return l

/-- The tree in which a file holds the content. -/
def write (t : FileTree) (p : Path) (content : ByteArray) : Except FileFault FileTree := do
  return t.put (← t.writeTarget p) (.file content)

def writeText (t : FileTree) (p : Path) (text : List Char) : Except FileFault FileTree :=
  t.write p (String.ofList text).toUTF8

/-- The tree in which the content is added to the end of a file. -/
def append (t : FileTree) (p : Path) (content : ByteArray) : Except FileFault FileTree := do
  let l ← t.writeTarget p
  match t.entry? l with
  | some (.file known) => return t.put l (.file (known ++ content))
  | _ => return t.put l (.file content)

end LicenseHeader.FileTree
