import LicenseHeader.Ignore.Rule

/-!
# Rule books

All ignore files of one name in a tree, each with the directory that it is about. Of the files on
the way to an entry the nearest one that says something about the entry decides.
-/

namespace LicenseHeader.Ignore

/-- The rules of each directory that has some. -/
structure Book where
  /-- The directories with their rules. -/
  pages : List (Location × List Rule) := []

namespace Book

/-- The rules in the files of a tree that have the names `file` at the end of their location; the
rules are about the directory in front of these names. -/
def ofTree (d : Dialect) (t : FileTree) (file : Location) : Book where
  pages := t.entries.filterMap fun known =>
    if file.isSuffixOf known.1 then
      (t.read known.1.path).toOption.map fun content =>
        (known.1.take (known.1.length - file.length), Rule.ofContent d content)
    else none

/-- The book of the rules that have an effect in their file. -/
def effective (b : Book) : Book :=
  ⟨b.pages.map fun page => (page.1, Rule.effective page.2)⟩

/-- What the book says about an entry. -/
def verdict (b : Book) (l : Location) (isDirectory : Bool) : Option Bool :=
  (List.range l.length).reverse.findSome? fun n =>
    (b.pages.lookup (l.take n)).bind fun rules => Rule.verdict rules (l.drop n) isDirectory

/-- The book of the directories at and below a location. -/
def within (b : Book) (l : Location) : Book :=
  ⟨b.pages.filter fun page => l.isPrefixOf page.1⟩

end Book

/-- The name of the ignore files that every listing obeys. -/
def fileName : String := ".gitignore"

/-- The name of the ignore files that only a walk obeys; there they come first. -/
def walkFileName : String := ".ignore"

end LicenseHeader.Ignore
