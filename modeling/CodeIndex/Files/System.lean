import CodeIndex.Files.Tree
import CodeIndex.Text.Utf8

/-!
What programs ask of files. A path may lead through links, and its canonical path leads to the same place without any. A
tree of files, which holds no links, answers for itself.
-/

namespace CodeIndex

structure FileSystem where
  /-- The names of the canonical path, or the text of an error. -/
  canonical : String → Except String (List String)
  isDir : List String → Bool
  /-- Whether names lead to anything. -/
  holds : List String → Bool
  isFile : String → Bool
  /-- What can be read at a path, if it is UTF-8. -/
  text? : String → Option String

namespace FileTree

def system (root : FileTree) : FileSystem where
  canonical path := ((root.resolve path).map (·.1)).mapError PathError.message
  isDir names := (root.get? names).any isDir
  holds names := (root.get? names).isSome
  isFile path := match root.resolve path with
    | .ok (_, file ..) => true
    | _ => false
  text? path := (root.read path).toOption.bind Text.decodeUtf8?

@[simp] theorem canonical_system (root : FileTree) (path : String) :
    root.system.canonical path = ((root.resolve path).map (·.1)).mapError PathError.message := rfl

@[simp] theorem isDir_system (root : FileTree) (names : List String) :
    root.system.isDir names = (root.get? names).any isDir := rfl

end FileTree

end CodeIndex
