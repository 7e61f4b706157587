import TwigComponent.Files.Path

/-!
# Access to files

A run sees files only through the operations below. They may be those of the
file system or of a file tree in memory, and any of them may fail.
-/
namespace TwigComponent

/-- Why a file was not read. -/
inductive ReadFailure where
  | missing
  /-- There is something, but not a text. -/
  | unreadable
deriving DecidableEq, Repr

structure Disk (m : Type → Type) where
  isDirectory : String → m Bool
  /-- The files at any depth below a directory, each by its components from there. -/
  filesBelow : String → m (List (List String))
  read : String → m (Except ReadFailure String)
  /-- Makes a directory and those above it, and says whether it is there. -/
  makeDirectory : String → m Bool
  /-- Writes a file, and says whether it worked. -/
  write : String → String → m Bool

end TwigComponent
