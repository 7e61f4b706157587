import TwigComponent.Files.Disk
import TwigComponent.Ordered

/-!
# File trees

A file system in memory: directories and files by their components.
-/
namespace TwigComponent

inductive FileTree.Entry where
  | directory
  | file (content : ByteArray)

instance : DecidableEq FileTree.Entry
  | .directory, .directory => .isTrue rfl
  | .directory, .file _ => .isFalse nofun
  | .file _, .directory => .isFalse nofun
  | .file a, .file b =>
    match ByteArray.instDecidableEq a b with
    | .isTrue same => .isTrue (congrArg _ same)
    | .isFalse different => .isFalse fun same => different (FileTree.Entry.file.inj same)

structure FileTree where
  entries : List (List String × FileTree.Entry) := []

namespace FileTree

def get? (tree : FileTree) (place : List String) : Option Entry :=
  if place.isEmpty then some .directory else Ordered.get? place tree.entries

def insert (tree : FileTree) (place : List String) (entry : Entry) : FileTree :=
  ⟨Ordered.insert place entry tree.entries⟩

/-- Goes one component further from a directory. -/
def enter (tree : FileTree) (place : List String) (component : String) :
    Except ReadFailure (List String) :=
  match tree.get? place with
  | some .directory => .ok (if component = ".." then place.dropLast else place ++ [component])
  | some (.file _) => .error .unreadable
  | none => .error .missing

/-- The place of a path, whether or not there is an entry. -/
def locate (tree : FileTree) (path : String) : Except ReadFailure (List String) :=
  (Path.components path).foldlM tree.enter []

def isDirectory (tree : FileTree) (path : String) : Bool :=
  match tree.locate path with
  | .ok place => tree.get? place == some .directory
  | .error _ => false

def filesBelow (tree : FileTree) (path : String) : List (List String) :=
  match tree.locate path with
  | .ok place =>
    tree.entries.filterMap fun (key, entry) =>
      match entry with
      | .file _ => if place.isPrefixOf key then some (key.drop place.length) else none
      | .directory => none
  | .error _ => []

def read (tree : FileTree) (path : String) : Except ReadFailure String := do
  let place ← tree.locate path
  match tree.get? place with
  | some (.file content) =>
    match String.fromUTF8? content with
    | some text => .ok text
    | none => .error .unreadable
  | some .directory => .error .unreadable
  | none => .error .missing

/-- Makes the directories of a path from the root on, up to the first that cannot be made. -/
def makeFrom (tree : FileTree) (place : List String) : List String → FileTree × Bool
  | [] => (tree, true)
  | component :: rest =>
    let next := if component = ".." then place.dropLast else place ++ [component]
    match tree.get? next with
    | some .directory => makeFrom tree next rest
    | some (.file _) => (tree, false)
    | none => makeFrom (tree.insert next .directory) next rest

def makeDirectory (tree : FileTree) (path : String) : FileTree × Bool :=
  tree.makeFrom [] (Path.components path)

def write (tree : FileTree) (path text : String) : FileTree × Bool :=
  match tree.locate path with
  | .ok place =>
    match place.dropLast, tree.get? place with
    | _, some .directory => (tree, false)
    | parent, _ =>
      if tree.get? parent == some .directory then (tree.insert place (.file text.toUTF8), true)
      else (tree, false)
  | .error _ => (tree, false)

/-- The operations on a tree as a state. -/
def disk : Disk (StateM FileTree) where
  isDirectory path := return (← get).isDirectory path
  filesBelow path := return (← get).filesBelow path
  read path := return (← get).read path
  makeDirectory path := modifyGet fun tree => let (after, made) := tree.makeDirectory path; (made, after)
  write path text := modifyGet fun tree => let (after, written) := tree.write path text; (written, after)

/-- Adds an entry with the directories above it. -/
def add (tree : FileTree) (place : List String) (entry : Entry) : FileTree :=
  let above := (List.range place.length).map place.take
  let tree := above.foldl (fun tree folder =>
    if (tree.get? folder).isSome then tree else tree.insert folder .directory) tree
  tree.insert place entry

/-- The entries of a later tree that are new or different. -/
def changes (before after : FileTree) : List (List String × Entry) :=
  after.entries.filter fun (place, entry) => before.get? place != some entry

end FileTree

end TwigComponent
