import ElementLint.Loader.Basic
import ElementLint.Loader.Path

/-!
# Folders

A `Folder` is a tree of files as a file system keeps it, and a `Disk` a whole file system.
`FolderLoader` serves the files below a folder that is named by a path. It refuses a name that would
lead out of this folder before it looks at the file system (`FolderLoader.resolve`).

A path is walked piece by piece. An idle piece stays where the walk is, but only a folder can be
passed through, so that a path which ends with one asks for a folder.
-/

namespace ElementLint

/-- The entries of a folder, in the order of their names. -/
inductive Folder where
  | nil
  | file (name : String) (bytes : ByteArray) (rest : Folder)
  | folder (name : String) (entries rest : Folder)
  deriving Inhabited

/-- What a path leads to. -/
inductive FolderEntry where
  | file (bytes : ByteArray)
  | folder (entries : Folder)
  deriving Inhabited

namespace Folder

/-- The entry of a name. -/
def find? (wanted : String) : Folder → Option FolderEntry
  | .nil => none
  | .file name bytes rest => if name = wanted then some (.file bytes) else find? wanted rest
  | .folder name entries rest => if name = wanted then some (.folder entries) else find? wanted rest

/-- Adds an entry before the others. -/
def cons (name : String) : FolderEntry → Folder → Folder
  | .file bytes, rest => .file name bytes rest
  | .folder entries, rest => .folder name entries rest

/-- Puts an entry into its place, instead of one of the same name. -/
def insert (name : String) (entry : FolderEntry) : Folder → Folder
  | .nil => cons name entry .nil
  | .file other bytes rest =>
    if name < other then cons name entry (.file other bytes rest)
    else if name = other then cons name entry rest
    else .file other bytes (insert name entry rest)
  | .folder other entries rest =>
    if name < other then cons name entry (.folder other entries rest)
    else if name = other then cons name entry rest
    else .folder other entries (insert name entry rest)

/-- Puts an entry below a folder; folders on the way are made where they are missing. -/
def insertAt (entry : FolderEntry) : List String → Folder → Folder
  | [], here => here
  | [name], here => here.insert name entry
  | name :: path, here =>
    let inner := match here.find? name with
      | some (.folder entries) => entries
      | _ => .nil
    here.insert name (.folder (insertAt entry path inner))

/-- The greatest number of bytes of a piece of a path. -/
def pieceLimit : Nat := 255

/-- Walks a path from an entry. The list holds the folders around the entry, innermost first; the
outermost folder is around itself. -/
def walk : List Folder → FolderEntry → List String → Except FileFailure FolderEntry
  | _, entry, [] => .ok entry
  | _, .file _, _ :: _ => .error .notFolder
  | around, .folder entries, piece :: path =>
    if Path.isIdle piece then walk around (.folder entries) path
    else if piece = ".." then walk around.tail (.folder (around.headD entries)) path
    else if pieceLimit < piece.utf8ByteSize then .error .nameTooLong
    else
      match entries.find? piece with
      | none => .error .missing
      | some entry => walk (entries :: around) entry path

/-- Whether a file name has the extension of markup: after its last full stop, which is not its
first character, stands `html`. -/
def isMarkupFile (name : String) : Bool :=
  match name.toList.reverse with
  | 'l' :: 'm' :: 't' :: 'h' :: '.' :: _ :: _ => true
  | _ => false

/-- The paths of the files with markup below a folder, each with the given components in front. -/
def markupPaths (above : List String) : Folder → List (List String)
  | .nil => []
  | .file name _ rest =>
    let later := markupPaths above rest
    if isMarkupFile name then (above ++ [name]) :: later else later
  | .folder name entries rest => markupPaths (above ++ [name]) entries ++ markupPaths above rest

/-- The paths of the folders below the folder with a path, each before those below it. -/
def folderPaths (path : String) : Folder → List String
  | .nil => []
  | .file _ _ rest => folderPaths path rest
  | .folder name entries rest =>
    let inner := Path.join path name
    inner :: folderPaths inner entries ++ folderPaths path rest

end Folder

/-- The text of a file. -/
def FolderEntry.text : FolderEntry → Except FileFailure String
  | .folder _ => .error .isFolder
  | .file bytes =>
    match String.fromUTF8? bytes with
    | some text => .ok text
    | none => .error .notText

/-- A file system without links, and where in it a program works. -/
structure Disk where
  /-- The outermost folder. -/
  top : Folder
  /-- The way from the outermost folder to the one where relative paths start. -/
  working : List String

namespace Disk

/-- What a path leads to. -/
def place (disk : Disk) (path : String) : Except FileFailure FolderEntry :=
  let start := if Path.isAbsolute path then [] else disk.working
  Folder.walk [] (.folder disk.top) (start ++ Path.pieces path)

/-- The number of bytes that a path does not reach. -/
def pathLimit : Nat := 4096

/-- What a program finds under a path. -/
def find (disk : Disk) (path : String) : Except FileFailure FolderEntry :=
  if path.toList.contains '\x00' then .error .nulInName
  else if path = "" then .error .missing
  else if pathLimit ≤ path.utf8ByteSize then .error .nameTooLong
  else disk.place path

/-- The text of the file under a path. -/
def read (disk : Disk) (path : String) : Except FileFailure String :=
  (disk.find path).bind FolderEntry.text

end Disk

/-- Serves the files below a folder of a file system. -/
structure FolderLoader where
  /-- The path of the folder whose files are served. -/
  root : String

namespace FolderLoader

/-- The path of a file below the folder. -/
def resolve (loader : FolderLoader) (url : String) : Except LintError String :=
  if (Path.components url).all (·.staysInside) then .ok (Path.join loader.root url)
  else .error (.notLoaded url .outsideRoot)

/-- Loads a file below the folder. -/
def load (loader : FolderLoader) (disk : Disk) (url : String) : Except LintError String :=
  (loader.resolve url).bind fun path => (disk.read path).mapError (.notLoaded url)

/-- The paths of the files with markup below the folder, in the order of their components. If the
path of the folder names a file, its own path from there is empty. -/
def list (loader : FolderLoader) (disk : Disk) : Except LintError (List String) :=
  match disk.find loader.root with
  | .error cause => .error (.unlisted loader.root cause)
  | .ok (.folder entries) =>
    -- each folder is opened under its whole path
    match (entries.folderPaths loader.root).find? (Disk.pathLimit ≤ ·.utf8ByteSize) with
    | some path => .error (.unlisted path .nameTooLong)
    | none => .ok ((entries.markupPaths []).map "/".intercalate)
  | .ok (.file _) =>
    match (Path.pieces loader.root).getLast? with
    | some name => .ok (if Folder.isMarkupFile name then [""] else [])
    | none => .ok []

/-- The loader of the files below the folder. -/
def toLoader (loader : FolderLoader) (disk : Disk) : Loader where
  load url := .ofExcept (loader.load disk url)
  list := loader.list disk

end FolderLoader

end ElementLint
