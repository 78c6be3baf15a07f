import DecisionDiagram.Fault
/-!
Folders of files. A path names a file by its folders and its own name, separated by slashes; empty
names and single dots stay in place, and two dots go up, in the end out of the folder.
-/
namespace DecisionDiagram

structure Folder where
  files : List (List Text × Text.Bytes)
deriving DecidableEq, Repr

namespace Folder

def steps (path : Text) : List Text :=
  (path.splitOnP (· == '/')).filter fun name => name ≠ [] && name ≠ ['.']

def ofList (files : List (String × Text.Bytes)) : Folder :=
  ⟨files.map fun (name, bytes) => (steps name.toList, bytes)⟩

def nameLimit : Nat := 255

def pathLimit : Nat := 4095

def byteLength (t : Text) : Nat := t.foldl (fun n c => n + c.utf8Size) 0

def isFolder (folder : Folder) (names : List Text) : Bool :=
  folder.files.any fun (file, _) => names.length < file.length && file.take names.length == names

def file? (folder : Folder) (names : List Text) : Option Text.Bytes := folder.files.lookup names

inductive Place
  | inside (way : List Text)
  | outside
deriving DecidableEq, Repr

def Place.up : Place → Place
  | inside [] => outside
  | inside way => inside way.dropLast
  | outside => outside

/-- What lies at a place: a file, or a folder as all places outside are. -/
def content? (folder : Folder) : Place → Option Text.Bytes
  | .inside way => folder.file? way
  | .outside => none

def enter? (folder : Folder) (name : Text) : Place → Option Place
  | .inside way =>
    let there := way ++ [name]
    if (folder.file? there).isSome || folder.isFolder there then some (.inside there) else none
  | .outside => none

def descend (folder : Folder) (path : String) (isOpen : Bool) (place : Place) :
    List Text → Except Fault Text.Bytes
  | [] =>
    match folder.content? place with
    | some bytes => if isOpen then .error (.unreadable .underFile path) else .ok bytes
    | none => .error (.unreadable .directory path)
  | name :: rest =>
    if (folder.content? place).isSome then .error (.unreadable .underFile path)
    else if nameLimit < byteLength name then .error (.unreadable .nameTooLong path)
    else if name = ['.', '.'] then folder.descend path isOpen place.up rest
    else
      match folder.enter? name place with
      | some place => folder.descend path isOpen place rest
      | none => .error (.unreadable .missing path)

/-- Opens the file that a path names. A path that starts with a slash starts outside, and one that
ends in a slash or a dot asks for a folder. -/
def read (folder : Folder) (path : String) : Except Fault Text.Bytes :=
  let t := path.toList
  let last := (t.splitOnP (· == '/')).getLast?.getD []
  if t.contains '\x00' then .error .nullInPath
  else if t.isEmpty then .error (.unreadable .missing path)
  else if pathLimit < byteLength t then .error (.unreadable .nameTooLong path)
  else
    let start := if t.head? = some '/' then .outside else .inside []
    folder.descend path (last.isEmpty || last == ['.']) start (steps t)

end Folder

end DecisionDiagram
