import ServiceSchema.FileTree.Path

/-! # File trees
Files and directories by their place. A place is the names from the innermost outwards, so the root is the
empty list; the root is always there. Paths are walked step by step: every step but the last must end in a
directory. -/
namespace ServiceSchema

abbrev Place := List String

inductive FileItem where
  | file (content : List UInt8)
  | directory
deriving DecidableEq

structure FileTree where
  items : List (Place × FileItem)
  workingDirectory : Place
deriving DecidableEq

namespace FileTree

def find? (t : FileTree) : Place → Option FileItem
  | [] => some .directory
  | place => t.items.lookup place

/-- Puts an item at a place, instead of what is there. -/
def put (t : FileTree) (place : Place) (item : FileItem) : FileTree :=
  { t with items := (place, item) :: t.items.filter (·.1 ≠ place) }

theorem find?_put_self (t : FileTree) {place : Place} (h : place ≠ []) (item : FileItem) :
    (t.put place item).find? place = some item := by
  cases place with
  | nil => exact absurd rfl h
  | cons s p => simp [find?, put]

theorem lookup_filter_ne {place q : Place} (h : q ≠ place) (items : List (Place × FileItem)) :
    (items.filter (·.1 ≠ place)).lookup q = items.lookup q := by
  induction items with
  | nil => rfl
  | cons i items ih =>
    obtain ⟨p, item⟩ := i
    simp only [List.filter_cons, List.lookup_cons]
    by_cases hp : p = place
    · subst hp
      have hq : (q == p) = false := by simpa using h
      simpa [hq] using ih
    · simp only [hp, ne_eq, not_false_eq_true, decide_true, if_true, List.lookup_cons]
      rw [← ih]

theorem find?_put_of_ne (t : FileTree) {place q : Place} (h : q ≠ place) (item : FileItem) :
    (t.put place item).find? q = t.find? q := by
  cases q with
  | nil => rfl
  | cons s p =>
    have h1 : (s :: p == place) = false := by simpa using h
    have h2 := lookup_filter_ne h t.items
    simp only [find?, put, List.lookup_cons, h1]
    exact h2

/-! ## Walking paths -/

def start (t : FileTree) (p : Path) : Place := if p.isAbsolute then [] else t.workingDirectory

/-- What a directory has under a name. -/
def lookup (t : FileTree) (place : Place) (name : String) : Except FileFault (Option FileItem) :=
  if Path.nameByteLimit < name.utf8ByteSize then .error .nameTooLong else .ok (t.find? (name :: place))

/-- From a directory to another one. -/
def enter (t : FileTree) (place : Place) : PathStep → Except FileFault Place
  | .here => .ok place
  | .up => .ok place.tail
  | .name s =>
    match t.lookup place s with
    | .error fault => .error fault
    | .ok (some .directory) => .ok (s :: place)
    | .ok (some (.file _)) => .error .notDirectory
    | .ok none => .error .notFound

def walk (t : FileTree) : Place → List PathStep → Except FileFault Place
  | place, [] => .ok place
  | place, s :: rest =>
    match t.enter place s with
    | .ok next => t.walk next rest
    | .error fault => .error fault

/-- What a path leads to: a directory by a step that is no name, or a name in a directory. -/
inductive Target where
  | directory (place : Place)
  | entry (place : Place) (name : String)
deriving DecidableEq

def locate (t : FileTree) (p : Path) : Except FileFault Target :=
  match p.steps.getLast? with
  | none => .ok (.directory (t.start p))
  | some last =>
    match t.walk (t.start p) p.steps.dropLast with
    | .error fault => .error fault
    | .ok place =>
      match last with
      | .here => .ok (.directory place)
      | .up => .ok (.directory place.tail)
      | .name s => .ok (.entry place s)

/-! ## Operations -/

def isDirectory (t : FileTree) (p : Path) : Bool :=
  match t.locate p with
  | .ok (.directory _) => true
  | .ok (.entry place name) =>
    match t.lookup place name with
    | .ok (some .directory) => true
    | _ => false
  | .error _ => false

def readAt (t : FileTree) (p : Path) : Except FileFault (List UInt8) :=
  match t.locate p with
  | .error fault => .error fault
  | .ok (.directory _) => .error .isDirectory
  | .ok (.entry place name) =>
    match t.lookup place name with
    | .error fault => .error fault
    | .ok none => .error .notFound
    | .ok (some .directory) => .error .isDirectory
    | .ok (some (.file content)) => if p.endsWithSlash then .error .notDirectory else .ok content

/-- A path that asks for a directory is refused before its last name is looked up. -/
def writeAt (t : FileTree) (p : Path) (content : List UInt8) : Except FileFault FileTree :=
  match t.locate p with
  | .error fault => .error fault
  | .ok (.directory _) => .error .isDirectory
  | .ok (.entry place name) =>
    if p.endsWithSlash then .error .isDirectory
    else
      match t.lookup place name with
      | .error fault => .error fault
      | .ok (some .directory) => .error .isDirectory
      | .ok _ => .ok (t.put (name :: place) (.file content))

def makeDirectory (t : FileTree) (p : Path) : Except FileFault FileTree :=
  match t.locate p with
  | .error fault => .error fault
  | .ok (.directory _) => .error .exists
  | .ok (.entry place name) =>
    match t.lookup place name with
    | .error fault => .error fault
    | .ok (some _) => .error .exists
    | .ok none => .ok (t.put (name :: place) .directory)

/-- Makes a directory; `parents` makes the directories before it, in case they are missing. -/
def makeAfter (t : FileTree) (p : Path) (parents : FileTree → FileTree × Option FileFault) :
    FileTree × Option FileFault :=
  match t.makeDirectory p with
  | .ok t => (t, none)
  | .error .notFound =>
    match parents t with
    | (t, some fault) => (t, some fault)
    | (t, none) =>
      match t.makeDirectory p with
      | .ok t => (t, none)
      | .error fault => (t, if t.isDirectory p then none else some fault)
  | .error fault => (t, if t.isDirectory p then none else some fault)

/-- Makes the directories along the moves of a path, the last move first in the list. -/
def makeAlong (isAbsolute : Bool) : List PathStep → FileTree → FileTree × Option FileFault
  | [], t => (t, none)
  | s :: rest, t => t.makeAfter ⟨isAbsolute, (s :: rest).reverse, false⟩ (makeAlong isAbsolute rest)

/-- Makes a directory and all that are missing on the way. -/
def makeDirectories (t : FileTree) (p : Path) : FileTree × Option FileFault :=
  t.makeAfter p (makeAlong p.isAbsolute p.moves.reverse.tail)

end FileTree
end ServiceSchema
