import ServiceSchema.FileTree

/-! # File systems
What commands need of the files around them. A file tree that is threaded through is a file system. -/
namespace ServiceSchema

class FileSystem (m : Type → Type) where
  read : String → m (Except FileFault (List UInt8))
  write : String → List UInt8 → m (Except FileFault Unit)
  makeDirectories : String → m (Except FileFault Unit)

namespace FileTree

def read (t : FileTree) (path : String) : Except FileFault (List UInt8) :=
  match Path.read path with
  | .error fault => .error fault
  | .ok p => t.readAt p

def write (t : FileTree) (path : String) (content : List UInt8) : Except FileFault Unit × FileTree :=
  match Path.read path with
  | .error fault => (.error fault, t)
  | .ok p =>
    match t.writeAt p content with
    | .error fault => (.error fault, t)
    | .ok t => (.ok (), t)

/-- The empty path is the working directory, which is there. -/
def makeAll (t : FileTree) (path : String) : Except FileFault Unit × FileTree :=
  if path = "" then (.ok (), t)
  else
    match Path.read path with
    | .error fault => (.error fault, t)
    | .ok p =>
      match t.makeDirectories p with
      | (t, none) => (.ok (), t)
      | (t, some fault) => (.error fault, t)

end FileTree

instance : FileSystem (StateM FileTree) where
  read path := fun t => (t.read path, t)
  write path content := fun t => t.write path content
  makeDirectories path := fun t => t.makeAll path

end ServiceSchema
