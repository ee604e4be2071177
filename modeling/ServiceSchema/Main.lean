import ServiceSchema.CommandLine

/-! # The program
Runs the command line on the files of the machine. -/
namespace ServiceSchema

def FileFault.ofError : IO.Error → FileFault
  | .noFileOrDirectory _ _ _ => .notFound
  | .alreadyExists _ _ _ => .exists
  | .inappropriateType _ code details =>
    if code = 20 then .notDirectory else if code = 21 then .isDirectory else .other details
  | e => .other (toString e)

def attempt {α : Type} (action : IO α) : IO (Except FileFault α) := do
  try
    return .ok (← action)
  catch e => return .error (.ofError e)

instance : FileSystem IO where
  read path := attempt do return (← IO.FS.readBinFile path).toList
  write path content := attempt (IO.FS.writeBinFile path ⟨content.toArray⟩)
  makeDirectories path := attempt (IO.FS.createDirAll path)

end ServiceSchema

def main (args : List String) : IO UInt32 := do
  let (exit, log) ← ServiceSchema.CommandLine.run (m := IO) args
  for line in log do
    IO.eprintln line
  IO.print exit.stdout
  return exit.code.toUInt32
