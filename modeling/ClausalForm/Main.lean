import ClausalForm.CommandLine

/-! # The program -/

namespace ClausalForm

/-- `FileError.numbered code reason`: why a file was refused, by the number of the error, which may
be given negated, and its words. -/
def FileError.numbered (code : UInt32) (reason : String) : FileError :=
  system reason.capitalize (min code.toNat (-code).toNat)

/-- `FileError.ofSystem e`: why the system refused a file. -/
def FileError.ofSystem : IO.Error → FileError
  | .noFileOrDirectory _ code reason => numbered code reason
  | .inappropriateType _ code reason => numbered code reason
  | .permissionDenied _ code reason => numbered code reason
  | .invalidArgument _ code reason => numbered code reason
  | .resourceExhausted _ code reason => numbered code reason
  | .noSuchThing _ code reason => numbered code reason
  | .otherError code reason => numbered code reason
  | e => system (toString e) 0

/-- The contents of a file on disk. -/
def readFile (path : String) : IO FileContents := do
  try
    return .ok (← IO.FS.readBinFile path)
  catch e => return .error (.ofSystem e)

end ClausalForm

open ClausalForm in
/-- Runs the program on files on disk. -/
def main (args : List String) : IO UInt32 := do
  let answer ← CommandLine.run readFile "clif_to_pcnf" args
  (← IO.getStdout).putStr (CommandLine.textOfLines answer.output)
  (← IO.getStderr).putStr (CommandLine.textOfLines answer.errors)
  return answer.status
