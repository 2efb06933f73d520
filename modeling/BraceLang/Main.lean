import BraceLang.CommandLine

/-!
# The command

`bracelang [--no-builtins] FILE`
-/

namespace BraceLang.CommandLine

/-- The bytes of a file. -/
def contentOf (file : String) : IO (Except Unreadable ByteArray) := do
  try
    return .ok (← IO.FS.readBinFile file)
  catch
    | .noFileOrDirectory .. => return .error .missing
    | .permissionDenied .. => return .error .denied
    | _ => return .error .directory

/-- Check one file and write the report. -/
def runOn (bare : Bool) (file : String) : IO UInt32 := do
  let report := check bare file (← contentOf file)
  (← IO.getStdout).putStr report.output
  (← IO.getStderr).putStr report.text
  return report.exitCode.toUInt32

end BraceLang.CommandLine

/-- Check the file named by the arguments. -/
def main (arguments : List String) : IO UInt32 := do
  match arguments with
  | [file] => BraceLang.CommandLine.runOn false file
  | ["--no-builtins", file] => BraceLang.CommandLine.runOn true file
  | [file, "--no-builtins"] => BraceLang.CommandLine.runOn true file
  | _ =>
    (← IO.getStderr).putStrLn "Usage: bracelang [--no-builtins] FILE"
    return 2
