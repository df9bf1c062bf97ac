import YalSyntax.CommandLine

namespace YalSyntax.CommandLine

def ReadFailure.ofError : IO.Error → ReadFailure
  | .noFileOrDirectory _ code reason | .inappropriateType _ code reason
  | .permissionDenied _ code reason | .invalidArgument _ code reason
  | .resourceExhausted _ code reason => .system reason code.toNat
  | .hardwareFault code reason | .resourceBusy code reason | .otherError code reason =>
    .system reason code.toNat
  | error => .system (toString error) 0

def readInput (input : String) : IO (Except ReadFailure ByteArray) := do
  try
    if input = "-" then return .ok (← (← IO.getStdin).readBinToEnd)
    else return .ok (← (← IO.FS.Handle.mk input .read).readBinToEnd)
  catch error => return .error (.ofError error)

end YalSyntax.CommandLine

open YalSyntax.CommandLine

def main (arguments : List String) : IO UInt32 := do
  let answer ← match readArguments arguments with
    | .ok options => pure (options.answer (← readInput options.input))
    | .error halt => pure halt.answer
  (← IO.getStdout).putStr answer.output
  (← IO.getStderr).putStr answer.errors
  return answer.code.toUInt32
