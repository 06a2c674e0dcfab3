import PlZero.Cli.Run

/-! # The command-line tool

Reads the source that the command line names, and writes the outcome to the standard streams, or
the reason why there is none.
-/

namespace PlZero.Cli

/-- Why the system could not give the bytes of a file. -/
def ReadError.ofSystem (path : String) : IO.Error → ReadError
  | .inappropriateType _ code _ => if code = 21 then .isDirectory path else .notDirectory path
  | _ => .noSuchFile path

/-- The number of bytes that are asked for at once. -/
def pageSize : USize := 65536

/-- All bytes of a stream behind those in `before`. -/
partial def drain (stream : IO.FS.Stream) (before : ByteArray) : IO ByteArray := do
  let page ← stream.read pageSize
  if page.isEmpty then return before else drain stream (before ++ page)

/-- The bytes of the source that an invocation names. -/
def Invocation.bytes (i : Invocation) : IO (Except ReadError (List UInt8)) := do
  if i.file = "-" then
    let all ← drain (← IO.getStdin) ByteArray.empty
    return .ok all.toList
  else
    try
      let all ← IO.FS.readBinFile i.file
      return .ok all.toList
    catch e =>
      return .error (.ofSystem i.file e)

end PlZero.Cli

/-- Answers a command line. -/
def main (words : List String) : IO UInt32 := do
  let answer ←
    match PlZero.Cli.Invocation.ofArguments words with
    | .error verdict => pure (.ok verdict.outcome)
    | .ok i => do
      let bytes ← i.bytes
      pure (i.outcome bytes)
  match answer with
  | .ok outcome =>
    (← IO.getStdout).putStr outcome.stdout
    (← IO.getStderr).putStr outcome.stderr
    return outcome.exit.toUInt32
  | .error halt =>
    (← IO.getStderr).putStrLn halt.message
    return 1
