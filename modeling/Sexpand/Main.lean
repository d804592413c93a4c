import Sexpand.CommandLine
import Std.Time.Format

namespace Sexpand.CommandLine

partial def readToEnd (stream : IO.FS.Stream) (read : ByteArray) : IO ByteArray := do
  let bytes ← stream.read 65536
  if bytes.isEmpty then pure read else readToEnd stream (read ++ bytes)

def timeStamp : IO String := do
  let now ← Std.Time.Timestamp.now
  pure ((Std.Time.DateTime.ofTimestamp now .UTC).format "uuuu-MM-dd'T'HH:mm:ss'Z'")

def runProgram (args : List String) : IO UInt32 := do
  let command := Command.ofArguments (args.map String.toList)
  let setting ← IO.getEnv "RUST_LOG"
  let time ← timeStamp
  let input ← if command = .expand then readToEnd (← IO.getStdin) .empty else pure .empty
  let outcome := execute command (threshold (setting.map String.toList)) time.toList input.toList
  (← IO.getStdout).write outcome.stdout.toByteArray
  (← IO.getStdout).flush
  (← IO.getStderr).putStr (String.ofList outcome.stderr)
  pure outcome.status.toUInt32

end Sexpand.CommandLine

def main (args : List String) : IO UInt32 := Sexpand.CommandLine.runProgram args
