import JsonQuery.Command.Arguments

open JsonQuery

def main (arguments : List String) : IO UInt32 := do
  match Command.ofArguments arguments with
  | none =>
    IO.eprintln Command.usage
    return 2
  | some command =>
    let stdin ← IO.getStdin
    let piped ←
      if command.readsPiped && !(← stdin.isTty) then some <$> stdin.readToEnd else pure none
    let report := command.run piped
    IO.print report.output
    if report.code != 0 then IO.eprintln report.errors
    return report.code.toUInt32
