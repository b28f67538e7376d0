import EvmJumps.Report

/-- Prints the report on the arguments, and logs nothing. -/
def main (arguments : List String) : IO UInt32 := do
  let report := EvmJumps.Report.ofArguments "jumpdests" arguments .off
  IO.print report.stdout
  IO.eprint report.stderr
  return report.exit
