import ColumnStore.Demo
/-! The demonstration as a program. -/
namespace ColumnStore.Demo

/-- Bytes that are not UTF-8 arrive as replacement characters, so a text with one of them counts as unreadable. -/
def readSetting (name : String) : IO Setting := do
  match ← IO.getEnv name with
  | some raw => return if raw.contains '\uFFFD' then .unreadable else .text raw
  | none => return .unset

end ColumnStore.Demo

open ColumnStore in
def main : IO UInt32 := do
  let outcome := Demo.run (← Demo.readSetting Config.chunkSizeName) (← Demo.readSetting Config.parallelName)
  IO.print outcome.output
  IO.eprint outcome.errors
  return UInt32.ofNat outcome.status
