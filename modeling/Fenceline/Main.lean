import Fenceline.CommandLine.Program

/-!
# The executable

The program as a filter: the toolchain is run by whoever calls the program, and what it writes on its
error output comes on the standard input. The names on the command line stand for themselves: one with
an extension names a file, any other a directory.
-/

namespace Fenceline.CommandLine

/-- The host on which all that a command line names is there, and deno with it. -/
def filterHost (cwd : Absolute) (words : List Text) : Host :=
  let bin : Absolute := ["bin".toList]
  let temporary : Absolute := ["tmp".toList]
  let start := [cwd, bin, temporary].foldl FileTree.addDirectories {}
  let tree := words.foldl (fun (t : FileTree) word =>
    let place := (Path.ofText word).resolve cwd
    if Command.extensionOf word = [] then t.addDirectories place else t.put place []) start
  { tree := tree.put (bin ++ ["deno".toList]) [] true, cwd, temporary }

/-- The toolchain that has written this on its error output. -/
def replayed (stderr : Bytes) : Toolchain :=
  fun launch => { output := [.chunk .stderr stderr], tree := launch.tree }

/-- The bytes of a stream to its end. -/
partial def readAll (input : IO.FS.Stream) (before : Bytes) : IO Bytes := do
  let bytes ← input.read 65536
  if bytes.isEmpty then return before else readAll input (before ++ bytes.toList)

end Fenceline.CommandLine

open Fenceline in
/-- The program over what comes on the standard input. -/
def main (args : List String) : IO UInt32 := do
  let words := args.map String.toList
  let directory := (← IO.getEnv "PWD").getD "/"
  let cwd := (Path.ofText directory.toList).resolve []
  let stderr ← CommandLine.readAll (← IO.getStdin) []
  let ending := CommandLine.run (CommandLine.filterHost cwd words) (CommandLine.replayed stderr) words
  let last := (ending.failure.map fun failure => failure.message ++ ['\n']).getD []
  (← IO.getStdout).putStr (String.ofList (ending.textOn .stdout))
  (← IO.getStderr).putStr (String.ofList (ending.textOn .stderr ++ last))
  return ending.code.toUInt32
