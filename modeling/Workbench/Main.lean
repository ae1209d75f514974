import Workbench.CommandLine
import Workbench.CSharp.Model
import Workbench.CSharp.Tree
import Workbench.Service.Tool
import Workbench.Stored

/-!
# The program

Before each request the directory of the workspace is read into a disk value,
the request is run on that, and the files that came out different are written
back. When a write fails, the files written before it are restored and the
request is run again, with the failure known.
-/

namespace Workbench.Program

/-- Whether what is in a file matters, and not only that it is there. -/
def isRead (name : String) : Bool :=
  name == ".ignore" || name == ".gitignore" || (Loading.splitName name).2.any Loading.isSource

/-- Adds the ignore files of a directory and of those above it. -/
def captureAbove (d : Disk) (root : Disk.Place) : IO Disk := do
  let mut d := d
  for dir in root.above do
    for name in [".ignore", ".gitignore"] do
      let p := dir ++ [name]
      try d := d.put p (.file (← IO.FS.readBinFile p.render))
      catch _ => pure ()
  return d

def capture (root : Disk.Place) : IO Disk := do
  let mut d ← captureAbove (Disk.empty.makeDirectory root.dropLast) root
  let mut todo := [root]
  while true do
    match todo with
    | [] => break
    | p :: rest =>
      todo := rest
      try
        let real ← IO.FS.realPath p.render
        match (← real.metadata).type with
        | .dir =>
          d := d.put p .directory
          let names := (← real.readDir).toList.map (·.fileName)
          todo := (names.filter (!Disk.skippedNames.contains ·)).map (p ++ [·]) ++ rest
        | .file =>
          let wanted := p = root || isRead (p.getLast?.getD "")
          d := d.put p (.file (← if wanted then IO.FS.readBinFile p.render else pure ByteArray.empty))
        | _ => pure ()
      catch _ => pure ()
  return d

structure Setup where
  /-- The root as it was asked for. -/
  asked : String
  root : Disk.Place
  useIgnore : Bool
  limits : Limits

abbrev State := StoredSession Disk

/-- Writes the files in which two disks differ. Gives the one that could not be written and why, after
restoring those before it. -/
def writeBack (before after : Disk) : IO (Option (String × String)) := do
  let mut done : List (Disk.Place × ByteArray) := []
  for (p, n) in after.nodes do
    if let .file content := n then
      let old := (before.content? p).getD ByteArray.empty
      if old.data != content.data then
        try
          IO.FS.writeBinFile p.render content
          done := (p, old) :: done
        catch e =>
          for (q, bytes) in done do
            try IO.FS.writeBinFile q.render bytes catch _ => pure ()
          return some (p.render, toString e)
  return none

/-- Runs a request on what is on disk now. Each attempt knows of one more file that cannot be written. -/
def perform {α} (setup : Setup) (s : State) (request : Host State → StateM State α) : IO (α × State) := do
  let s := { s with store := ← capture setup.root }
  let mut refused := []
  let mut outcome := attempt s refused
  for _ in s.store.nodes do
    match ← writeBack s.store outcome.2.store with
    | none => break
    | some failure =>
      refused := failure :: refused
      outcome := attempt s refused
  return outcome
where
  attempt (s : State) (refused : List (String × String)) : α × State :=
    let storage := (Disk.storage setup.useIgnore setup.root.render).refusing refused
    (request (StoredSession.host storage setup.root.render)).run s

def start (setup : Setup) : IO (Except String State) := do
  let d ← capture setup.root
  let path := if d.exists_ setup.root then setup.root.render else setup.asked
  match StoredSession.opened d setup.useIgnore path with
  | .ok (_, s) => return .ok s
  | .error e => return .error e.message

def loop (setup : Setup) (s : State) (reply : Host State → String → StateM State (Option Json)) : IO Unit := do
  let input ← IO.getStdin
  let output ← IO.getStdout
  let mut s := s
  while true do
    let line ← input.getLine
    if line.isEmpty then break
    let (replies, next) ← perform setup s fun h => Service.serve (reply h) (Service.inputLines line)
    s := next
    for j in replies do
      output.putStrLn j.compact
    output.flush

def setupOf (t : CommandLine.Target) : IO Setup := do
  let names := ["CODEACT_CLEANUP_MAX_PASSES", "CODEACT_CALL_GRAPH_MAX_DEPTH", "CODEACT_DIFF_MAX_CELLS"]
  let settings ← names.mapM fun n => do return (n, ← IO.getEnv n)
  let real ← try pure (← IO.FS.realPath t.root).toString catch _ => pure t.root
  return ⟨t.root, Disk.Place.ofPath real, !t.noIgnore, .ofEnvironment fun n => (settings.lookup n).join⟩

def fail (message : String) : IO UInt32 := do
  IO.eprintln ("Error: " ++ message)
  return 1

def answerOnce (t : CommandLine.Target) (c : CommandLine.SingleCall) : IO UInt32 := do
  let params ← match c.paramsFile with
    | some path => IO.FS.readFile path
    | none => pure c.params
  match Service.singleRequest c.method params c.id with
  | .error why => fail why
  | .ok request =>
    let setup ← setupOf t
    match ← start setup with
    | .error why => fail why
    | .ok s =>
      let (reply, _) ← perform setup s fun h => Service.answer h (CSharp.model CSharp.parse) setup.limits request
      IO.println reply.toJson.compact
      return 0

/-- Opens the workspace and answers requests until there are no more. -/
def answerAll (t : CommandLine.Target) (reply : Limits → Host State → String → StateM State (Option Json)) :
    IO UInt32 := do
  let setup ← setupOf t
  match ← start setup with
  | .error why => fail why
  | .ok s =>
    loop setup s (reply setup.limits)
    return 0

def usage : String :=
  "Usage: codeact <serve|mcp-serve|request> [--root <ROOT>] [--no-ignore]\n" ++
  "  request also takes --method <METHOD> [--params <PARAMS>] [--params-file <PARAMS_FILE>] [--id <ID>]"

def refuse : CommandLine.Usage → IO UInt32
  | .help => do
    IO.println usage
    return 0
  | .version => do
    IO.println "codeact 0.1.0"
    return 0
  | _ => do
    IO.eprintln usage
    return 2

end Workbench.Program

open Workbench in
def main (args : List String) : IO UInt32 := do
  match CommandLine.read args with
  | .error u => Program.refuse u
  | .ok (.request t c) => Program.answerOnce t c
  | .ok (.serve t) =>
    Program.answerAll t fun limits h line => do
      return some (← Service.respond h (CSharp.model CSharp.parse) limits line).toJson
  | .ok (.serveTool t) => Program.answerAll t fun limits h => Service.Tool.respond h (CSharp.model CSharp.parse) limits
