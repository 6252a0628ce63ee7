/-
  Main.lean --- the program.

  WHAT THIS FILE IS FOR.  The program reads the files that a command may need,
  carries the command out on them, prints its report and writes the ledger back.
-/
import RunLedger.Console.Execute
import RunLedger.Store.TableFile
import RunLedger.Text.Hexadecimal
import Std.Time.DateTime.Timestamp

set_option autoImplicit false

namespace RunLedger.Console

open RunLedger.Project (Config Files joinPath parentPath?)
open RunLedger.Time (Instant)

/-- What is told to somebody whose arguments are refused. -/
def UsageFault.message : UsageFault → String
  | missingRequired => "a required argument is missing"
  | unknown => "an argument is not known"
  | noValue => "an option has no value"
  | badValue => "an option does not accept its value"
  | conflict => "two arguments exclude each other"
  | badCommand => "the command is not known"
  | surplusValue => "an option takes no value"
  | help => usage
  | helpForNothing => usage
where
  /-- the commands -/
  usage : String := String.intercalate "\n" [
    "ingest FILE",
    "events [--run RUN] [--json]",
    "status RUN [--json]",
    "approval list | register | resolve | state",
    "audit verify | export"]

/-- The files with the one at a path added, and the folders on the way to it: its text, or that
there is something without text. -/
def load (files : Files) (path : String) : IO Files := do
  let place := Files.placeOf path
  let (_, around) := Files.makeFolders place.dropLast [] files
  try
    let content ← IO.FS.readFile path
    match Table.ofText? content with
    | some table => return around.put place (.ledger (some table))
    | none => return around.put place (.text content)
  catch
    | .noFileOrDirectory .. => return files
    | _ => return around.put place .folder

/-- The files that a command may need. -/
def loadFor (config : Config) (command : Command) (files : Files) : IO Files := do
  let files ← load files config.database
  match command with
  | .ingest path => load files path
  | _ => return files

/-- What surrounds a command: what the clock says, and tokens drawn at random. -/
def surroundings : IO Surroundings := do
  let now ← Std.Time.Timestamp.now
  let random ← IO.getRandomBytes 16
  let token (n : Nat) : String :=
    String.ofList (((random.toList.drop (4 * n)).take 4).flatMap fun byte =>
      Text.hexChars byte.toNat 2)
  return ⟨fun _ => .ofNanos 0 now.toNanosecondsSinceUnixEpoch.val, token⟩

/-- Writes the ledger back. -/
def save (config : Config) (files : Files) : IO Unit := do
  match files.at? (Files.placeOf config.database) with
  | some (.ledger (some table)) =>
    if let some folder := parentPath? config.database then IO.FS.createDirAll folder
    IO.FS.writeFile config.database table.toText
  | _ => return ()

/-- Carries out a command in the project in the folder `root`. -/
def carryOut (root : String) (command : Command) : IO UInt32 := do
  let files ← load .empty (Config.usual root).settingsFile
  match Config.load files root with
  | .error fault =>
    IO.eprintln ("Error: " ++ fault.message)
    return 1
  | .ok config =>
    let files ← loadFor config command files
    let (report, desk) := execute (← surroundings) config command ⟨files, 0⟩
    save config desk.files
    IO.print report.text
    match report.failure with
    | none => return 0
    | some failure =>
      IO.eprintln ("Error: " ++ failure.message)
      return 1

end RunLedger.Console

/-- Carries out the command that the arguments stand for, in the folder that the program is run
in. -/
def main (arguments : List String) : IO UInt32 := do
  match RunLedger.Console.Command.ofArguments arguments with
  | .error fault =>
    IO.eprintln fault.message
    return 2
  | .ok command =>
    let root ← IO.currentDir
    RunLedger.Console.carryOut root.toString command
