import ThreeAddress.Builder.Listing
import ThreeAddress.CommandLine.Options
import ThreeAddress.Script.Replay
import ThreeAddress.Settings.Basic

/-!
# The program

The program is a dialogue with the outside world: it asks for files to be read and written and, in
the end, leaves a report (`program`). It writes only after everything else has succeeded. A dialogue
can be held with anything that answers such requests (`Dialogue.run`).
-/

namespace ThreeAddress.CommandLine

/-- What a program does next, as it depends on the answers it gets. A failed request is answered
with the reason. -/
inductive Dialogue where
  | finish (report : Report)
  /-- Read a text file. -/
  | read (path : String) (next : Except String String → Dialogue)
  /-- Write a text file; what it held before is lost. -/
  | write (path text : String) (next : Except String Unit → Dialogue)

namespace Dialogue

/-- Ends with a message of failure. -/
def fail (message : String) : Dialogue := finish ⟨1, "", message ++ "\n"⟩

/-- Ends with an error. -/
def failWith (e : Error) : Dialogue := fail ("Error: " ++ e.message)

end Dialogue

/-- How requests are **answered**, in a state of the files. What is written leads to another state. -/
structure Answers (σ : Type) where
  read : σ → String → Except String String
  write : σ → String → String → Except String σ

/-- Holds a dialogue, from a state of the files. A failed request leaves them alone. -/
def Dialogue.run {σ : Type} (answers : Answers σ) : Dialogue → σ → Report × σ
  | .finish report, s => (report, s)
  | .read path next, s => (next (answers.read s path)).run answers s
  | .write path text next, s =>
    match answers.write s path text with
    | .error reason => (next (.error reason)).run answers s
    | .ok written => (next (.ok ())).run answers written

namespace Options

/-- Lets the limit of the command line win over the settings. -/
def override (o : Options) (s : Settings) : Except Settings.Fault Settings :=
  match o.limit with
  | none => .ok s
  | some n => { s with limit := n }.validate

/-- Gets the settings, with the help of a library, and goes on with them. -/
def withSettings (o : Options) (library : Settings.Library) (next : Settings → Dialogue) : Dialogue :=
  let goOn (s : Except Settings.Fault Settings) : Dialogue :=
    match s.bind o.override with
    | .error fault => .failWith (.settings fault)
    | .ok s => next s
  match o.settings with
  | none => goOn (.ok {})
  | some path => .read path fun
    | .error reason => goOn (.error (.unreadable path reason))
    | .ok text => goOn (library.settings text)

/-- What is told about a finished builder if the user asked for it. -/
def remark (o : Options) (b : Builder) : String :=
  if o.verbose then
    "Generated " ++ toString b.length ++ " quads from " ++ o.input
      ++ " (limit " ++ toString b.limit ++ ")\n"
  else ""

/-- Hands over the listing. -/
def deliver (o : Options) (b : Builder) : Dialogue :=
  match o.output with
  | none => .finish ⟨0, b.listing, o.remark b⟩
  | some path => .write path b.listing fun
    | .error reason => .finish ⟨1, "", o.remark b ++ "Error writing output: " ++ reason ++ "\n"⟩
    | .ok _ => .finish ⟨0, "", o.remark b⟩

/-- Replays the script and hands over the listing. -/
def generate (o : Options) (s : Settings) (source : String) : Dialogue :=
  let outcome := Script.replay (Builder.new s.limit).value source
  match outcome.result with
  | .error e => .failWith e
  | .ok _ => o.deliver outcome.state

end Options

/-- The **program**, called by the given name with the given arguments, with a library for settings. -/
def programWith (library : Settings.Library) (name : String) (arguments : List String) : Dialogue :=
  match Options.ofArguments arguments with
  | .error stop => .finish (stop.report name)
  | .ok o => o.withSettings library fun s => .read o.input fun
    | .error reason => .fail ("Error reading '" ++ o.input ++ "': " ++ reason)
    | .ok source => o.generate s source

/-- The program with the library that it comes with. -/
def program (name : String) (arguments : List String) : Dialogue :=
  programWith Settings.Document.library name arguments

end ThreeAddress.CommandLine
