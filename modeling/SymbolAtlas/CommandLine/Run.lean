import SymbolAtlas.Atlas
import SymbolAtlas.CommandLine.Help
import SymbolAtlas.Json.Printer

/-!
# Running a command line

`run` is the whole program as a function: from a volume, a working folder, the parsers and the
arguments to the exit code, what is written to the two standard streams, and the volume afterwards.
The output stream shows a surrogate as an escape; the error stream cannot carry one, and a log entry
with one stops the operation that logs it.
-/

namespace SymbolAtlas.CommandLine

/-- What a run comes to. -/
structure Outcome where
  exitCode : Nat
  output : Text
  errors : Text
  volume : Volume

/-- What an action answers. -/
inductive Answer where
  | map (map : Option Text)
  | listing (listing : ListingAnswer)
  | edit (edit : EditAnswer)
  | refusal (code message : Text)

def written (v : Json) : Text := Text.shown (v.pretty ++ [Text.newline])

namespace Answer

def succeeds : Answer → Bool
  | map _ => true
  | listing l => l.toBool
  | edit e => e.toBool
  | refusal .. => false

def output : Answer → Text
  | map (some text) => Text.shown (Text.concat ["Repository map:\n", text, "\n"])
  | map none => "No repository map found. Ensure map items are configured.\n"
  | listing l => written l.toJson
  | edit e => written e.toJson
  | refusal code message => written (refusalJson code message)

end Answer

/-! ## Actions -/

/-- The error stream, which is strict UTF-8. -/
def Options.stream (o : Options) : LogStream := ⟨o.verbose, false⟩

/-- The project of a command line. A path on which a circle of links was cut out may still lead
through links, so the files are kept under what its path comes to when it is worked out again, from
the folder of the project and from that of its files. -/
def openProject [Host] (v : Volume) (cwd : List Text) (parsers : Parsers) (o : Options) :
    Report (Atlas DiskFiles) := do
  let some given := o.project | Report.fail (.notText (.list []) .path)
  let place ← Report.ofExcept (v.realPath cwd (Path.parse given))
  let settings ← Settings.load v place
  let home ← Report.ofExcept (v.realPath cwd place)
  let home ← Report.ofExcept (v.realPath cwd home)
  parsers.announce
  pure ⟨⟨v, home⟩, false, { settings with fastPath := settings.fastPath && o.fastPath }, parsers,
    o.stream⟩

/-- The text of a file that is given on the command line, which has to be valid UTF-8. -/
def readGiven (v : Volume) (cwd : List Text) (file : Text) : Except Failure Text :=
  let p := Path.parse file
  match DiskFiles.bytesAt v (p.below ⟨[Path.slash], cwd⟩) p with
  | .error e => .error e
  | .ok bytes =>
    match Utf8.decodeStrict bytes with
    | .error e => .error (.undecodable e)
    | .ok t => .ok (Text.withNewlines t)

/-- The new source of a symbol; a file goes before a text. -/
def newContent (v : Volume) (cwd : List Text) (o : Options) : Except Failure (Option Content) :=
  match o.contentFile with
  | none | some [] => .ok o.content
  | some file => (readGiven v cwd file).map fun t => some (.text t)

def request? (file : Text) (content : Option Content) (o : Options) : Option EditRequest :=
  match o.name, o.kind, content with
  | some (c :: cs), some kind, some content =>
    some ⟨file, c :: cs, .text kind.name, some content, o.parentClass⟩
  | _, _, _ => none

def act [Host] (a : Atlas DiskFiles) (cwd : List Text) (i : Invocation) :
    Atlas DiskFiles × Report Answer :=
  match i.action, i.target with
  | .map, _ => (a, Answer.map <$> a.memory none)
  | _, none | _, some [] => (a, pure (.refusal "missing_target" "File path required"))
  | .symbols, some file => (a, Answer.listing <$> a.symbols file)
  | .symbol, some file =>
    match newContent a.files.volume cwd i.options with
    | .error e => (a, .fail e)
    | .ok content =>
      match request? file content i.options with
      | none =>
        (a, pure (.refusal "missing_args"
          "--name, --kind and --content or --content-file required"))
      | some request =>
        let (a, report) := a.edit request (!i.options.apply)
        (a, Answer.edit <$> report)

/-! ## Running -/

/-- What is written when an action fails. -/
def failureOutput [Host] (verbose : Bool) (f : Failure) : Text :=
  written (.object [(Text.ofString "success", .bool false),
    (Text.ofString "error", .text "execution_failed"), (Text.ofString "message", .text f.message),
    (Text.ofString "traceback", .text (if verbose then Host.trace f else f.label))])

/-- Runs what a command line asks for. A log entry that cannot be written comes before the edit that
it announces, which is not made then. -/
def runInvocation [Host] (v : Volume) (cwd : List Text) (parsers : Parsers) (i : Invocation) :
    Outcome :=
  let stream := i.options.stream
  let opening := (openProject v cwd parsers i.options).through stream
  let opened := writtenLog stream.verbose opening.log
  match opening.result with
  | .error e => ⟨1, written (refusalJson "init_failed" e.message), opened, v⟩
  | .ok a =>
    let (a, report) := act a cwd i
    let v := if (stream.accept report.log).2.isNone then a.files.volume else v
    let report := report.through stream
    let errors := opened ++ writtenLog stream.verbose report.log
    match report.result with
    | .ok answer => ⟨if answer.succeeds then 0 else 1, answer.output, errors, v⟩
    | .error e => ⟨1, failureOutput stream.verbose e, errors, v⟩

def run [Host] (v : Volume) (cwd : List Text) (parsers : Parsers) (arguments : List Text) :
    Outcome :=
  match read arguments with
  | .help => ⟨0, help, [], v⟩
  | .refused fault => ⟨2, [], fault.report, v⟩
  | .run i => runInvocation v cwd parsers i

end SymbolAtlas.CommandLine
