import SymbolAtlas.Failure

/-!
# Reports

An operation reports what it did as it goes along. `Report α` is the log of an operation together
with its value or the failure that stopped it; what was logged before a failure stays logged.
Whether an entry is shown depends on its level and on whether the run is verbose
(`LogEntry.written`). Where the log is written as the operation goes along, an entry that the stream
cannot carry stops the operation (`Report.through`).
-/

namespace SymbolAtlas

/-- The level of a log entry. -/
inductive Level where
  | debug
  | info
  | warn
  | error
deriving DecidableEq

def Level.name : Level → Text
  | debug => "DEBUG"
  | info => "INFO"
  | warn => "WARN"
  | error => "ERROR"

/-- One thing logged. -/
structure LogEntry where
  level : Level
  text : Text
deriving DecidableEq

/-- What a run writes for an entry: nothing for a debugging entry unless it is verbose. -/
def LogEntry.written (verbose : Bool) (e : LogEntry) : Text :=
  if e.level = .debug ∧ verbose = false then []
  else Text.concat ["[REPOMAP:", e.level.name, "] ", e.text, [Text.newline]]

/-- What a run writes for a log. -/
def writtenLog (verbose : Bool) (log : List LogEntry) : Text :=
  log.flatMap (LogEntry.written verbose)

/-- A stream that a log is written to. -/
structure LogStream where
  verbose : Bool
  carriesSurrogates : Bool

/-- Why a stream cannot write an entry. -/
def LogStream.refusal? (s : LogStream) (e : LogEntry) : Option Failure :=
  if s.carriesSurrogates then none
  else (Utf8.surrogateRun? (e.written s.verbose)).map .unencodable

/-- The entries before the first one that a stream cannot write, and the failure at that one. -/
def LogStream.accept (s : LogStream) : List LogEntry → List LogEntry × Option Failure
  | [] => ([], none)
  | e :: es =>
    match s.refusal? e with
    | some f => ([], some f)
    | none =>
      let (accepted, f) := s.accept es
      (e :: accepted, f)

/-- The log of an operation with its value, or with the failure that stopped it. -/
structure Report (α : Type) where
  log : List LogEntry
  result : Except Failure α

namespace Report

variable {α β : Type}

/-- One operation after another. -/
def andThen (x : Report α) (f : α → Report β) : Report β :=
  match x.result with
  | .ok a => ⟨x.log ++ (f a).log, (f a).result⟩
  | .error e => ⟨x.log, .error e⟩

instance : Monad Report where
  pure a := ⟨[], .ok a⟩
  bind := andThen

def tell (level : Level) (text : Text) : Report Unit := ⟨[⟨level, text⟩], .ok ()⟩

def fail (e : Failure) : Report α := ⟨[], .error e⟩

/-- A value or failure that comes without a log. -/
def ofExcept (r : Except Failure α) : Report α := ⟨[], r⟩

/-- An operation whose log is written to a stream as it goes along: an entry that the stream cannot
write stops it. -/
def through (s : LogStream) (x : Report α) : Report α :=
  match s.accept x.log with
  | (_, none) => x
  | (log, some f) => ⟨log, .error f⟩

/-- The outcome of an operation as a value; its log is kept. -/
def attempt (x : Report α) : Report (Except Failure α) := ⟨x.log, .ok x.result⟩

@[simp]
theorem log_pure (a : α) : (pure a : Report α).log = [] := rfl

@[simp]
theorem result_pure (a : α) : (pure a : Report α).result = .ok a := rfl

theorem result_bind (x : Report α) (f : α → Report β) :
    (x >>= f).result = x.result.bind fun a => (f a).result := by
  show (andThen x f).result = _
  unfold andThen
  cases x.result <;> rfl

end Report

end SymbolAtlas
