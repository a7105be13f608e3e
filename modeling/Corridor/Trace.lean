import Corridor.Track

/-!
# Traces of a Run

A run leaves a trace beside its result: the calls it made to the scorer and the records it
logged, each in order. `Run` is a computation that can fail with a `Fault` and keeps its trace
when it does.
-/

namespace Corridor

/-- How important a log record is. -/
inductive Level where
  | debug
  | info
  | warning
  | error
  | critical
deriving Repr, DecidableEq, Inhabited

namespace Level

/-- The name of a level. -/
def name : Level → String
  | debug => "DEBUG"
  | info => "INFO"
  | warning => "WARNING"
  | error => "ERROR"
  | critical => "CRITICAL"

/-- The level of a given name. -/
def ofName? (s : String) : Option Level :=
  [debug, info, warning, error, critical].find? fun l => l.name == s

end Level

/-- One logged record. -/
structure LogRecord where
  level : Level
  message : String
deriving Repr, DecidableEq, Inhabited

/-- One call of the scorer: the track that it was asked about, and the divisions of the route. -/
structure ScorerCall where
  track : Track
  divisions : Datum
deriving Inhabited

/-- How many legs the track of a call has. -/
def ScorerCall.legs (c : ScorerCall) : Nat := c.track.length

/-- What a run leaves beside its result. -/
structure Trace where
  calls : List ScorerCall
  logs : List LogRecord
deriving Inhabited

/-- The trace of a run that has not begun. -/
def Trace.empty : Trace := ⟨[], []⟩

/-- A computation that may fail and leaves a trace. -/
abbrev Run (α : Type) := ExceptT Fault (StateM Trace) α

namespace Run

variable {α : Type}

/-- The result and the trace of a computation, from a trace to start with. -/
def resume (t : Trace) (r : Run α) : Except Fault α × Trace := StateT.run (ExceptT.run r) t

/-- The result and the trace of a computation. -/
def start (r : Run α) : Except Fault α × Trace := resume Trace.empty r

/-- Logs a record. Debug records are not kept. -/
def log (level : Level) (message : String) : Run Unit :=
  if level = .debug then pure ()
  else modify fun t => { t with logs := t.logs ++ [⟨level, message⟩] }

/-- Notes a call of the scorer and gives its number, counted from zero. -/
def noteCall (call : ScorerCall) : Run Nat := do
  let t ← get
  set { t with calls := t.calls ++ [call] }
  return t.calls.length

/-- A result that leaves no trace. -/
def ofExcept (r : Except Fault α) : Run α := ExceptT.mk (pure r)

/-- Logs the faults of the given kinds at a level, with a context in front, and fails with them
all the same. -/
def guarded (kinds : List Kind) (context : String) (level : Level) (r : Run α) : Run α :=
  tryCatch r fun f => do
    if kinds.any f.kind.isA then
      let lead := if context.isEmpty then "" else context ++ ": "
      log level (lead ++ f.kind.name ++ ": " ++ f.text)
    throw f

end Run

instance : MonadLift (Except Fault) (ExceptT Fault (StateM Trace)) where
  monadLift := Run.ofExcept

end Corridor
