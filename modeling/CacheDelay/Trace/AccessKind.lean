/-!
# Kinds of timed accesses

A timed pass over a working set is cold, hot, or follows a scheduling event, and it is valid or
suspect. On disk each of the six kinds is a letter: `C`, `H` or `P`, in lower case for suspect
passes.
-/

namespace CacheDelay.Trace

/-- What a pass over a working set measures. -/
inductive Pass where
  /-- The first pass of a job, over memory that is in no cache. -/
  | cold
  /-- A later pass of a job, over memory that is in the cache. -/
  | hot
  /-- A pass after a preemption or migration. -/
  | event
  deriving DecidableEq

/-- What a pass measured, and whether no scheduling change overlapped it. -/
structure AccessKind where
  pass : Pass
  valid : Bool
  deriving DecidableEq

namespace AccessKind

/-- The letter of a kind. -/
def letter (kind : AccessKind) : Char :=
  match kind.pass, kind.valid with
  | .cold, true => 'C'
  | .cold, false => 'c'
  | .hot, true => 'H'
  | .hot, false => 'h'
  | .event, true => 'P'
  | .event, false => 'p'

/-- The code of a kind on disk. -/
def code (kind : AccessKind) : UInt8 := kind.letter.toUInt8

/-- All kinds. -/
def all : List AccessKind :=
  [⟨.cold, true⟩, ⟨.cold, false⟩, ⟨.hot, true⟩, ⟨.hot, false⟩, ⟨.event, true⟩, ⟨.event, false⟩]

/-- The kind with the given code, if it is known. -/
def ofCode? (code : UInt8) : Option AccessKind := all.find? (·.code == code)

/-- The name of a kind. -/
def name (kind : AccessKind) : String :=
  (match kind.pass with
    | .cold => "Cold"
    | .hot => "Hot"
    | .event => "Event") ++ if kind.valid then "Valid" else "Suspect"

theorem ofCode?_code (kind : AccessKind) : ofCode? kind.code = some kind := by
  obtain ⟨_ | _ | _, _ | _⟩ := kind <;> decide

end AccessKind

end CacheDelay.Trace
