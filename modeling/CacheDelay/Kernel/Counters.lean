import CacheDelay.Text.Blank
import CacheDelay.Text.Numeral
import CacheDelay.Text.Split

/-!
# Scheduling statistics

The counters that the kernel keeps for a thread, read from lines of the form `key : value`. Kernels
differ in what they list: unknown keys and values that are no numerals are skipped, and of several
lines for one counter the last one counts.
-/

namespace CacheDelay.Kernel

open CacheDelay.Text

/-- The counters of a thread. -/
inductive Counter where
  | migrations
  | switches
  | voluntarySwitches
  | involuntarySwitches
  | preemptions
  deriving DecidableEq

/-- The keys under which a counter is listed. -/
def Counter.keys : Counter → List String
  | .migrations => ["se.nr_migrations", "nr_migrations"]
  | .switches => ["nr_switches"]
  | .voluntarySwitches => ["nr_voluntary_switches"]
  | .involuntarySwitches => ["nr_involuntary_switches"]
  | .preemptions => ["nr_preemptions"]

/-- All counters. -/
def Counter.all : List Counter :=
  [.migrations, .switches, .voluntarySwitches, .involuntarySwitches, .preemptions]

/-- The values of the counters. -/
structure Counters where
  value : Counter → Nat

namespace Counters

/-- No counts. -/
def zero : Counters := ⟨fun _ => 0⟩

/-- The statistics with the value of one counter replaced. -/
def set (s : Counters) (counter : Counter) (value : Nat) : Counters :=
  ⟨fun c => if c = counter then value else s.value c⟩

/-- The counter and value on a line, if it has both. -/
def readLine? (line : List Char) : Option (Counter × Nat) := do
  let (key, text) ← cutAt ':' line
  let value ← (readNumeral maxWord64 (trim text)).toOption
  let counter ← Counter.all.find? (·.keys.contains (String.ofList (trim key)))
  some (counter, value)

/-- The statistics with those on one more line. -/
def addLine (s : Counters) (line : List Char) : Counters :=
  match readLine? line with
  | none => s
  | some (counter, value) => s.set counter value

/-- The statistics in a text. -/
def read (text : List Char) : Counters := (lines text).foldl addLine zero

end Counters

end CacheDelay.Kernel
