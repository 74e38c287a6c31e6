import CacheDelay.Decimal.Reader
import CacheDelay.Text.Blank
import CacheDelay.Text.Split

/-!
# Clock frequencies

The frequency of the cycle counter, from what the kernel says about it: a file with the frequency in
kHz, or else the description of the processors.
-/

namespace CacheDelay.Kernel

open CacheDelay.Decimal CacheDelay.Text

/-- The frequency on one line of the description of the processors: the text between its first two
colons. -/
def readMhzLine? (line : List Char) : Option Binary64 := do
  if !"cpu MHz".toList.isPrefixOf line then none
  let (_, rest) ← cutAt ':' line
  let value ← readFloat? (trim (rest.takeWhile (· != ':')))
  if 0 < value then some value else none

/-- The first positive frequency, in MHz, in the description of the processors. -/
def processorMhz? (text : List Char) : Option Binary64 := (lines text).findSome? readMhzLine?

/-- The frequency in MHz given in a text in kHz, unless it is zero. -/
def counterMhz? (text : List Char) : Option Binary64 := do
  let khz ← (readNumeral maxWord64 (trim text)).toOption
  if khz = 0 then none else some (Binary64.ofNat khz / 1000)

/-- What the kernel says about the clock, as far as it says anything. -/
structure ClockFiles where
  counterKhz? : Option String
  processors? : Option String

/-- The frequency in MHz that the kernel gives. The counter's own frequency comes first. -/
def ClockFiles.mhz? (files : ClockFiles) : Option Binary64 :=
  (files.counterKhz?.bind fun text => counterMhz? text.toList).or
    (files.processors?.bind fun text => processorMhz? text.toList)

end CacheDelay.Kernel
