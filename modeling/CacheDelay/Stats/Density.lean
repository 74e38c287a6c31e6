import CacheDelay.Stats.Estimates

/-!
# Density lines

A distribution drawn on one line: bars between the least and the greatest value, higher towards the
median, with the median's value written into them where it lies. Whatever the values, the line is as
long as asked for or as its labels and eight bars need.
-/

namespace CacheDelay.Stats

/-- The bars, from the lowest to the highest. -/
def barCharacters : List Char := ['▁', '▂', '▃', '▄', '▅', '▆', '▇', '█']

/-- The heights at the reported quantiles: rising to the median and falling off to either tail. -/
def quantileHeights : List Nat := [0, 1, 2, 3, 2, 1, 0]

/-- The width of a line where none is given. -/
def defaultWidth : Nat := 64

/-- The shortest line that can be asked for. -/
def leastWidth : Nat := 16

/-- The least number of bars. -/
def leastBars : Nat := 8

/-- Distances below this count as none. -/
def closeness : Binary64 := ⟨0x3CB0000000000000⟩

/-- The value and height of one quantile. -/
structure Point where
  value : Binary64
  height : Nat

namespace Estimates

/-- The value at the quantile with the given share, if that is listed. -/
def label? (e : Estimates Binary64) (share : Binary64) : Option String :=
  (e.quantiles.find? fun entry => (entry.1 - share).abs < 1e-6).map fun entry =>
    Decimal.fixed 1 entry.2

/-- The quantiles with their heights, ascending by value. -/
def points (e : Estimates Binary64) : List Point :=
  (List.zipWith (fun entry height => ⟨entry.2, height⟩) e.quantiles quantileHeights).mergeSort
    fun a b => Arithmetic.precedes a.value b.value

/-- The position of the first point from `start` on whose successor does not lie below `value`; that
of the last point if there is none. -/
def segmentStart? (points : List Point) (value : Binary64) (start : Nat) : Option Nat :=
  if start + 1 < points.length then do
    let next ← points[start + 1]?
    if next.value < value then segmentStart? points value (start + 1) else some start
  else some start
termination_by points.length - start

/-- The two neighbouring points around `value`; the last one twice if `value` lies beyond it. -/
def segment? (points : List Point) (value : Binary64) : Option (Point × Point) := do
  let start ← segmentStart? points value 0
  let p ← points[start]?
  let q ← points[min (start + 1) (points.length - 1)]?
  some (p, q)

/-- The height at `value`, interpolated between the points around it. -/
def heightAt? (points : List Point) (value : Binary64) : Option Binary64 := do
  let (p, q) ← segment? points value
  let distance := q.value - p.value
  let share := if distance.abs < closeness then 0 else clamp 0 1 ((value - p.value) / distance)
  some (Binary64.ofNat p.height + (Binary64.ofNat q.height - Binary64.ofNat p.height) * share)

/-- The bar for a height from 0 to 3. -/
def bar? (height : Binary64) : Option Char :=
  barCharacters[min (height / 3 * 7).round.toNat 7]?

/-- The values that `bars` bars stand for, from the least to the greatest value. -/
def barValues? (points : List Point) (bars : Nat) : Option (List Binary64) := do
  let least ← points[0]?
  let greatest ← points[points.length - 1]?
  let distance := greatest.value - least.value
  let range := if distance.abs < closeness then 1 else distance
  some ((List.range bars).map fun x =>
    least.value + Binary64.ofNat x / Binary64.ofNat (bars - 1) * range)

/-- The bars that stand for some values. -/
def bars? (points : List Point) (values : List Binary64) : Option (List Char) :=
  values.mapM fun v => do bar? (← heightAt? points v)

/-- The position of the first of the least of some numbers in the order of floats. -/
def leastPosition (values : List Binary64) : Nat :=
  let keys := values.map Binary64.orderKey
  match keys.min? with
  | none => 0
  | some least => keys.idxOf least

/-- The number of bars before the median: those up to the bar nearest to it. -/
def medianPosition (e : Estimates Binary64) (values : List Binary64) : Nat :=
  match e.valueAt? 0.5 with
  | none => values.length / 2
  | some median => leastPosition (values.map fun v => (v - median).abs)

/-- The label of the least value. -/
def firstLabel (e : Estimates Binary64) : String := (e.label? 0.001).getD "min"

/-- The label of the greatest value. -/
def lastLabel (e : Estimates Binary64) : String := (e.label? 0.999).getD "max"

/-- The label of the median, if that is listed, with the blanks around it. -/
def medianText (e : Estimates Binary64) : String :=
  match e.label? 0.5 with
  | none => ""
  | some median => " " ++ median ++ " "

/-- The number of bars in a line of the given width, of which the labels take their bytes. -/
def barCount (e : Estimates Binary64) (width : Nat) : Nat :=
  let space := max width leastWidth - (e.firstLabel.utf8ByteSize + 1)
    - (e.medianText.utf8ByteSize + 2) - (e.lastLabel.utf8ByteSize + 1)
  max space leastBars

/-- The density of a distribution as a line of the given width; empty if there are no estimates.
None if a position were looked up that does not exist. -/
def density? (e : Estimates Binary64) (width : Nat) : Option String :=
  if e.quantiles.isEmpty then some ""
  else do
    let values ← barValues? e.points (e.barCount width)
    let bars ← bars? e.points values
    let position := e.medianPosition values
    some (e.firstLabel ++ " |" ++ String.ofList (bars.take position) ++ e.medianText
      ++ String.ofList (bars.drop position) ++ "| " ++ e.lastLabel)

/-- The density of a distribution as a line of the given width. -/
def density (e : Estimates Binary64) (width : Nat) : String := (e.density? width).getD ""

end Estimates

end CacheDelay.Stats
