import CacheDelay.Stats.Arithmetic

/-!
# Digests of distributions

A digest keeps at most about a hundred weighted centroids of the values added to it, finer towards
the tails, from which quantiles are estimated. Values are merged batch by batch: the sorted batch
and the old centroids are walked in order, and neighbours are joined while their joint weight stays
below the next of a sequence of limits.
-/

namespace CacheDelay.Stats

/-- A mean of values and their number. -/
structure Centroid where
  mean : Binary64
  weight : Binary64

/-- A digest of the values added so far. -/
structure Digest where
  /-- Ascending by mean. -/
  centroids : List Centroid
  count : Binary64
  least : Binary64
  greatest : Binary64

namespace Digest

/-- Roughly the greatest number of centroids. -/
def maxCentroids : Binary64 := 100

/-- The digest of no values. -/
def empty : Digest := ⟨[], 0, 0, 0⟩

/-! ## Order -/

/-- Whether `a` comes no later than `b`: by value, and whatever is no number last. -/
def comesFirst (a b : Binary64) : Bool := b.isNaN || a ≤ b

/-! ## Merging -/

/-- The share of all values that the first `k` centroids may hold. -/
def limitShare (k : Binary64) : Binary64 :=
  let x := k / maxCentroids
  if 0.5 ≤ x then
    let b := 1 - x
    1 - 2 * b * b
  else 2 * x * x

/-- The old centroids and the values, both ascending, in one sequence. A centroid goes first only if
its mean is less than the value. -/
def interleave : List Centroid → List Binary64 → List Centroid
  | centroids, [] => centroids
  | [], v :: values => ⟨v, 1⟩ :: interleave [] values
  | c :: centroids, v :: values =>
    if c.mean < v then c :: interleave centroids (v :: values)
    else ⟨v, 1⟩ :: interleave (c :: centroids) values
termination_by centroids values => centroids.length + values.length

/-- A centroid that is being joined with its successors. -/
structure Joining where
  current : Centroid
  /-- Sum and weight of the successors joined so far. -/
  sums : Binary64
  weights : Binary64
  /-- Weight of everything up to here. -/
  soFar : Binary64
  /-- The weight up to which successors are joined, and the number of the next limit. -/
  limit : Binary64
  next : Binary64
  /-- Finished centroids, last first. -/
  finished : List Centroid

/-- The centroid with its successors joined in. -/
def Joining.close (j : Joining) : Centroid :=
  let weight := j.current.weight + j.weights
  ⟨(j.sums + j.current.weight * j.current.mean) / weight, weight⟩

/-- Joins the next item, or starts a new centroid with it. -/
def Joining.add (count : Binary64) (j : Joining) (item : Centroid) : Joining :=
  let soFar := j.soFar + item.weight
  if soFar ≤ j.limit then
    { j with
      soFar
      sums := j.sums + item.mean * item.weight
      weights := j.weights + item.weight }
  else
    { current := item, sums := 0, weights := 0, soFar, limit := limitShare j.next * count
      next := j.next + 1, finished := j.close :: j.finished }

/-- The centroids of a sequence of items of the given total weight. -/
def compress (count : Binary64) : List Centroid → List Centroid
  | [] => []
  | first :: rest =>
    let start : Joining :=
      { current := first, sums := 0, weights := 0, soFar := first.weight
        limit := limitShare 1 * count, next := 2, finished := [] }
    let j := rest.foldl (Joining.add count) start
    (j.close :: j.finished).reverse.mergeSort fun a b => comesFirst a.mean b.mean

/-- The digest with more values. -/
def addAll (d : Digest) (values : List Binary64) : Digest :=
  let sorted := values.mergeSort comesFirst
  match sorted, sorted.getLast? with
  | first :: _, some last =>
    let count := d.count + Binary64.ofNat values.length
    let least := if 0 < d.count && comesFirst d.least first then d.least else first
    let greatest := if 0 < d.count && !comesFirst d.greatest last then d.greatest else last
    ⟨compress count (interleave d.centroids sorted), count, least, greatest⟩
  | _, _ => d

/-! ## Quantiles -/

/-- The centroid in which the value of rank `rank` lies, searched from the least one up: its
position and the weight below it. The last centroid takes what the others leave. -/
def findUp (rank : Binary64) (position : Nat) (below : Binary64) : List Centroid → Nat × Binary64
  | [] => (position - 1, below)
  | c :: rest =>
    if rank < below + c.weight then (position, below)
    else findUp rank (position + 1) (below + c.weight) rest

/-- The same search from the greatest centroid down, in centroids listed last first. -/
def findDown (rank above : Binary64) : List Centroid → Nat × Binary64
  | [] => (0, above)
  | c :: rest =>
    let below := above - c.weight
    if below ≤ rank then (rest.length, below) else findDown rank below rest

/-- The value of rank `rank`, which lies in the centroid at position `p` with weight `below` before
it: interpolated towards the neighbours, and kept between them. -/
def interpolate (d : Digest) (rank : Binary64) (p : Nat) (below : Binary64) : Binary64 :=
  let centroids := d.centroids.toArray
  let mean (i : Nat) := (centroids[i]?.map (·.mean)).getD 0
  let weight := (centroids[p]?.map (·.weight)).getD 0
  let (delta, low, high) :=
    if centroids.size ≤ 1 then (0, d.least, d.greatest)
    else if p = 0 then (mean 1 - mean 0, d.least, mean 1)
    else if p = centroids.size - 1 then (mean p - mean (p - 1), mean (p - 1), d.greatest)
    else ((mean (p + 1) - mean (p - 1)) / 2, mean (p - 1), mean (p + 1))
  let value := mean p + ((rank - below) / weight - 0.5) * delta
  if high < value then high else if value < low then low else value

/-- The estimate of the quantile `q`; zero if there are no values. -/
def quantile (d : Digest) (q : Binary64) : Binary64 :=
  if d.centroids.isEmpty then 0
  else
    let rank := q * d.count
    if 0.5 < q then
      if 1 ≤ q then d.greatest
      else
        let (p, below) := findDown rank d.count d.centroids.reverse
        d.interpolate rank p below
    else if q ≤ 0 then d.least
    else
      let (p, below) := findUp rank 0 0 d.centroids
      d.interpolate rank p below

end Digest

end CacheDelay.Stats
