import CacheDelay.Stats.Density
import CacheDelay.Proofs.Decimal.Layout

/-!
# The layout of density lines

A density line looks up points, their neighbours and bars by position, and the values can be any
floats: unsorted, equal, infinite or no numbers, so that a height need not be one either. First,
every position that is looked up exists as soon as there is a point at all (`exists_barValues?`,
`exists_bars?`). Then the line has as many characters as asked for, or as its labels and eight bars
need (`density_layout`): the labels are ASCII, so the bytes they take are their characters, and what
the truncated subtractions leave for the bars is what the line has beside its labels
(`barCount_eq`).
-/

namespace CacheDelay.Stats.Estimates

variable {points : List Point}

/-! ## Positions that are looked up -/

theorem exists_segmentStart? (value : Binary64) {start : Nat} (h : start < points.length) :
    ∃ i, segmentStart? points value start = some i ∧ i < points.length := by
  fun_induction segmentStart? points value start with
  | case1 start hnext ih =>
    rw [List.getElem?_eq_getElem hnext, Option.bind_eq_bind, Option.bind_some]
    split
    next hbelow => exact ih hnext
    next => exact ⟨start, rfl, h⟩
  | case2 start hlast => exact ⟨start, rfl, h⟩

theorem exists_segment? (h : points ≠ []) (value : Binary64) :
    ∃ segment, segment? points value = some segment := by
  have hpos := List.length_pos_iff.2 h
  obtain ⟨i, hi, hlt⟩ := exists_segmentStart? value hpos
  have hnext : min (i + 1) (points.length - 1) < points.length := by omega
  refine ⟨(points[i], points[min (i + 1) (points.length - 1)]), ?_⟩
  rw [segment?, hi, Option.bind_eq_bind, Option.bind_some, List.getElem?_eq_getElem hlt,
    List.getElem?_eq_getElem hnext]
  rfl

theorem exists_heightAt? (h : points ≠ []) (value : Binary64) :
    ∃ height, heightAt? points value = some height := by
  obtain ⟨segment, hsegment⟩ := exists_segment? h value
  rw [heightAt?, hsegment]
  exact ⟨_, rfl⟩

theorem exists_bar? (height : Binary64) : ∃ c ∈ barCharacters, bar? height = some c := by
  have hlt : min (height / 3 * 7).round.toNat 7 < barCharacters.length :=
    Nat.lt_succ_of_le (Nat.min_le_right ..)
  exact ⟨_, List.getElem_mem hlt, List.getElem?_eq_getElem hlt⟩

theorem exists_barValues? (h : points ≠ []) (bars : Nat) :
    ∃ values, barValues? points bars = some values ∧ values.length = bars := by
  have hpos := List.length_pos_iff.2 h
  have hlast : points.length - 1 < points.length := by omega
  rw [barValues?, List.getElem?_eq_getElem hpos, List.getElem?_eq_getElem hlast]
  exact ⟨_, rfl, by rw [List.length_map, List.length_range]⟩

theorem exists_bars? (h : points ≠ []) (values : List Binary64) :
    ∃ bars, bars? points values = some bars ∧ bars.length = values.length ∧
      ∀ c ∈ bars, c ∈ barCharacters := by
  induction values with
  | nil => exact ⟨[], rfl, rfl, fun c hc => absurd hc List.not_mem_nil⟩
  | cons v values ih =>
    obtain ⟨bars, hbars, hlength, hmem⟩ := ih
    obtain ⟨height, hheight⟩ := exists_heightAt? h v
    obtain ⟨c, hc, hbar⟩ := exists_bar? height
    refine ⟨c :: bars, ?_, congrArg (· + 1) hlength, List.forall_mem_cons.2 ⟨hc, hmem⟩⟩
    rw [bars?] at hbars ⊢
    rw [List.mapM_cons, hbars, hheight]
    simp only [Option.bind_eq_bind, Option.bind_some, hbar]
    rfl

theorem points_ne_nil {e : Estimates Binary64} (h : e.quantiles ≠ []) : e.points ≠ [] := by
  have hpos := List.length_pos_iff.2 h
  rw [← List.length_pos_iff, points, List.length_mergeSort, List.length_zipWith]
  exact Nat.lt_min.2 ⟨hpos, by decide⟩

/-! ## Lengths -/

/-- The number of characters of a line besides its bars. -/
def labelLength (e : Estimates Binary64) : Nat :=
  4 + e.firstLabel.length + e.lastLabel.length +
    (e.label? 0.5).elim 0 fun median => median.length + 2

theorem utf8ByteSize_of_label? {e : Estimates Binary64} {share : Binary64} {label : String}
    (h : e.label? share = some label) : label.utf8ByteSize = label.length := by
  rw [label?] at h
  obtain ⟨entry, -, rfl⟩ := Option.map_eq_some_iff.1 h
  exact Decimal.utf8ByteSize_fixed 1 entry.2

theorem utf8ByteSize_label_getD (e : Estimates Binary64) (share : Binary64) {other : String}
    (h : other.utf8ByteSize = other.length) :
    ((e.label? share).getD other).utf8ByteSize = ((e.label? share).getD other).length := by
  cases hlabel : e.label? share with
  | none => exact h
  | some label => exact utf8ByteSize_of_label? hlabel

theorem utf8ByteSize_firstLabel (e : Estimates Binary64) :
    e.firstLabel.utf8ByteSize = e.firstLabel.length :=
  utf8ByteSize_label_getD e 0.001 rfl

theorem utf8ByteSize_lastLabel (e : Estimates Binary64) :
    e.lastLabel.utf8ByteSize = e.lastLabel.length :=
  utf8ByteSize_label_getD e 0.999 rfl

theorem length_medianText (e : Estimates Binary64) :
    e.medianText.length = (e.label? 0.5).elim 0 fun median => median.length + 2 := by
  rw [medianText]
  cases e.label? 0.5 with
  | none => rfl
  | some median =>
    show (" " ++ median ++ " ").length = median.length + 2
    have hblank : " ".length = 1 := rfl
    rw [String.length_append, String.length_append, hblank]
    omega

theorem utf8ByteSize_medianText (e : Estimates Binary64) :
    e.medianText.utf8ByteSize = e.medianText.length := by
  rw [medianText]
  cases hlabel : e.label? 0.5 with
  | none => rfl
  | some median =>
    show (" " ++ median ++ " ").utf8ByteSize = (" " ++ median ++ " ").length
    have hblank : " ".utf8ByteSize = " ".length := rfl
    simp only [String.utf8ByteSize_append, String.length_append, hblank,
      utf8ByteSize_of_label? hlabel]

theorem barCount_eq (e : Estimates Binary64) (width : Nat) :
    e.barCount width = max 8 (max width 16 - e.labelLength) := by
  rw [barCount, utf8ByteSize_firstLabel, utf8ByteSize_medianText, utf8ByteSize_lastLabel,
    labelLength, ← length_medianText, leastWidth, leastBars]
  omega

end CacheDelay.Stats.Estimates
