import CacheDelay.Proofs.Overhead.Recorded

/-!
# Overheads after older samples are lost

A replay finds windows by counting from the first record that it is given. If the ring has let go of
some of the hot passes of a job and kept others, every later window begins that many passes early
(`heldBaseline?_straddled`), and a job that is kept whole is measured against a window that it shares
with the job before. Its events then yield what they do in the whole run exactly if the baselines
agree, which they always do when no such passes are left (`yieldAt?_kept_eq_iff`).
-/

namespace CacheDelay.Overhead

open CacheDelay.Trace

/-- What a replay yields for the record at a position. -/
def Replay.yieldAt? (window : Nat) (records : List Record) (i : Nat) : Option Sample :=
  records[i]?.bind (yield? window (records.take i))

/-- The overheads of an extraction are what the replay yields for the records, by position. -/
theorem overheads_eq_filterMap (records : List Record) (window : Nat) :
    (Extraction.ofRecords records window).overheads =
      (List.range records.length).filterMap (Replay.yieldAt? window records) := by
  have hyield : Replay.yield? window = overheadAfter? (max window 1) := by
    funext earlier record
    exact Replay.yield?_eq window earlier record
  refine (Replay.overheads_eq_collect window records).trans ?_
  rw [← hyield]
  rfl

theorem Replay.yieldAt?_append (window : Nat) (earlier : List Record) (record : Record)
    (later : List Record) :
    yieldAt? window (earlier ++ record :: later) earlier.length =
      overheadAfter? (max window 1) earlier record := by
  rw [yieldAt?, List.getElem?_append_right (Nat.le_refl _), Nat.sub_self, List.getElem?_cons_zero,
    List.take_left, Option.bind_some, yield?_eq]

/-- Once the first `lost` records are gone, a record yields what it does after those left. -/
theorem Replay.yieldAt?_drop (window : Nat) {lost : Nat} {earlier : List Record}
    (h : lost ≤ earlier.length) (record : Record) (later : List Record) :
    yieldAt? window ((earlier ++ record :: later).drop lost) (earlier.length - lost) =
      overheadAfter? (max window 1) (earlier.drop lost) record := by
  rw [List.drop_append_of_le_length h, ← List.length_drop, yieldAt?_append]

/-- The baseline of a job with the hot records `own` when the window that it begins in already holds
the records `early`: the window that these complete has to leave a baseline, which the records of
the next window replace. -/
def straddledBaseline? (early own : List Record) : Option UInt64 :=
  let fill := own.length - early.length
  (leastCost? (early ++ own.take fill)).map fun closed => (leastCost? (own.drop fill)).getD closed

theorem straddledBaseline?_nil (own : List Record) : straddledBaseline? [] own = leastCost? own := by
  have hnil : leastCost? [] = none := rfl
  rw [straddledBaseline?, List.nil_append, List.length_nil, Nat.sub_zero, List.take_length,
    List.drop_length, hnil]
  exact Option.map_id' ..

/-- The baseline after a whole job that follows `front` other hot records. -/
theorem heldBaseline?_straddled {w : Nat} (hw : 0 < w) {records front own : List Record}
    (hhots : hots records = front ++ own) (hown : own.length = w) :
    heldBaseline? w records = straddledBaseline? (leftover w front) own := by
  obtain ⟨whole, hfront, hwhole⟩ := exists_front w front
  have hlt := length_leftover_lt hw front
  generalize leftover w front = early at hfront hlt
  have hwindow : (early ++ own.take (w - early.length)).length = w := by
    rw [List.length_append, List.length_take, hown]; omega
  have hdvd : w ∣ (early ++ own.take (w - early.length)).length := ⟨1, by omega⟩
  have hrest : (own.drop (w - early.length)).length < w := by
    rw [List.length_drop, hown]; omega
  -- whole windows, the window that the job completes, and the part of the job that is left over
  have hall : hots records =
      whole ++ ((early ++ own.take (w - early.length)) ++ own.drop (w - early.length)) := by
    rw [hhots, hfront, List.append_assoc, List.append_assoc, List.take_append_drop]
  have hopen : openWindow w records = own.drop (w - early.length) := by
    rw [openWindow, hall, leftover_append hw hwhole, leftover_append hw hdvd, leftover_of_lt hrest]
  have hlast : lastWindow? w records = some (early ++ own.take (w - early.length)) := by
    rw [lastWindow?, hall, wholeBlocks_append hw hwhole, wholeBlocks_append hw hdvd,
      wholeBlocks_of_length hw hwindow, wholeBlocks_of_lt hrest, List.append_nil,
      List.getLast?_concat]
  rw [heldBaseline?, closedBaseline?, hopen, hlast, Option.bind_some, straddledBaseline?, hown]

/-- The overhead of a record tells its baseline. -/
theorem overheadOf_injective (record : Record) (lastCpu : UInt32) :
    Function.Injective fun baseline => ({
      currentCpu := record.cpu
      lastCpu
      overhead := (record.elapsed - baseline).toInt64
      length := record.length.toInt64 } : Sample) := by
  intro a b hab
  have hoverhead := congrArg (fun sample => sample.overhead.toUInt64) hab
  exact (UInt64.sub_right_inj record.elapsed).1 (by simpa using hoverhead)

end CacheDelay.Overhead

namespace CacheDelay.Probe

open CacheDelay.Overhead CacheDelay.Status CacheDelay.Trace

/-- The records of what a run keeps are the last records of its log. -/
theorem records_kept {available : Nat} {config : Config} {p : Probe}
    (h : create available config = .ok p) (device : Device) (n : Nat) :
    (steps device n p).2.samples.map Sample.record =
      (recordsOf (log device n p)).drop ((recordsOf (log device n p)).length - config.capacity) := by
  rw [samples_steps h, List.map_drop, recordsOf, List.length_map]

/-- The only job among the steps of a job is that job. -/
theorem filterMap_job? {between : List Entry} (hbetween : ∀ entry ∈ between, entry.job? = none)
    (now : Snapshot) (cold : Timing) (hot : List Timing) :
    (Entry.newJob now cold hot :: between).filterMap Entry.job? = [(now, hot)] := by
  rw [List.filterMap_cons, List.filterMap_eq_nil_iff.2 hbetween]
  rfl

/-- What a valid event yields after its job, whatever was recorded before that. -/
theorem overheadAfter?_job {w : Nat} (hw : 0 < w) (earlier : List Record) {between : List Entry}
    (hbetween : ∀ entry ∈ between, entry.job? = none) {now resumed : Snapshot} {cold timing : Timing}
    {hot : List Timing} (hhot : hot.length = w) (hvalid : resumed.sameWindow timing.after = true)
    (length : UInt64) :
    let job := recordsOf (.newJob now cold hot :: between)
    let record := (timing.sample resumed .event length).record
    overheadAfter? w (earlier ++ job) record =
      (straddledBaseline? (openWindow w earlier) (hotRecords now hot)).map fun baseline =>
        { currentCpu := record.cpu
          lastCpu := (lastCpu? job).getD 0
          overhead := (record.elapsed - baseline).toInt64
          length := record.length.toInt64 } := by
  intro job record
  have hhots : hots (earlier ++ job) = hots earlier ++ hotRecords now hot := by
    rw [hots_append, hots_recordsOf, filterMap_job? hbetween, List.map_singleton,
      List.flatten_singleton]
  have hjobs : JobsOf w (.newJob now cold hot :: between) := by
    intro other hother
    rw [filterMap_job? hbetween] at hother
    rw [List.mem_singleton.1 hother]; exact hhot
  -- the job itself triggered samples, so that the last CPU does not depend on what came before
  have hlast : (lastCpu? (earlier ++ job)).getD 0 = (lastCpu? job).getD 0 := by
    obtain ⟨cpu, hcpu⟩ : ∃ cpu, lastCpu? job = some cpu := by
      have htriggers : (Entry.newJob now cold hot :: between).filterMap Entry.trigger? =
          now :: between.filterMap Entry.trigger? := rfl
      exact ⟨_, (lastCpu?_recordsOf hw hjobs).trans (by rw [htriggers, List.getLast?_cons]; rfl)⟩
    rw [lastCpu?_append, hcpu, Option.some_or]
  rw [overheadAfter?_eq hw, isValidEvent_sample, hvalid,
    heldBaseline?_straddled hw hhots (by rw [hotRecords, List.length_map, hhot]), hlast]
  rfl

/-- A valid event of a job that is kept whole yields what it yields in the whole run exactly if the
hot passes that are left of the job cut off fill whole windows, or if the window that such passes
share with the event's job leads to the same baseline. -/
theorem yieldAt?_kept_eq_iff {available : Nat} {config : Config} {p : Probe}
    (h : create available config = .ok p) (hhot : 1 ≤ config.hotReads) (device : Device) (n : Nat)
    {before between after : List Entry} {now resumed : Snapshot} {cold timing : Timing}
    {hot : List Timing}
    (hlog : log device n p =
      before ++ .newJob now cold hot :: between ++ .event resumed timing :: after)
    (hbetween : ∀ entry ∈ between, entry.job? = none)
    (hvalid : resumed.sameWindow timing.after = true) :
    let full := recordsOf (log device n p)
    let kept := (steps device n p).2.samples.map Sample.record
    let lost := full.length - kept.length
    let i := (recordsOf (before ++ .newJob now cold hot :: between)).length
    let early := openWindow config.hotReads ((recordsOf before).drop lost)
    let own := hotRecords now hot
    lost ≤ (recordsOf before).length →
      (Replay.yieldAt? config.hotReads kept (i - lost) = Replay.yieldAt? config.hotReads full i ↔
        early = [] ∨ straddledBaseline? early own = leastCost? own) := by
  intro full kept lost i early own hlost
  have hjobs := jobsOf_log h device n
  rw [hlog] at hjobs
  have hbefore : JobsOf config.hotReads before := (jobsOf_append.1 (jobsOf_append.1 hjobs).1).1
  have hown : hot.length = config.hotReads := hjobs (now, hot) (by simp [Entry.job?])
  let job := recordsOf (.newJob now cold hot :: between)
  let record := (timing.sample resumed .event (resumed.preemptEnd - resumed.preemptStart)).record
  have hearlier : recordsOf (before ++ .newJob now cold hot :: between) = recordsOf before ++ job :=
    recordsOf_append ..
  have hi : i = (recordsOf before ++ job).length := congrArg List.length hearlier
  have hfull : full = recordsOf before ++ job ++ record :: recordsOf after := by
    show recordsOf (log device n p) = _
    rw [hlog, recordsOf_append, hearlier, recordsOf_cons]
    rfl
  have hkept : kept = full.drop lost := by
    refine List.suffix_iff_eq_drop.1 ?_
    rw [show kept = _ from records_kept h device n]
    exact List.drop_suffix ..
  have hi' : lost ≤ (recordsOf before ++ job).length := by
    rw [List.length_append]; omega
  -- both traces hold the whole job, after windows that are cut differently
  have hyieldFull := Replay.yieldAt?_append config.hotReads (recordsOf before ++ job) record
    (recordsOf after)
  have hyieldKept := Replay.yieldAt?_drop config.hotReads hi' record (recordsOf after)
  rw [← hfull, ← hi, Nat.max_eq_left hhot, overheadAfter?_job hhot _ hbetween hown hvalid,
    openWindow_recordsOf hhot hbefore, straddledBaseline?_nil] at hyieldFull
  rw [← hfull, ← hi, ← hkept, Nat.max_eq_left hhot, List.drop_append_of_le_length hlost,
    overheadAfter?_job hhot _ hbetween hown hvalid] at hyieldKept
  rw [hyieldFull, hyieldKept, (Option.map_injective (overheadOf_injective _ _)).eq_iff]
  constructor
  · exact .inr
  · rintro (hnil | heq)
    · show straddledBaseline? early own = _
      rw [hnil, straddledBaseline?_nil]
    · exact heq

/-- With room for six samples the ring lets go of the cold pass of the first job only. Its hot passes
still fill a window, and the migration yields what it does in the whole run. -/
theorem yieldAt?_kept_of_six :
    ∃ p, create 4096 (smallConfig 6) = .ok p ∧ 1 ≤ (smallConfig 6).hotReads ∧
      log twoJobs 3 p = [firstJob] ++ secondJob :: [] ++ migration :: [] ∧
      let full := recordsOf (log twoJobs 3 p)
      let kept := (steps twoJobs 3 p).2.samples.map Sample.record
      full.length - kept.length = 1 ∧ 1 ≤ (recordsOf [firstJob]).length ∧
        Replay.yieldAt? 2 kept 5 = Replay.yieldAt? 2 full 6 := by
  obtain ⟨p, h⟩ : ∃ p, create 4096 (smallConfig 6) = .ok p := exists_create (by decide +kernel)
  have hlog : log twoJobs 3 p = [firstJob] ++ secondJob :: [] ++ migration :: [] := log_twoJobs h
  have hlost : (recordsOf (log twoJobs 3 p)).length -
      ((steps twoJobs 3 p).2.samples.map Sample.record).length = 1 := by
    rw [records_kept h, hlog]; rfl
  have hyield := yieldAt?_kept_eq_iff h (by decide) twoJobs 3 hlog (by simp) (by decide)
  dsimp only at hyield
  rw [hlost] at hyield
  refine ⟨p, h, by decide, hlog, hlost, by decide, (hyield (by decide)).2 (.inl ?_)⟩
  decide

/-- With room for five samples the second hot pass of the first job and the first one of the second
job make a window, and the second job is measured against its last pass alone, although all its
samples are kept. -/
theorem yieldAt?_kept_of_five :
    ∃ p, create 4096 (smallConfig 5) = .ok p ∧
      let full := recordsOf (log twoJobs 3 p)
      let kept := (steps twoJobs 3 p).2.samples.map Sample.record
      kept = full.drop 2 ∧ full = recordsOf [firstJob] ++ recordsOf [secondJob, migration] ∧
        Replay.yieldAt? 2 kept 4 = some ⟨1, 0, 700, 500⟩ ∧
        Replay.yieldAt? 2 full 6 = some ⟨1, 0, 900, 500⟩ := by
  obtain ⟨p, h⟩ : ∃ p, create 4096 (smallConfig 5) = .ok p := exists_create (by decide +kernel)
  refine ⟨p, h, ?_⟩
  rw [records_kept h, log_twoJobs h]
  exact ⟨rfl, rfl, by decide, by decide⟩

end CacheDelay.Probe
