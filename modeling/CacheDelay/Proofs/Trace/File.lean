import CacheDelay.Proofs.Actions
import CacheDelay.Proofs.Files.Rewritten
import CacheDelay.Proofs.Trace.Record

/-!
# Appending to traces

An open trace takes records at its end, however they are cut into blocks (`appends_append`), and a
trace that is used several times takes what each use wrote (`forM_run`). If only whole records stood
in it before, it means all of these records in order, and less than a record behind them is ignored
(`read_of_uses`). A record that a writer left unfinished is not ignored once more is written: the
records behind it are read from where it began, and come out as they were written only if no byte of
their fields shows it (`read_write_iff`).
-/

namespace CacheDelay.Trace

open CacheDelay.Files CacheDelay.Files.Tree

variable {t : Tree} {world : World} {path : Path} {place : Location} {number : Nat}
  {content : List UInt8}

/-! ## Writing -/

/-- The action appends bytes to a file that is open, and changes nothing else in `t`. -/
def Appends (t : Tree) (handle : Handle) (action : Action Unit) (bytes : List UInt8) : Prop :=
  ∀ content world, t.WithFile handle.place handle.number content world.files →
    ∃ files, action world = (.ok (), { world with files }) ∧
      t.WithFile handle.place handle.number (content ++ bytes) files

/-- Actions that append, one after the other. -/
theorem Appends.forM {α : Type} {handle : Handle} {action : α → Action Unit}
    {bytes : α → List UInt8} (h : ∀ item, Appends t handle (action item) (bytes item))
    (items : List α) : Appends t handle (items.forM action) (items.flatMap bytes) := by
  induction items with
  | nil =>
    intro content world hfile
    exact ⟨world.files, rfl, by rwa [List.flatMap_nil, List.append_nil]⟩
  | cons item items ih =>
    intro content world hfile
    obtain ⟨files, hitem, hfiles⟩ := h item content world hfile
    obtain ⟨files', hitems, hfiles'⟩ := ih _ { world with files } hfiles
    refine ⟨files', (Action.bind_of_ok hitem _).trans hitems, ?_⟩
    rwa [List.flatMap_cons, ← List.append_assoc]

theorem appends_update (handle : Handle) (bytes : List UInt8) (context : Context) :
    Appends t handle ((Action.update (·.appendTo handle bytes)).within context) bytes := by
  intro content world hfile
  obtain ⟨files, happend, hfiles⟩ := hfile.appendTo bytes
  exact ⟨files, Action.within_of_ok (Action.update_of_ok happend) context, hfiles⟩

/-- An open trace takes records at its end. -/
theorem appends_append (writer : Writer) (records : List Record) :
    Appends t writer.handle (writer.append records) (encodeAll records) := by
  have hblock : ∀ block, Appends t writer.handle (writer.appendBlock block) (encodeAll block) := by
    intro block
    rw [Writer.appendBlock, encodeThrough_eq List.length_replicate]
    exact appends_update writer.handle (encodeAll block) (.writeTrace writer.path)
  have hblocks := Appends.forM hblock (chunks writeBlock records)
  rwa [← encodeAll_flatten, flatten_chunks (by decide)] at hblocks

theorem Writer.create_of_ok {handle : Handle} {files : Tree}
    (h : world.files.openNew path = .ok (handle, files)) :
    Writer.create path world = (.ok ⟨path, handle⟩, { world with files }) :=
  Action.bind_of_ok (Action.within_of_ok (Action.openNew_of_ok h) _) _

theorem Writer.of_create_eq_ok {world' : World} {writer : Writer}
    (h : Writer.create path world = (.ok writer, world')) :
    ∃ handle files, world.files.openNew path = .ok (handle, files) ∧
      world' = { world with files } ∧ writer = ⟨path, handle⟩ := by
  obtain ⟨handle, v, hopen, hpure⟩ := Action.of_bind_eq_ok h
  obtain ⟨files, hopened, rfl⟩ := Action.of_openNew_eq_ok (Action.of_within_eq_ok hopen)
  cases hpure
  exact ⟨handle, files, hopened, rfl, rfl⟩

/-- How a trace is written: by a write of its own, or by appends of several batches through one open
file. -/
inductive Use where
  | single (records : List Record)
  | session (batches : List (List Record))

/-- Uses the trace at `path`. -/
def Use.run (path : Path) : Use → Action Unit
  | .single records => write path records
  | .session batches => do
    let writer ← Writer.create path
    batches.forM writer.append

/-- The records that a use writes, in order. -/
def Use.records : Use → List Record
  | .single records => records
  | .session batches => batches.flatten

theorem Use.writable_of_run_eq_ok {world' : World} (use : Use)
    (h : use.run path world = (.ok (), world')) : world.files.Writable path := by
  have hcreate : ∃ writer v, Writer.create path world = (.ok writer, v) := by
    cases use with
    | single records | session batches =>
      obtain ⟨writer, v, hcreate, -⟩ := Action.of_bind_eq_ok h
      exact ⟨writer, v, hcreate⟩
  obtain ⟨writer, v, hcreate⟩ := hcreate
  obtain ⟨handle, files, hopen, -⟩ := Writer.of_create_eq_ok hcreate
  exact exists_openNew_iff.1 ⟨handle, files, hopen⟩

/-- A use appends its records to what the trace holds when it is opened. -/
theorem Use.run_of_opens (world : World) (h : world.files.Opens path content) (use : Use) :
    ∃ files, use.run path world = (.ok (), { world with files }) ∧
      files.Opens path (content ++ encodeAll use.records) ∧
      files.Keeps path (content ++ encodeAll use.records) := by
  have hwritable := h.writable
  obtain ⟨place, number, opened, hopen, hplace, hfile⟩ := h
  let writer : Writer := ⟨path, ⟨place, number⟩⟩
  have hcreate : Writer.create path world = (.ok writer, { world with files := opened }) :=
    Writer.create_of_ok hopen
  cases use with
  | single records =>
    obtain ⟨files, hrun, hfiles⟩ :=
      appends_append writer records content { world with files := opened } hfile
    exact ⟨files, (Action.bind_of_ok hcreate _).trans hrun,
      hfiles.opens hplace hwritable, hfiles.keeps hplace⟩
  | session batches =>
    obtain ⟨files, hrun, hfiles⟩ :=
      Appends.forM (appends_append writer) batches content { world with files := opened } hfile
    rw [← encodeAll_flatten] at hfiles
    exact ⟨files, (Action.bind_of_ok hcreate _).trans hrun,
      hfiles.opens hplace hwritable, hfiles.keeps hplace⟩

/-- Uses of a trace, one after the other. -/
theorem forM_run (world : World) (h : world.files.Opens path content) (uses : List Use) :
    ∃ files, uses.forM (Use.run path) world = (.ok (), { world with files }) ∧
      files.Opens path (content ++ encodeAll (uses.flatMap Use.records)) := by
  induction uses generalizing content world with
  | nil =>
    refine ⟨world.files, rfl, ?_⟩
    rwa [List.flatMap_nil, encodeAll, List.flatMap_nil, List.append_nil]
  | cons use uses ih =>
    obtain ⟨files, hrun, hopens, -⟩ := use.run_of_opens world h
    obtain ⟨files', hruns, hfiles'⟩ := ih { world with files } hopens
    refine ⟨files', (Action.bind_of_ok hrun _).trans hruns, ?_⟩
    rwa [List.flatMap_cons, encodeAll_append, ← List.append_assoc]

/-! ## Reading -/

/-- The warning on reading a trace with the given content, if any. -/
def tornWarnings (path : Path) (content : List UInt8) : List Warning :=
  if content.length % Record.size ≠ 0 then
    [.trailingBytes path (content.length % Record.size) (content.length / Record.size)]
  else []

/-- The content of a trace, as far as its length goes. -/
def contentOf (t : Tree) (path : Path) : Except FileFault (List UInt8) := do
  t.contentAt (← t.locate path)

theorem contentOf_eq_ok_iff : contentOf t path = .ok content ↔
    ∃ place, t.locate path = .ok place ∧ t.contentAt place = .ok content := bind_eq_ok_iff

theorem contentOf_of_read (h : t.read path = .ok content) : contentOf t path = .ok content := by
  obtain ⟨place, hplace, hall⟩ := read_eq_ok_iff.1 h
  exact contentOf_eq_ok_iff.2 ⟨place, hplace, contentAt_of_allAt hall⟩

/-- A trace that denotes no written place has the content that it had. -/
theorem contentOf_iff_of_rewritesOnly {t' : Tree} {written : Location → Prop}
    (h : t.RewritesOnly written t') (hpath : ∀ place, written place → ¬ t.Denotes path place) :
    contentOf t' path = .ok content ↔ contentOf t path = .ok content := by
  rw [contentOf_eq_ok_iff, contentOf_eq_ok_iff]
  refine exists_congr fun place => ?_
  rw [h.locate_iff path hpath]
  refine and_congr_right fun hplace => ?_
  simp only [contentAt, h.node?_of_locate hpath hplace]

/-- A trace that has a content gives its records, and no file is changed. -/
theorem read_of_contentOf (world : World) (h : contentOf world.files path = .ok content) :
    read path world = (.ok (recordsOf content),
      { world with warnings := world.warnings ++ tornWarnings path content }) := by
  obtain ⟨place, hplace, hcontent⟩ := contentOf_eq_ok_iff.1 h
  have hlocate : (Action.query (·.locate path)).within (.openTrace path) world =
      (.ok place, world) := Action.within_of_ok (Action.query_of_ok hplace) _
  have hread : (Action.query (·.contentAt place)).within (.readTrace path) world =
      (.ok content, world) := Action.within_of_ok (Action.query_of_ok hcontent) _
  refine (Action.bind_of_ok hlocate _).trans ((Action.bind_of_ok hread _).trans ?_)
  rw [tornWarnings]
  split
  · rfl
  · rw [List.append_nil]
    rfl

theorem read_of_keeps (world : World) (h : world.files.Keeps path content) :
    read path world = (.ok (recordsOf content),
      { world with warnings := world.warnings ++ tornWarnings path content }) :=
  read_of_contentOf world (contentOf_of_read h.read)

/-- A trace that was read has a content. -/
theorem of_read_eq_ok {world' : World} {records : List Record}
    (h : read path world = (.ok records, world')) :
    ∃ content, contentOf world.files path = .ok content := by
  obtain ⟨place, v, hlocate, hrest⟩ := Action.of_bind_eq_ok h
  obtain ⟨hplace, rfl⟩ := Action.of_query_eq_ok (Action.of_within_eq_ok hlocate)
  obtain ⟨content, u, hread, -⟩ := Action.of_bind_eq_ok hrest
  obtain ⟨hcontent, -⟩ := Action.of_query_eq_ok (Action.of_within_eq_ok hread)
  exact ⟨content, contentOf_eq_ok_iff.2 ⟨place, hplace, hcontent⟩⟩

/-- Appends bytes to the file at `path`, as another program may do. -/
def appendBytes (path : Path) (bytes : List UInt8) : Action Unit := do
  let handle ← Action.openNew path
  Action.update (·.appendTo handle bytes)

theorem appendBytes_run (world : World) (h : world.files.Opens path content)
    (bytes : List UInt8) :
    ∃ files, appendBytes path bytes world = (.ok (), { world with files }) ∧
      files.Keeps path (content ++ bytes) := by
  obtain ⟨place, number, opened, hopen, hplace, hfile⟩ := h
  obtain ⟨files, happend, hfiles⟩ := hfile.appendTo bytes
  refine ⟨files, ?_, hfiles.keeps hplace⟩
  refine (Action.bind_of_ok (Action.openNew_of_ok hopen) _).trans ?_
  exact Action.update_of_ok happend

/-! ## Reading what was written -/

/-- A world whose only file is `t.raw`, with the given content. -/
def worldWith (content : List UInt8) : World :=
  { files := { workingDirectory := [], entries := [.file ["t.raw"] 0 content], fresh := 1 }
    warnings := [], output := "" }

/-- The uses of a trace, and bytes that are left behind them. -/
def usesThenBytes (path : Path) (uses : List Use) (tail : List UInt8) : Action Unit := do
  uses.forM (Use.run path)
  appendBytes path tail

theorem writable_of_usesThenBytes {world' : World} {uses : List Use} {tail : List UInt8}
    (h : usesThenBytes path uses tail world = (.ok (), world')) : world.files.Writable path := by
  obtain ⟨_, v, huses, htail⟩ := Action.of_bind_eq_ok h
  cases uses with
  | nil =>
    cases huses
    obtain ⟨handle, v, hopen, -⟩ := Action.of_bind_eq_ok htail
    obtain ⟨files, hopened, -⟩ := Action.of_openNew_eq_ok hopen
    exact exists_openNew_iff.1 ⟨handle, files, hopened⟩
  | cons use uses =>
    obtain ⟨_, v, huse, -⟩ := Action.of_bind_eq_ok huses
    exact use.writable_of_run_eq_ok huse

theorem exists_usesThenBytes (h : world.files.Opens path content) (uses : List Use)
    (tail : List UInt8) : ∃ files,
      usesThenBytes path uses tail world = (.ok (), { world with files }) ∧
      files.Keeps path (content ++ encodeAll (uses.flatMap Use.records) ++ tail) := by
  obtain ⟨files, huses, hopens⟩ := forM_run world h uses
  obtain ⟨files', htail, hkeeps⟩ := appendBytes_run { world with files } hopens tail
  exact ⟨files', (Action.bind_of_ok huses _).trans htail, hkeeps⟩

/-- A trace that is absent or empty can be used if it can be written. It then means what was written
to it, in order, whatever its uses, and less than a record behind that is ignored with a warning. -/
theorem read_of_uses (hplace : world.files.locateNew path = .ok place)
    (hempty : world.files.node? place = none ∨
      ∃ number, world.files.node? place = some (.file number []))
    (uses : List Use) {tail : List UInt8} (htail : tail.length < Record.size) :
    let records := uses.flatMap Use.records
    let bytes := encodeAll records ++ tail
    let warnings := if tail = [] then [] else
      [Warning.trailingBytes path tail.length records.length]
    ((∃ world', usesThenBytes path uses tail world = (.ok (), world')) ↔
      world.files.refusal? place = none) ∧
    ∀ world', usesThenBytes path uses tail world = (.ok (), world') → ∃ files,
      world' = { world with files } ∧ files.read path = .ok bytes ∧
      bytes.length = Record.size * records.length + tail.length ∧
      read path { world with files } =
        (.ok records, { world with files, warnings := world.warnings ++ warnings }) := by
  intro records bytes warnings
  have hopens (hwritable : world.files.Writable path) : world.files.Opens path [] := by
    rcases hempty with hnone | ⟨number, hfile⟩
    · exact opens_of_none hplace hwritable hnone
    · exact HasFile.opens ⟨hplace, hfile⟩ hwritable
  have hlength : bytes.length = Record.size * records.length + tail.length := by
    rw [List.length_append, length_encodeAll]
  have hwarnings : tornWarnings path bytes = warnings := by
    have hmod : bytes.length % Record.size = tail.length := by
      rw [hlength, Nat.mul_add_mod, Nat.mod_eq_of_lt htail]
    have hdiv : bytes.length / Record.size = records.length := by
      rw [hlength, Nat.mul_add_div Record.size_pos, Nat.div_eq_of_lt htail, Nat.add_zero]
    rw [tornWarnings, hmod, hdiv]
    cases tail with
    | nil => rfl
    | cons byte tail => rfl
  refine ⟨?_, fun world' h => ?_⟩
  · rw [← writable_iff hplace]
    refine ⟨fun ⟨world', h⟩ => writable_of_usesThenBytes h, fun hwritable => ?_⟩
    obtain ⟨files, hrun, -⟩ := exists_usesThenBytes (hopens hwritable) uses tail
    exact ⟨_, hrun⟩
  · obtain ⟨files, hrun, hkeeps⟩ :=
      exists_usesThenBytes (hopens (writable_of_usesThenBytes h)) uses tail
    cases hrun.symm.trans h
    rw [List.nil_append] at hkeeps
    have hread := read_of_keeps { world with files } hkeeps
    rw [recordsOf_encodeAll_append records htail, hwarnings] at hread
    exact ⟨files, rfl, hkeeps.read, hlength, hread⟩

/-- Three records written in two uses, and three bytes behind them. -/
theorem read_of_two_uses :
    let uses : List Use := [.single [⟨67, 900, 0, 0⟩], .session [[], [⟨88, 1, 2, 3⟩, ⟨72, 4, 5, 6⟩]]]
    let tail : List UInt8 := [1, 2, 3]
    (worldWith []).files.locateNew ⟨"t.raw"⟩ = .ok ["t.raw"] ∧
      (worldWith []).files.node? ["t.raw"] = some (.file 0 []) ∧ tail.length < Record.size ∧
      ∃ files,
        usesThenBytes ⟨"t.raw"⟩ uses tail (worldWith []) = (.ok (), { worldWith [] with files }) ∧
        read ⟨"t.raw"⟩ { worldWith [] with files } =
          (.ok [⟨67, 900, 0, 0⟩, ⟨88, 1, 2, 3⟩, ⟨72, 4, 5, 6⟩],
            { worldWith [] with files, warnings := [.trailingBytes ⟨"t.raw"⟩ 3 3] }) := by
  intro uses tail
  have hplace : (worldWith []).files.locateNew ⟨"t.raw"⟩ = .ok ["t.raw"] := rfl
  have htail : tail.length < Record.size := by decide
  obtain ⟨hruns, hread⟩ := read_of_uses hplace (.inr ⟨0, rfl⟩) uses htail
  obtain ⟨world', hrun⟩ := hruns.2 rfl
  obtain ⟨files, rfl, -, -, hread⟩ := hread world' hrun
  exact ⟨hplace, rfl, htail, files, hrun, hread⟩

/-- What is written behind a trace is read back, after the records of before, exactly if the trace
ended with a whole record or if the bytes that it ended with leave all bytes of fields as they are.
The records of before and the number of records are right in any case. The trace can be written
unless this is refused. -/
theorem read_write_iff (h : world.files.HasFile path place number content)
    (records : List Record) :
    let torn := leftover Record.size content
    ∃ before w₁, read path world = (.ok before, w₁) ∧
      ((∃ world', write path records world = (.ok (), world')) ↔
        world.files.refusal? place = none) ∧
      ∀ world', write path records world = (.ok (), world') → ∃ after w₂,
        read path world' = (.ok after, w₂) ∧
        (∃ added, after = before ++ added ∧ added.length = records.length) ∧
        (after = before ++ records ↔
          Record.size ∣ content.length ∨
            ∀ i, i < Record.size * records.length → Record.IsField (i % Record.size) →
              (torn ++ encodeAll records)[i]? = (encodeAll records)[i]?) := by
  intro torn
  refine ⟨recordsOf content, _, read_of_keeps world ⟨place, number, h⟩, ?_, fun world' hwrite => ?_⟩
  · rw [← writable_iff h.located]
    refine ⟨fun ⟨world', hwrite⟩ => Use.writable_of_run_eq_ok (.single records) hwrite,
      fun hwritable => ?_⟩
    obtain ⟨files, hwrite, -⟩ := Use.run_of_opens world (h.opens hwritable) (.single records)
    exact ⟨_, hwrite⟩
  have hwritable := Use.writable_of_run_eq_ok (.single records) hwrite
  obtain ⟨files, hrun, -, hkeeps⟩ :=
    Use.run_of_opens world (h.opens hwritable) (.single records)
  cases hrun.symm.trans hwrite
  have hlength : (torn ++ encodeAll records).length / Record.size = records.length := by
    rw [List.length_append, length_encodeAll, Nat.add_comm, Nat.mul_add_div Record.size_pos,
      Nat.div_eq_of_lt (length_leftover_lt Record.size_pos content), Nat.add_zero]
  refine ⟨recordsOf (content ++ encodeAll records), _,
    read_of_keeps { world with files } hkeeps, ?_, ?_⟩
  · refine ⟨recordsOf (torn ++ encodeAll records), recordsOf_append .., ?_⟩
    rw [length_recordsOf, hlength]
  · rw [recordsOf_append, List.append_cancel_left_eq, recordsOf_eq_iff hlength]
    constructor
    · exact .inr
    · rintro (hdvd | hbytes)
      · have hnil : torn = [] := leftover_of_dvd hdvd
        intro i _ _
        rw [hnil, List.nil_append]
      · exact hbytes

/-- A trace that ends with a whole record. -/
theorem read_write_of_whole :
    let old : Record := ⟨80, 7, 2, 9⟩
    let new : Record := ⟨72, 5, 1, 0⟩
    (worldWith old.encode).files.HasFile ⟨"t.raw"⟩ ["t.raw"] 0 old.encode ∧
      ∃ world' w,
        write ⟨"t.raw"⟩ [new] (worldWith old.encode) = (.ok (), world') ∧
        read ⟨"t.raw"⟩ world' = (.ok [old, new], w) := by
  intro old new
  have hfile : (worldWith old.encode).files.HasFile ⟨"t.raw"⟩ ["t.raw"] 0 old.encode := ⟨rfl, rfl⟩
  refine ⟨hfile, ?_⟩
  obtain ⟨before, _, hbefore, hwrites, hread⟩ := read_write_iff hfile [new]
  obtain ⟨world', hwrite⟩ := hwrites.2 rfl
  obtain ⟨after, w, hafter, -, hiff⟩ := hread world' hwrite
  have hold : before = [old] := by
    rw [read_of_keeps _ ⟨_, _, hfile⟩] at hbefore
    cases hbefore
    decide
  rw [hiff.2 (.inl (by decide)), hold] at hafter
  exact ⟨world', w, hwrite, hafter⟩

/-- Behind a single byte a record of 5 cycles on CPU 1 comes back as one of 1280 cycles on CPU 256. -/
theorem read_write_of_torn :
    let record : Record := ⟨72, 5, 1, 0⟩
    ∃ w₁ w₂ w₃,
      read ⟨"t.raw"⟩ (worldWith [72]) = (.ok [], w₁) ∧
      write ⟨"t.raw"⟩ [record] (worldWith [72]) = (.ok (), w₂) ∧
      read ⟨"t.raw"⟩ w₂ = (.ok [⟨72, 1280, 256, 0⟩], w₃) ∧ [⟨72, 1280, 256, 0⟩] ≠ [record] :=
  ⟨_, _, _, rfl, rfl, rfl, by decide⟩

end CacheDelay.Trace
