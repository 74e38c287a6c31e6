import CacheDelay.Cli.Run
import CacheDelay.Proofs.Results
import CacheDelay.Proofs.Text.Numeral
import CacheDelay.Proofs.Trace.File
import Mathlib.Data.String.Basic

/-!
# Dumped records

The line of a record has one character for its code, whatever this is, and then three numbers
between fixed texts. It can thus be read from the front without looking for its end
(`readRecord?_append`), also where the code is a parenthesis or a line feed, and so can the lines of
all records one after the other (`readRecords?_recordLines`). What is printed of a trace therefore
tells its records (`dump_determines_records`).
-/

namespace CacheDelay.Cli

open CacheDelay.Files CacheDelay.Text

/-! ## Reading lines -/

/-- The number between `front`, with which the text begins, and the next `stop`, and what follows. -/
def readField? (limit : Nat) (front : String) (stop : Char) (text : List Char) :
    Option (Nat × List Char) := do
  let text ← text.dropPrefix? front.toList
  let (digits, rest) ← cutAt stop text
  let n ← (readNumeral limit digits).toOption
  some (n, rest)

/-- The record on the line with which the text begins, and what follows. -/
def readRecord? : List Char → Option (Trace.Record × List Char)
  | '(' :: code :: text => do
    let (elapsed, text) ← readField? maxWord64 ") - ACC " ',' text
    let (cpu, text) ← readField? maxWord32 " CPU " ',' text
    let (length, text) ← readField? maxWord64 " PLEN " '\n' text
    some (⟨.ofNat code.toNat, .ofNat elapsed, .ofNat cpu, .ofNat length⟩, text)
  | _ => none

theorem length_lt_of_readField? {limit n : Nat} {front : String} {stop : Char}
    {text rest : List Char} (h : readField? limit front stop text = some (n, rest)) :
    rest.length < text.length := by
  simp only [readField?, Option.bind_eq_bind, Option.bind_eq_some_iff, Prod.exists,
    Option.some.injEq, Prod.mk.injEq] at h
  obtain ⟨text', hfront, digits, rest', hcut, -, -, -, rfl⟩ := h
  obtain ⟨front', rfl, -⟩ := List.dropPrefix?_eq_some_iff.1 hfront
  obtain ⟨-, rfl⟩ := cutAt_eq_some_iff.1 hcut
  simp only [List.length_append, List.length_cons]
  omega

theorem length_lt_of_readRecord? {text rest : List Char} {r : Trace.Record}
    (h : readRecord? text = some (r, rest)) : rest.length < text.length := by
  unfold readRecord? at h
  split at h
  · rename_i code text
    simp only [Option.bind_eq_bind, Option.bind_eq_some_iff, Prod.exists, Option.some.injEq,
      Prod.mk.injEq] at h
    obtain ⟨elapsed, text₁, h₁, cpu, text₂, h₂, length, text₃, h₃, -, rfl⟩ := h
    have h₁ := length_lt_of_readField? h₁
    have h₂ := length_lt_of_readField? h₂
    have h₃ := length_lt_of_readField? h₃
    simp only [List.length_cons]
    omega
  · cases h

/-- The records on the lines of a text. -/
def readRecords? (text : List Char) : Option (List Trace.Record) :=
  match text with
  | [] => some []
  | c :: text =>
    match h : readRecord? (c :: text) with
    | none => none
    | some (r, rest) =>
      have : rest.length < (c :: text).length := length_lt_of_readRecord? h
      (readRecords? rest).map (r :: ·)
termination_by text.length
decreasing_by assumption

/-! ## Lines -/

theorem readField?_append {limit n : Nat} (hn : n ≤ limit) (front : String) {stop : Char}
    (hstop : stop.isDigit = false) (rest : List Char) :
    readField? limit front stop (front.toList ++ (Nat.toDigits 10 n ++ stop :: rest)) =
      some (n, rest) := by
  have hdigits : stop ∉ Nat.toDigits 10 n := by
    intro hmem
    rw [isDigit_of_mem hmem] at hstop
    cases hstop
  rw [readField?, List.dropPrefix?_append_of_beq _ (beq_self_eq_true _)]
  simp only [Option.bind_eq_bind, Option.bind_some, cutAt_append_cons hdigits,
    readNumeral_toDigits hn, Except.toOption]

/-- A code is printed as the character with its number. -/
theorem toNat_charOfCode (code : UInt8) : (Char.ofNat code.toNat).toNat = code.toNat := by
  have hvalid : code.toNat.isValidChar := .inl (code.toNat_lt.trans (by decide))
  rw [Char.ofNat, dif_pos hvalid]
  rfl

theorem toList_recordLine (r : Trace.Record) (rest : List Char) :
    (recordLine r ++ "\n").toList ++ rest = '(' :: Char.ofNat r.code.toNat ::
      (") - ACC ".toList ++ (Nat.toDigits 10 r.elapsed.toNat ++ ',' ::
        (" CPU ".toList ++ (Nat.toDigits 10 r.cpu.toNat ++ ',' ::
          (" PLEN ".toList ++ (Nat.toDigits 10 r.length.toNat ++ '\n' :: rest)))))) := by
  simp [recordLine]

/-- The line of a record is read from the front, whatever follows it. -/
theorem readRecord?_append (r : Trace.Record) (rest : List Char) :
    readRecord? ((recordLine r ++ "\n").toList ++ rest) = some (r, rest) := by
  have helapsed : r.elapsed.toNat ≤ maxWord64 := Nat.le_of_lt_succ r.elapsed.toNat_lt
  have hcpu : r.cpu.toNat ≤ maxWord32 := Nat.le_of_lt_succ r.cpu.toNat_lt
  have hlength : r.length.toNat ≤ maxWord64 := Nat.le_of_lt_succ r.length.toNat_lt
  rw [toList_recordLine, readRecord?]
  simp only [readField?_append helapsed _ (by decide : ','.isDigit = false),
    readField?_append hcpu _ (by decide : ','.isDigit = false),
    readField?_append hlength _ (by decide : '\n'.isDigit = false), Option.bind_eq_bind,
    Option.bind_some, toNat_charOfCode, UInt8.ofNat_toNat, UInt64.ofNat_toNat, UInt32.ofNat_toNat]

/-- Records are read back from their lines. -/
theorem readRecords?_recordLines (records : List Trace.Record) :
    readRecords? (recordLines records).toList = some records := by
  induction records with
  | nil => simp [recordLines, readRecords?]
  | cons r records ih =>
    have htext : (recordLines (r :: records)).toList =
        (recordLine r ++ "\n").toList ++ (recordLines records).toList := by
      simp [recordLines]
    have hread := readRecord?_append r (recordLines records).toList
    rw [htext]
    cases hline : (recordLine r ++ "\n").toList ++ (recordLines records).toList with
    | nil => simp at hline
    | cons c text =>
      rw [hline] at hread
      rw [readRecords?]
      split
      · rename_i hnone
        cases hread.symm.trans hnone
      · rename_i hsome
        cases hread.symm.trans hsome
        rw [ih]
        rfl

/-! ## Dumps -/

/-- The records of the trace, whatever stands behind the last whole one. -/
def HoldsRecords (t : Tree) (trace : Path) (records : List Trace.Record) : Prop :=
  ∃ content, Trace.contentOf t trace = .ok content ∧ Trace.recordsOf content = records

theorem holdsRecords_of_encodeAll {t : Tree} {trace : Path} {records : List Trace.Record}
    (h : t.read trace = .ok (Trace.encodeAll records)) : HoldsRecords t trace records := by
  refine ⟨_, Trace.contentOf_of_read h, ?_⟩
  rw [← List.append_nil (Trace.encodeAll records)]
  exact Trace.recordsOf_encodeAll_append records (by decide)

/-- The action succeeds, changes no file and prints the text. -/
def Prints (action : Action Unit) (w : World) (text : String) : Prop :=
  ∃ w', action w = (.ok (), w') ∧ w'.files = w.files ∧ w'.output = w.output ++ text

/-- A trace is dumped as the lines of its records. -/
theorem prints_dump {w : World} {trace : Path} {records : List Trace.Record}
    (h : HoldsRecords w.files trace records) : Prints (dump trace) w (recordLines records) := by
  obtain ⟨content, hcontent, rfl⟩ := h
  exact ⟨_, Action.bind_of_ok (Trace.read_of_contentOf w hcontent) _, rfl, rfl⟩

/-- The text printed of a trace tells its records: they can be read from it, and it is the text
printed of another trace exactly if this one holds the same records. -/
theorem dump_determines_records {w w' : World} {trace trace' : Path}
    {records records' : List Trace.Record} (h : HoldsRecords w.files trace records)
    (h' : HoldsRecords w'.files trace' records') :
    ∃ text text', Prints (dump trace) w text ∧ Prints (dump trace') w' text' ∧
      readRecords? text.toList = some records ∧ readRecords? text'.toList = some records' ∧
      (text = text' ↔ records = records') := by
  refine ⟨_, _, prints_dump h, prints_dump h', readRecords?_recordLines records,
    readRecords?_recordLines records', fun htext => ?_, fun hrecords => by rw [hrecords]⟩
  have hread := readRecords?_recordLines records
  rw [htext, readRecords?_recordLines records'] at hread
  exact (Option.some.inj hread).symm

/-- Codes that look like the end of a line, like a parenthesis, and beyond ASCII. -/
theorem dump_determines_records_of_odd_codes :
    let records : List Trace.Record := [⟨10, 5, 1, 0⟩, ⟨41, 18446744073709551615, 0, 3⟩]
    let records' : List Trace.Record := [⟨200, 5, 1, 0⟩, ⟨10, 51, 10, 3⟩]
    let path : Path := ⟨"t.raw"⟩
    HoldsRecords (Trace.worldWith (Trace.encodeAll records)).files path records ∧
      HoldsRecords (Trace.worldWith (Trace.encodeAll records')).files path records' ∧
      ∃ text text', Prints (dump path) (Trace.worldWith (Trace.encodeAll records)) text ∧
        Prints (dump path) (Trace.worldWith (Trace.encodeAll records')) text' ∧
        readRecords? text.toList = some records ∧ text ≠ text' := by
  intro records records' path
  have hfile (content : List UInt8) :
      (Trace.worldWith content).files.HasFile ⟨"t.raw"⟩ ["t.raw"] 0 content := ⟨rfl, rfl⟩
  have h := holdsRecords_of_encodeAll (hfile (Trace.encodeAll records)).read
  have h' := holdsRecords_of_encodeAll (hfile (Trace.encodeAll records')).read
  obtain ⟨text, text', hprints, hprints', hread, -, hiff⟩ := dump_determines_records h h'
  exact ⟨h, h', text, text', hprints, hprints', hread, mt hiff.1 (by decide)⟩

end CacheDelay.Cli
