import CacheDelay.Proofs.Bytes
import CacheDelay.Proofs.Results
import CacheDelay.Proofs.Status.Publication
import CacheDelay.Status.SharedMemory
import Mathlib.Data.List.Basic
import Mathlib.Data.List.Induction

/-!
# Stores and the page they show

A store succeeds exactly if it is `Accepted`, and then changes its own bytes only
(`store_eq_ok_iff`, `byteAt_write`). After any stores each byte is that of the last accepted store
that covers it (`byteAt_after`), and the page shows the words at the offsets of its fields
(`snapshot_eq`). A page that was stored is shown as long as no accepted store touches a field of it
(`snapshot_after_store`).
-/

namespace CacheDelay.Status

/-! ## Bytes of values -/

theorem Stored.length_encode (value : Stored) : value.encode.length = value.width := by
  cases value <;>
    simp only [encode, ControlPage.encode, width, pageBytes, List.length_append, List.length_cons,
      List.length_nil, length_littleEndian]

theorem ControlPage.slice_encode (p : ControlPage) (f : Field) :
    slice p.encode f.offset f.width = littleEndian f.width (p.toSnapshot.field f) := by
  cases f <;> rfl

theorem Snapshot.field_lt (s : Snapshot) (f : Field) : s.field f < 256 ^ f.width := by
  cases f with
  | cpu => exact s.cpu.toNat_lt
  | _ => exact UInt64.toNat_lt _

theorem ControlPage.decode_encode (p : ControlPage) : Snapshot.decode p.encode = p.toSnapshot := by
  have hfield (f : Field) :
      ofLittleEndian (slice p.encode f.offset f.width) = p.toSnapshot.field f := by
    rw [p.slice_encode, ofLittleEndian_littleEndian (p.toSnapshot.field_lt f)]
  rw [Snapshot.decode, funext hfield, Snapshot.ofFields_field]

namespace SharedMemory

variable {m m' : SharedMemory} {offset width i : Nat} {value : Stored}

/-! ## One store -/

/-- A value fits into memory of `size` bytes at an aligned offset. -/
def Accepted (size offset : Nat) (value : Stored) : Prop :=
  offset + value.width ≤ Text.maxWord64 ∧ offset + value.width ≤ size ∧ value.alignment ∣ offset

instance (size offset : Nat) (value : Stored) : Decidable (Accepted size offset value) :=
  inferInstanceAs (Decidable (_ ∧ _ ∧ _))

theorem store_eq_ok_iff : m.store offset value = .ok m' ↔
    Accepted m.size offset value ∧ m' = m.write offset value.encode := by
  simp only [store, ite_error_eq_ok_iff, Except.ok.injEq, ne_eq, not_lt, not_not, Accepted,
    Nat.dvd_iff_mod_eq_zero, and_assoc, eq_comm (a := m')]

theorem byteAt_write (m : SharedMemory) (offset : Nat) (bytes : List UInt8) (i : Nat) :
    (m.write offset bytes).byteAt i =
      if offset ≤ i then (bytes[i - offset]?).getD (m.byteAt i) else m.byteAt i :=
  rfl

/-- The memory after a store was tried. One that fails leaves it as it is. -/
def attempt (m : SharedMemory) (entry : Nat × Stored) : SharedMemory :=
  match m.store entry.1 entry.2 with
  | .ok m' => m'
  | .error _ => m

theorem attempt_of_accepted {entry : Nat × Stored} (h : Accepted m.size entry.1 entry.2) :
    m.attempt entry = m.write entry.1 entry.2.encode := by
  rw [attempt, store_eq_ok_iff.2 ⟨h, rfl⟩]

theorem attempt_of_not_accepted {entry : Nat × Stored} (h : ¬Accepted m.size entry.1 entry.2) :
    m.attempt entry = m := by
  rw [attempt]
  split
  next hm => exact (h (store_eq_ok_iff.1 hm).1).elim
  next => rfl

/-! ## Any number of stores -/

/-- The memory after stores were tried, one after the other. -/
def after (m : SharedMemory) (stores : List (Nat × Stored)) : SharedMemory :=
  stores.foldl attempt m

theorem size_attempt (m : SharedMemory) (entry : Nat × Stored) :
    (m.attempt entry).size = m.size := by
  by_cases h : Accepted m.size entry.1 entry.2
  · rw [attempt_of_accepted h]
    rfl
  · rw [attempt_of_not_accepted h]

theorem size_after (m : SharedMemory) (stores : List (Nat × Stored)) :
    (m.after stores).size = m.size := by
  induction stores generalizing m with
  | nil => rfl
  | cons entry stores ih => exact (ih _).trans (m.size_attempt entry)

/-- The byte that a store into memory of `size` bytes puts at position `i`, if it succeeds and
covers that position. -/
def storedByte? (size i : Nat) (entry : Nat × Stored) : Option UInt8 :=
  if Accepted size entry.1 entry.2 ∧ entry.1 ≤ i ∧ i < entry.1 + entry.2.width then
    some (entry.2.encode.getD (i - entry.1) 0)
  else none

/-- The byte that the last store to cover position `i` left there. -/
def lastStored? (size : Nat) (stores : List (Nat × Stored)) (i : Nat) : Option UInt8 :=
  stores.reverse.findSome? (storedByte? size i)

theorem byteAt_attempt (m : SharedMemory) (entry : Nat × Stored) (i : Nat) :
    (m.attempt entry).byteAt i = (storedByte? m.size i entry).getD (m.byteAt i) := by
  have hlength := entry.2.length_encode
  by_cases haccepted : Accepted m.size entry.1 entry.2
  · rw [attempt_of_accepted haccepted, byteAt_write, storedByte?]
    by_cases hcovers : entry.1 ≤ i ∧ i < entry.1 + entry.2.width
    · rw [if_pos hcovers.1, if_pos ⟨haccepted, hcovers⟩, Option.getD_some,
        List.getD_eq_getElem?_getD, List.getElem?_eq_getElem (by omega)]
      rfl
    · have hnone : ¬(Accepted m.size entry.1 entry.2 ∧ entry.1 ≤ i ∧
          i < entry.1 + entry.2.width) := fun h => hcovers h.2
      rw [if_neg hnone, Option.getD_none]
      split
      next hfrom => rw [List.getElem?_eq_none (by omega), Option.getD_none]
      next => rfl
  · rw [attempt_of_not_accepted haccepted, storedByte?, if_neg fun h => haccepted h.1,
      Option.getD_none]

theorem lastStored?_concat (size : Nat) (stores : List (Nat × Stored)) (entry : Nat × Stored)
    (i : Nat) : lastStored? size (stores ++ [entry]) i =
      (storedByte? size i entry).or (lastStored? size stores i) := by
  rw [lastStored?, List.reverse_concat, List.findSome?_cons, lastStored?]
  cases storedByte? size i entry with
  | none => rfl
  | some byte => rfl

theorem byteAt_after (m : SharedMemory) (stores : List (Nat × Stored)) (i : Nat) :
    (m.after stores).byteAt i = (lastStored? m.size stores i).getD (m.byteAt i) := by
  induction stores using List.reverseRecOn with
  | nil => rfl
  | append_singleton stores entry ih =>
    rw [after, List.foldl_concat, byteAt_attempt, ← after, size_after, ih, lastStored?_concat,
      Option.getD_or]

/-! ## The page -/

/-- The word of `width` bytes at an offset. -/
def word (m : SharedMemory) (offset width : Nat) : Nat :=
  ofLittleEndian ((List.range width).map fun i => m.byteAt (offset + i))

theorem snapshot_eq (m : SharedMemory) :
    m.snapshot = .ofFields fun f => m.word f.offset f.width := by
  have hslice (f : Field) : slice ((List.range pageBytes).map m.byteAt) f.offset f.width =
      (List.range f.width).map fun i => m.byteAt (f.offset + i) := by
    cases f <;> rfl
  rw [snapshot, Snapshot.decode]
  exact congrArg Snapshot.ofFields (funext fun f => congrArg ofLittleEndian (hslice f))

/-- The page shows the bytes of its fields. -/
theorem snapshot_congr (h : ∀ (f : Field) i, f.offset ≤ i → i < f.offset + f.width →
    m.byteAt i = m'.byteAt i) : m.snapshot = m'.snapshot := by
  rw [snapshot_eq, snapshot_eq]
  refine congrArg Snapshot.ofFields (funext fun f => congrArg ofLittleEndian ?_)
  refine List.map_congr_left fun i hi => h f _ (Nat.le_add_right ..) ?_
  exact Nat.add_lt_add_left (List.mem_range.1 hi) _

theorem snapshot_write_page (m : SharedMemory) (p : ControlPage) :
    (m.write 0 p.encode).snapshot = p.toSnapshot := by
  have hlength : p.encode.length = pageBytes := (Stored.page p).length_encode
  have hbytes : (List.range pageBytes).map (m.write 0 p.encode).byteAt = p.encode := by
    refine List.ext_getElem (by rw [List.length_map, List.length_range, hlength]) fun i _ hi => ?_
    rw [List.getElem_map, List.getElem_range, byteAt_write, if_pos i.zero_le, Nat.sub_zero,
      List.getElem?_eq_getElem hi, Option.getD_some]
  rw [snapshot, hbytes, p.decode_encode]

/-- A store has a byte in common with a field of the page. -/
def Touches (entry : Nat × Stored) (f : Field) : Prop :=
  entry.1 < f.offset + f.width ∧ f.offset < entry.1 + entry.2.width

instance (entry : Nat × Stored) (f : Field) : Decidable (Touches entry f) :=
  inferInstanceAs (Decidable (_ ∧ _))

theorem storedByte?_of_not_touches {size : Nat} {entry : Nat × Stored} {f : Field}
    (h : ¬Touches entry f) (hlow : f.offset ≤ i) (hhigh : i < f.offset + f.width) :
    storedByte? size i entry = none := by
  rw [storedByte?, if_neg]
  rintro ⟨-, hfrom, hto⟩
  exact h ⟨hfrom.trans_lt hhigh, hlow.trans_lt hto⟩

theorem snapshot_after_of_not_touches {later : List (Nat × Stored)}
    (h : ∀ entry ∈ later, Accepted m.size entry.1 entry.2 → ∀ f, ¬Touches entry f) :
    (m.after later).snapshot = m.snapshot := by
  refine snapshot_congr fun f i hlow hhigh => ?_
  have hnone : lastStored? m.size later i = none := by
    refine List.findSome?_eq_none_iff.2 fun entry hentry => ?_
    by_cases haccepted : Accepted m.size entry.1 entry.2
    · exact storedByte?_of_not_touches (h entry (List.mem_reverse.1 hentry) haccepted f) hlow hhigh
    · exact if_neg fun hi => haccepted hi.1
  rw [byteAt_after, hnone, Option.getD_none]

/-! ## New memory -/

theorem eq_of_create_eq_ok {name : String} {bytes : Nat} (h : create name bytes = .ok m) :
    ∃ size, wholePages bytes = .ok size ∧ size ≠ 0 ∧ m = ⟨size, fun _ => 0⟩ := by
  rw [create, bind_eq_ok_iff] at h
  obtain ⟨size, hsize, h⟩ := h
  split at h
  next => cases h
  next =>
    simp only [ite_error_eq_ok_iff] at h
    obtain ⟨-, -, hpos, -, hm⟩ := h
    exact ⟨size, mapError_eq_ok_iff.1 hsize, hpos, (Except.ok.inj hm).symm⟩

/-- New memory has at least a page, which is zero. -/
theorem of_create_eq_ok {name : String} {bytes : Nat} (h : create name bytes = .ok m) :
    memoryPage ≤ m.size ∧ ∀ i, m.byteAt i = 0 := by
  obtain ⟨size, hsize, hpos, rfl⟩ := eq_of_create_eq_ok h
  obtain ⟨-, hsize⟩ := ite_error_eq_ok_iff.1 hsize
  have hdvd : memoryPage ∣ size := Except.ok.inj hsize ▸ Nat.dvd_mul_left ..
  exact ⟨Nat.le_of_dvd (Nat.pos_of_ne_zero hpos) hdvd, fun _ => rfl⟩

/-- After any stores into new memory, a store succeeds exactly if it fits and is aligned, and
changes its own bytes if it does and nothing if it fails. Each byte is that of the last store that
succeeded and covers it, the page shows the words at the offsets of its fields, and a page that was
stored is shown as long as no store that succeeds touches a field of it. -/
theorem snapshot_after_stores {name : String} {bytes : Nat} (h : create name bytes = .ok m)
    (stores : List (Nat × Stored)) :
    (∀ offset value, (∃ m', (m.after stores).store offset value = .ok m') ↔
      offset + value.width ≤ Text.maxWord64 ∧ offset + value.width ≤ m.size ∧
        value.alignment ∣ offset) ∧
    (∀ entry i, ((m.after stores).attempt entry).byteAt i =
      if Accepted m.size entry.1 entry.2 ∧ entry.1 ≤ i ∧ i < entry.1 + entry.2.width then
        entry.2.encode.getD (i - entry.1) 0
      else (m.after stores).byteAt i) ∧
    (∀ i, (m.after stores).byteAt i = (lastStored? m.size stores i).getD 0) ∧
    (m.after stores).snapshot =
      { jobCount := .ofNat ((m.after stores).word 0 8)
        schedCount := .ofNat ((m.after stores).word 8 8)
        cpu := .ofNat ((m.after stores).word 16 4)
        lastTask := .ofNat ((m.after stores).word 24 8)
        preemptStart := .ofNat ((m.after stores).word 32 8)
        preemptEnd := .ofNat ((m.after stores).word 40 8) } ∧
    ∀ (s : Snapshot) (later : List (Nat × Stored)),
      (∀ entry ∈ later, Accepted m.size entry.1 entry.2 → ∀ f, ¬Touches entry f) →
        (m.after (stores ++ (0, .page s) :: later)).snapshot = s := by
  obtain ⟨hsize, hzero⟩ := of_create_eq_ok h
  refine ⟨fun offset value => ?_, fun entry i => ?_, fun i => ?_, snapshot_eq _,
    fun s later hlater => ?_⟩
  · rw [← size_after m stores]
    exact ⟨fun ⟨m', hm'⟩ => (store_eq_ok_iff.1 hm').1,
      fun haccepted => ⟨_, store_eq_ok_iff.2 ⟨haccepted, rfl⟩⟩⟩
  · rw [byteAt_attempt, size_after, storedByte?]
    split <;> rfl
  · rw [byteAt_after, hzero]
  · have hpage : Accepted (m.after stores).size 0 (.page s) := by
      rw [size_after]
      have hword : 0 + pageBytes ≤ Text.maxWord64 := by decide
      have hfits : 0 + pageBytes ≤ memoryPage := by decide
      exact ⟨hword, hfits.trans hsize, Nat.dvd_zero _⟩
    have hlater' : ∀ entry ∈ later,
        Accepted ((m.after stores).attempt (0, .page s)).size entry.1 entry.2 →
          ∀ f, ¬Touches entry f := by
      rwa [size_attempt, size_after]
    rw [after, List.foldl_append, List.foldl_cons]
    exact (snapshot_after_of_not_touches hlater').trans
      ((congrArg snapshot (attempt_of_accepted hpage)).trans (snapshot_write_page _ s))

theorem create_status : create "status" 48 = .ok ⟨4096, fun _ => 0⟩ := by
  have hname : "status".toUTF8.toList.findIdx? (· == 0) = none := by decide +kernel
  have hlength : ¬maxNameBytes < "status".utf8ByteSize := by decide +kernel
  simp only [create, hname, if_neg hlength]
  rfl

/-- After a page was stored over a word, words behind the page and in its padding do not change what
it shows, nor does a misaligned one in its first fields. -/
theorem snapshot_after_stores_beside_fields :
    ∃ m, create "status" 48 = .ok m ∧
      (∀ entry ∈ [(48, .word64 5), (20, .word32 9), (4, .word64 1)],
        Accepted m.size entry.1 entry.2 → ∀ f, ¬Touches entry f) ∧
      (m.after ([(8, .word64 7)] ++ (0, .page (⟨5, 9, 3, 42, 100, 180⟩ : Snapshot)) ::
        [(48, .word64 5), (20, .word32 9), (4, .word64 1)])).snapshot =
          ⟨5, 9, 3, 42, 100, 180⟩ := by
  have hlater : ∀ entry ∈ [(48, .word64 5), (20, .word32 9), (4, .word64 1)],
      Accepted 4096 entry.1 entry.2 → ∀ f, ¬Touches entry f := by
    intro entry hentry haccepted f
    simp only [List.mem_cons, List.not_mem_nil, or_false] at hentry
    rcases hentry with rfl | rfl | rfl
    · cases f <;> decide
    · cases f <;> decide
    · exact absurd haccepted (by decide)
  exact ⟨_, create_status, hlater, (snapshot_after_stores create_status _).2.2.2.2 _ _ hlater⟩

end SharedMemory

end CacheDelay.Status
