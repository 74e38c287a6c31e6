import CacheDelay.Overhead.Saved
import CacheDelay.Proofs.Actions
import CacheDelay.Proofs.Blocks
import CacheDelay.Proofs.Bytes

/-!
# What a load finds

Values come back from their bytes, and bytes from the values that they are a whole number of
(`decode_encode`, `encode_decode`). The file of a locality has saved values if it can be read and its
bytes are a whole number of values (`savedValues?`). A load succeeds if the files of all localities
that it asks for have some, and gives these (`load_eq_ok_iff`).
-/

namespace CacheDelay.Overheads

open CacheDelay.Files CacheDelay.Files.Tree CacheDelay.Topology

variable {t t' : Tree} {w w' : World} {trace : Path} {l : Locality} {values : List Int64}

/-! ## Values as bytes -/

theorem encode_eq_flatten (values : List Int64) :
    encode values = (values.map fun v => littleEndian valueBytes v.toUInt64.toNat).flatten :=
  List.flatMap_def

theorem length_of_mem_map_littleEndian {values : List Int64} {part : List UInt8}
    (h : part ∈ values.map fun v => littleEndian valueBytes v.toUInt64.toNat) :
    part.length = valueBytes := by
  obtain ⟨v, -, rfl⟩ := List.mem_map.1 h
  exact length_littleEndian ..

/-- Values come back from their bytes. -/
theorem decode_encode (values : List Int64) : decode (encode values) = values := by
  show (wholeBlocks valueBytes (encode values)).map _ = values
  rw [encode_eq_flatten, wholeBlocks_flatten (by decide) fun _ => length_of_mem_map_littleEndian,
    List.map_map]
  refine List.map_id'' (fun v => ?_) values
  show (UInt64.ofNat (ofLittleEndian (littleEndian 8 v.toUInt64.toNat))).toInt64 = v
  rw [ofNat_ofLittleEndian_uint64, Int64.toInt64_toUInt64]

/-- Whole values are decoded without loss. -/
theorem encode_decode {bytes : List UInt8} (h : bytes.length % valueBytes = 0) :
    encode (decode bytes) = bytes := by
  have hblock : ∀ block ∈ wholeBlocks valueBytes bytes,
      littleEndian valueBytes (UInt64.ofNat (ofLittleEndian block)).toInt64.toUInt64.toNat =
        block := by
    intro block hblock
    have hlength : block.length = valueBytes := length_of_mem_wholeBlocks hblock
    have hlt : ofLittleEndian block < 2 ^ 64 := by
      have := ofLittleEndian_lt block
      rwa [hlength] at this
    rw [UInt64.toUInt64_toInt64, UInt64.toNat_ofNat_of_lt' hlt, ← hlength,
      littleEndian_ofLittleEndian]
  show ((wholeBlocks valueBytes bytes).map _).flatMap _ = bytes
  rw [List.flatMap_map, List.flatMap_congr hblock, List.flatMap_id',
    ← chunks_of_dvd (by decide) (Nat.dvd_of_mod_eq_zero h), flatten_chunks (by decide)]

theorem length_encode_mod (values : List Int64) : (encode values).length % valueBytes = 0 := by
  rw [← length_leftover, encode_eq_flatten,
    leftover_flatten (by decide) fun _ => length_of_mem_map_littleEndian, List.length_nil]

/-! ## Values in files -/

/-- The values in the file for the overheads of `trace` with locality `l`, if it has some. -/
def savedValues? (t : Tree) (trace : Path) (l : Locality) : Option (List Int64) :=
  (t.read (savedPath trace l)).toOption.bind fun bytes =>
    if bytes.length % valueBytes = 0 then some (decode bytes) else none

theorem savedValues?_eq_some_iff : savedValues? t trace l = some values ↔
    ∃ bytes, t.read (savedPath trace l) = .ok bytes ∧ bytes.length % valueBytes = 0 ∧
      decode bytes = values := by
  simp only [savedValues?, Option.bind_eq_some_iff, Option.ite_none_right_eq_some,
    Option.some.injEq]
  cases t.read (savedPath trace l) with
  | error fault => simp only [Except.toOption, reduceCtorEq, false_and]
  | ok bytes => simp only [Except.toOption, Option.some.injEq, Except.ok.injEq]

/-- A file that holds the bytes of values has these. -/
theorem savedValues?_of_read (h : t.read (savedPath trace l) = .ok (encode values)) :
    savedValues? t trace l = some values :=
  savedValues?_eq_some_iff.2 ⟨_, h, length_encode_mod values, decode_encode values⟩

/-- A file that reads as before has the values of before. -/
theorem savedValues?_congr (h : ∀ bytes,
    t'.read (savedPath trace l) = .ok bytes ↔ t.read (savedPath trace l) = .ok bytes) :
    savedValues? t' trace l = savedValues? t trace l := by
  refine Option.ext fun values => ?_
  simp only [savedValues?_eq_some_iff, h]

/-! ## Loading them -/

theorem loadEntry_eq_ok_iff : loadEntry trace l w = (.ok values, w') ↔
    savedValues? w.files trace l = some values ∧ w = w' := by
  rw [savedValues?_eq_some_iff]
  constructor
  · intro h
    obtain ⟨bytes, v, hread, hrest⟩ := Action.of_bind_eq_ok h
    obtain ⟨hbytes, rfl⟩ := Action.of_query_eq_ok (Action.of_within_eq_ok hread)
    by_cases hwhole : bytes.length % valueBytes = 0
    · rw [if_neg (not_not_intro hwhole)] at hrest
      cases hrest
      exact ⟨⟨bytes, hbytes, hwhole, rfl⟩, rfl⟩
    · rw [if_pos hwhole] at hrest
      cases hrest
  · rintro ⟨⟨bytes, hbytes, hwhole, rfl⟩, rfl⟩
    rw [loadEntry, Action.bind_of_ok (Action.read_of_ok hbytes _), if_neg (not_not_intro hwhole)]
    rfl

/-- The saved shared-L2 values, if they are asked for. -/
def loadL2? (trace : Path) (hasL2 : Bool) : Action (Option (List Int64)) :=
  if hasL2 then some <$> loadEntry trace .sameL2 else pure none

theorem load_eq (trace : Path) (hasL2 : Bool) : load trace hasL2 = (do
    let sameCpu ← loadEntry trace .sameCpu
    let sameL2? ← loadL2? trace hasL2
    let sameChip ← loadEntry trace .sameChip
    let offChip ← loadEntry trace .offChip
    pure { sameCpu, sameL2?, sameChip, offChip }) := by
  cases hasL2 <;> rfl

theorem loadL2?_eq_ok_iff {hasL2 : Bool} {values? : Option (List Int64)} :
    loadL2? trace hasL2 w = (.ok values?, w') ↔ values?.isSome = hasL2 ∧
      (∀ values, values? = some values → savedValues? w.files trace .sameL2 = some values) ∧
      w = w' := by
  cases hasL2 with
  | false =>
    constructor
    · intro h
      cases h
      exact ⟨rfl, nofun, rfl⟩
    · rintro ⟨hnone, -, rfl⟩
      cases values? with
      | none => rfl
      | some values => cases hnone
  | true =>
    constructor
    · intro h
      obtain ⟨values, hentry, rfl⟩ := Action.of_map_eq_ok h
      obtain ⟨hvalues, rfl⟩ := loadEntry_eq_ok_iff.1 hentry
      refine ⟨rfl, ?_, rfl⟩
      rintro _ ⟨⟩
      exact hvalues
    · rintro ⟨hsome, hvalues, rfl⟩
      obtain ⟨values, rfl⟩ := Option.isSome_iff_exists.1 hsome
      exact Action.map_of_ok (loadEntry_eq_ok_iff.2 ⟨hvalues values rfl, rfl⟩) some

theorem forall_get?_iff {o : Overheads} {P : Locality → List Int64 → Prop} :
    (∀ l values, o.get? l = some values → P l values) ↔
      P .sameCpu o.sameCpu ∧ (∀ values, o.sameL2? = some values → P .sameL2 values) ∧
        P .sameChip o.sameChip ∧ P .offChip o.offChip := by
  constructor
  · intro h
    exact ⟨h .sameCpu _ rfl, h .sameL2, h .sameChip _ rfl, h .offChip _ rfl⟩
  · rintro ⟨hsameCpu, hsameL2, hsameChip, hoffChip⟩ l values hget
    cases l with
    | sameL2 => exact hsameL2 values hget
    | sameCpu => exact Option.some.inj hget ▸ hsameCpu
    | sameChip => exact Option.some.inj hget ▸ hsameChip
    | offChip => exact Option.some.inj hget ▸ hoffChip

/-- Overheads whose values are in the files are loaded. -/
theorem load_of_savedValues? {o : Overheads}
    (h : ∀ l values, o.get? l = some values → savedValues? w.files trace l = some values) :
    load trace o.sameL2?.isSome w = (.ok o, w) := by
  obtain ⟨hsameCpu, hsameL2, hsameChip, hoffChip⟩ := forall_get?_iff.1 h
  rw [load_eq, Action.bind_of_ok (loadEntry_eq_ok_iff.2 ⟨hsameCpu, rfl⟩),
    Action.bind_of_ok (loadL2?_eq_ok_iff.2 ⟨rfl, hsameL2, rfl⟩),
    Action.bind_of_ok (loadEntry_eq_ok_iff.2 ⟨hsameChip, rfl⟩),
    Action.bind_of_ok (loadEntry_eq_ok_iff.2 ⟨hoffChip, rfl⟩)]
  rfl

/-- What is loaded are the values in the files, those of the shared L2 level only if they are asked
for. The world is left alone. -/
theorem load_eq_ok_iff {hasL2 : Bool} {o : Overheads} :
    load trace hasL2 w = (.ok o, w') ↔ o.sameL2?.isSome = hasL2 ∧
      (∀ l values, o.get? l = some values → savedValues? w.files trace l = some values) ∧
      w = w' := by
  constructor
  · intro h
    rw [load_eq] at h
    obtain ⟨sameCpu, _, hentry, h⟩ := Action.of_bind_eq_ok h
    obtain ⟨hsameCpu, rfl⟩ := loadEntry_eq_ok_iff.1 hentry
    obtain ⟨sameL2?, _, hentry, h⟩ := Action.of_bind_eq_ok h
    obtain ⟨hsome, hsameL2, rfl⟩ := loadL2?_eq_ok_iff.1 hentry
    obtain ⟨sameChip, _, hentry, h⟩ := Action.of_bind_eq_ok h
    obtain ⟨hsameChip, rfl⟩ := loadEntry_eq_ok_iff.1 hentry
    obtain ⟨offChip, _, hentry, h⟩ := Action.of_bind_eq_ok h
    obtain ⟨hoffChip, rfl⟩ := loadEntry_eq_ok_iff.1 hentry
    cases h
    exact ⟨hsome, forall_get?_iff.2 ⟨hsameCpu, hsameL2, hsameChip, hoffChip⟩, rfl⟩
  · rintro ⟨rfl, hvalues, rfl⟩
    exact load_of_savedValues? hvalues

theorem fst_load_eq_ok_iff {hasL2 : Bool} {o : Overheads} :
    (load trace hasL2 w).1 = .ok o ↔ o.sameL2?.isSome = hasL2 ∧
      ∀ l values, o.get? l = some values → savedValues? w.files trace l = some values := by
  simp only [Action.fst_eq_ok_iff, load_eq_ok_iff, exists_and_left, exists_eq', and_true]

end CacheDelay.Overheads
