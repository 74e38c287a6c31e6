import CacheDelay.Proofs.Blocks
import CacheDelay.Proofs.Bytes
import CacheDelay.Trace.File

/-!
# Records as bytes

A record is read back from its bytes (`decode_encode`), whatever its code, and a buffer that it is
encoded into holds these bytes whatever it held before (`encodeInto_eq`). 32 bytes are read as a
record by those of its fields only (`decode_eq_decode_iff`). A file content means the records of its
whole blocks (`recordsOf_eq_map_wholeBlocks`): the blocks in which it is read leave no trace. Content
that follows others is read together with the bytes that those left over (`recordsOf_append`), and
encoded records with less than a record behind them are these records
(`recordsOf_encodeAll_append`). Any other bytes are read as given records exactly if they have the
bytes of all their fields (`recordsOf_eq_iff`).
-/

namespace CacheDelay.Trace

namespace Record

theorem size_pos : 0 < size := by decide

theorem length_encode (r : Record) : r.encode.length = size := by
  simp only [encode, List.length_append, List.length_cons, List.length_replicate,
    length_littleEndian, size]

/-- A buffer holds the bytes of the record that was encoded into it, and nothing of what it held
before. -/
theorem encodeInto_eq (r : Record) {buffer : List UInt8} (h : buffer.length = size) :
    encodeInto buffer r = r.encode := by
  have hcleared : List.replicate buffer.length (0 : UInt8) = [] ++ List.replicate 32 0 := by
    rw [h]
    rfl
  have helapsed := length_littleEndian 8 r.elapsed.toNat
  have hcpu := length_littleEndian 4 r.cpu.toNat
  have hlength := length_littleEndian 8 r.length.toNat
  -- every field is put behind the one before it, with the gap between the two
  rw [encodeInto, hcleared, overwrite_zeros 0, overwrite_zeros 7, overwrite_zeros 0,
    overwrite_zeros 4, helapsed, hcpu, hlength]
  · exact List.append_nil _
  all_goals
    simp only [List.length_append, List.length_replicate, List.length_cons, List.length_nil, helapsed,
      hcpu, hlength]
  all_goals omega

theorem decode_encode (r : Record) : decode r.encode = r := by
  have hcode : r.encode.headD 0 = r.code := rfl
  have helapsed : slice r.encode 8 8 = littleEndian 8 r.elapsed.toNat := by
    rw [encode, List.append_assoc, List.append_assoc]
    exact slice_append_append _ rfl (length_littleEndian ..)
  have hcpu : slice r.encode 16 4 = littleEndian 4 r.cpu.toNat := by
    rw [encode, List.append_assoc]
    refine slice_append_append _ ?_ (length_littleEndian ..)
    rw [List.length_append, length_littleEndian, List.length_cons, List.length_replicate]
  have hlength : slice r.encode 24 8 = littleEndian 8 r.length.toNat := by
    rw [encode, ← List.append_nil (_ ++ littleEndian 8 r.length.toNat)]
    refine slice_append_append _ ?_ (length_littleEndian ..)
    simp only [List.length_append, List.length_cons, List.length_replicate, length_littleEndian]
  rw [decode, hcode, helapsed, hcpu, hlength, ofNat_ofLittleEndian_uint64,
    ofNat_ofLittleEndian_uint32, ofNat_ofLittleEndian_uint64]

/-- Whether a field of a record has a byte at position `i`. -/
def IsField (i : Nat) : Prop := i = 0 ∨ 8 ≤ i ∧ i < 20 ∨ 24 ≤ i ∧ i < 32

theorem IsField.lt_size {i : Nat} (h : IsField i) : i < size := by
  rcases h with rfl | h | h
  · decide
  · exact Nat.lt_trans h.2 (by decide)
  · exact h.2

/-- Parts of as many bytes as a word make the same word if and only if they are the same bytes. -/
theorem word_slice_inj (bytes bytes' : List UInt8) (offset width : Nat) {bound : Nat}
    (hlength : offset + width ≤ bytes.length) (hlength' : offset + width ≤ bytes'.length)
    (hbound : bound = 256 ^ width) :
    ofLittleEndian (slice bytes offset width) % bound =
        ofLittleEndian (slice bytes' offset width) % bound ↔
      ∀ i, offset ≤ i → i < offset + width → bytes[i]? = bytes'[i]? := by
  have hlt := ofLittleEndian_lt (slice bytes offset width)
  have hlt' := ofLittleEndian_lt (slice bytes' offset width)
  rw [length_slice hlength, ← hbound] at hlt
  rw [length_slice hlength', ← hbound] at hlt'
  rw [Nat.mod_eq_of_lt hlt, Nat.mod_eq_of_lt hlt', ← slice_eq_slice_iff]
  exact ofLittleEndian_inj (by rw [length_slice hlength, length_slice hlength'])

/-- Two blocks of a record's size are read as the same record if and only if they agree on all bytes
of its fields. -/
theorem decode_eq_decode_iff {bytes bytes' : List UInt8} (hlength : bytes.length = size)
    (hlength' : bytes'.length = size) :
    decode bytes = decode bytes' ↔ ∀ i, IsField i → bytes[i]? = bytes'[i]? := by
  have hbytes : bytes.length = 32 := hlength
  have hbytes' : bytes'.length = 32 := hlength'
  have hcode : bytes.headD 0 = bytes'.headD 0 ↔ bytes[0]? = bytes'[0]? := by
    cases bytes with
    | nil => cases hlength
    | cons b rest =>
      cases bytes' with
      | nil => cases hlength'
      | cons b' rest' => simp
  have hlong : 2 ^ 64 = 256 ^ 8 := rfl
  have hshort : 2 ^ 32 = 256 ^ 4 := rfl
  have helapsed := word_slice_inj bytes bytes' 8 8 (by omega) (by omega) hlong
  have hcpu := word_slice_inj bytes bytes' 16 4 (by omega) (by omega) hshort
  have hlen := word_slice_inj bytes bytes' 24 8 (by omega) (by omega) hlong
  rw [decode, decode, mk.injEq, hcode, ← UInt64.toNat_inj, ← UInt32.toNat_inj, ← UInt64.toNat_inj,
    UInt64.toNat_ofNat', UInt64.toNat_ofNat', UInt32.toNat_ofNat', UInt32.toNat_ofNat',
    UInt64.toNat_ofNat', UInt64.toNat_ofNat', helapsed, hcpu, hlen]
  constructor
  · rintro ⟨h0, h8, h16, h24⟩ i (rfl | hi | hi)
    · exact h0
    · by_cases hlow : i < 16
      · exact h8 i (by omega) (by omega)
      · exact h16 i (by omega) (by omega)
    · exact h24 i (by omega) (by omega)
  · intro h
    exact ⟨h 0 (.inl rfl), fun i _ _ => h i (.inr (.inl ⟨by omega, by omega⟩)),
      fun i _ _ => h i (.inr (.inl ⟨by omega, by omega⟩)),
      fun i _ _ => h i (.inr (.inr ⟨by omega, by omega⟩))⟩

end Record

/-! ## Contents -/

theorem recordsOf_eq_map_wholeBlocks (content : List UInt8) :
    recordsOf content = (wholeBlocks Record.size content).map Record.decode := by
  let front := content.take (content.length / Record.size * Record.size)
  have hfront : front.length = content.length / Record.size * Record.size := by
    rw [List.length_take, Nat.min_eq_left (Nat.div_mul_le_self ..)]
  have hdvd : Record.size ∣ front.length := by
    rw [hfront]
    exact Nat.dvd_mul_left ..
  have hwhole : wholeBlocks Record.size front = wholeBlocks Record.size content := by
    have happend := blocks_append (Nat.le_of_eq hfront.symm)
      (content.drop (content.length / Record.size * Record.size))
    rw [List.take_append_drop] at happend
    rw [wholeBlocks, wholeBlocks, hfront, Nat.mul_div_cancel _ Record.size_pos, happend]
  show (chunks (readBlock * Record.size) front).flatMap (fun block =>
    (chunks Record.size block).map Record.decode) = _
  rw [← List.map_flatMap, flatMap_chunks Record.size_pos (by decide),
    chunks_of_dvd Record.size_pos hdvd, hwhole]

theorem length_recordsOf (content : List UInt8) :
    (recordsOf content).length = content.length / Record.size := by
  rw [recordsOf_eq_map_wholeBlocks, List.length_map, wholeBlocks, length_blocks]

/-- What is appended is read together with what the whole records left over. -/
theorem recordsOf_append (content more : List UInt8) :
    recordsOf (content ++ more) =
      recordsOf content ++ recordsOf (leftover Record.size content ++ more) := by
  obtain ⟨front, hcontent, hfront⟩ := exists_front Record.size content
  have hlt := length_leftover_lt Record.size_pos content
  generalize leftover Record.size content = torn at hcontent hlt
  subst hcontent
  rw [recordsOf_eq_map_wholeBlocks, recordsOf_eq_map_wholeBlocks, recordsOf_eq_map_wholeBlocks,
    List.append_assoc, wholeBlocks_append Record.size_pos hfront,
    wholeBlocks_append Record.size_pos hfront, wholeBlocks_of_lt hlt, List.append_nil,
    List.map_append]

/-- The bytes of records. -/
def encodeAll (records : List Record) : List UInt8 := records.flatMap Record.encode

theorem encodeAll_append (records more : List Record) :
    encodeAll (records ++ more) = encodeAll records ++ encodeAll more := List.flatMap_append ..

theorem encodeAll_flatten (batches : List (List Record)) :
    encodeAll batches.flatten = batches.flatMap encodeAll := by
  induction batches with
  | nil => rfl
  | cons batch batches ih => rw [List.flatten_cons, encodeAll_append, ih, List.flatMap_cons]

theorem length_encodeAll (records : List Record) :
    (encodeAll records).length = Record.size * records.length := by
  induction records with
  | nil => rfl
  | cons record records ih =>
    rw [encodeAll, List.flatMap_cons, List.length_append, Record.length_encode]
    rw [encodeAll] at ih
    rw [ih, List.length_cons, Nat.mul_succ, Nat.add_comm]

/-- Records that go through one buffer leave nothing of one in the next. -/
theorem encodeThrough_eq {buffer : List UInt8} (h : buffer.length = Record.size)
    (records : List Record) : encodeThrough buffer records = encodeAll records := by
  induction records generalizing buffer with
  | nil => rfl
  | cons record records ih =>
    show record.encodeInto buffer ++ encodeThrough (record.encodeInto buffer) records = _
    rw [record.encodeInto_eq h, ih record.length_encode]
    rfl

/-- Records with less than a record behind them are read back. -/
theorem recordsOf_encodeAll_append (records : List Record) {tail : List UInt8}
    (h : tail.length < Record.size) : recordsOf (encodeAll records ++ tail) = records := by
  have hblocks : ∀ block ∈ records.map Record.encode, block.length = Record.size := by
    intro block hmem
    obtain ⟨record, -, rfl⟩ := List.mem_map.1 hmem
    exact record.length_encode
  have hdecode : Record.decode ∘ Record.encode = id := funext Record.decode_encode
  rw [recordsOf_eq_map_wholeBlocks,
    wholeBlocks_append Record.size_pos (by rw [length_encodeAll]; exact Nat.dvd_mul_right ..),
    wholeBlocks_of_lt h, List.append_nil, encodeAll, List.flatMap_def,
    wholeBlocks_flatten Record.size_pos hblocks, List.map_map, hdecode, List.map_id]

theorem recordsOf_of_size_le {bytes : List UInt8} (h : Record.size ≤ bytes.length) :
    recordsOf bytes =
      Record.decode (bytes.take Record.size) :: recordsOf (bytes.drop Record.size) := by
  have hfront : (bytes.take Record.size).length = Record.size := by
    rw [List.length_take, Nat.min_eq_left h]
  have happend := wholeBlocks_append Record.size_pos ⟨1, by rw [hfront, Nat.mul_one]⟩
    (bytes.drop Record.size)
  rw [List.take_append_drop, wholeBlocks_of_length Record.size_pos hfront] at happend
  rw [recordsOf_eq_map_wholeBlocks, recordsOf_eq_map_wholeBlocks, happend, List.singleton_append,
    List.map_cons]

theorem forall_lt_mul_succ_iff {size n : Nat} {P : Nat → Prop} :
    (∀ i, i < size * (n + 1) → P i) ↔ (∀ i, i < size → P i) ∧ ∀ i, i < size * n → P (size + i) := by
  rw [Nat.mul_succ]
  constructor
  · intro h
    exact ⟨fun i hi => h i (by omega), fun i hi => h (size + i) (by omega)⟩
  · rintro ⟨hfirst, hothers⟩ i hi
    by_cases hlow : i < size
    · exact hfirst i hlow
    · have hother := hothers (i - size) (by omega)
      rwa [Nat.add_sub_cancel' (Nat.le_of_not_lt hlow)] at hother

/-- Bytes are read as the given records if and only if they have all the bytes of their fields. -/
theorem recordsOf_eq_iff {bytes : List UInt8} {records : List Record}
    (hlength : bytes.length / Record.size = records.length) :
    recordsOf bytes = records ↔
      ∀ i, i < Record.size * records.length → Record.IsField (i % Record.size) →
        bytes[i]? = (encodeAll records)[i]? := by
  induction records generalizing bytes with
  | nil =>
    rw [List.length_nil] at hlength
    refine ⟨fun _ i hi => absurd hi (Nat.not_lt_zero i), fun _ => ?_⟩
    rw [← List.length_eq_zero_iff, length_recordsOf, hlength]
  | cons record records ih =>
    have hsize : Record.size = 32 := rfl
    rw [List.length_cons, hsize] at hlength
    have hle : Record.size ≤ bytes.length := by omega
    have hrest : (bytes.drop Record.size).length / Record.size = records.length := by
      rw [List.length_drop, hsize]
      omega
    have hfront : (bytes.take Record.size).length = Record.size := by
      rw [List.length_take, Nat.min_eq_left hle]
    have hencode : encodeAll (record :: records) = record.encode ++ encodeAll records := rfl
    -- the first record by its own bytes, the others by the bytes behind it
    have hfirst : Record.decode (bytes.take Record.size) = record ↔
        ∀ i, Record.IsField i → (bytes.take Record.size)[i]? = record.encode[i]? := by
      rw [← Record.decode_eq_decode_iff hfront record.length_encode, record.decode_encode]
    rw [recordsOf_of_size_le hle, List.cons.injEq, ih hrest, hfirst, hencode, List.length_cons,
      forall_lt_mul_succ_iff]
    refine and_congr (forall_congr' fun i => ?_) (forall_congr' fun i => ?_)
    · by_cases hlow : i < Record.size
      · rw [Nat.mod_eq_of_lt hlow, List.getElem?_take_of_lt hlow,
          List.getElem?_append_left (by rwa [record.length_encode])]
        exact ⟨fun h _ => h, fun h => h hlow⟩
      · exact ⟨fun _ h => absurd h hlow, fun _ h => absurd h.lt_size hlow⟩
    · rw [Nat.add_mod_left, List.getElem?_drop,
        List.getElem?_append_right (by rw [record.length_encode]; omega), record.length_encode,
        Nat.add_sub_cancel_left]

end CacheDelay.Trace
