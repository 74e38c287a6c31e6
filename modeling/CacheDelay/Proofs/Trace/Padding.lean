import CacheDelay.Proofs.Trace.Record
import Mathlib.Data.Set.Defs

/-!
# The bytes between the fields

A block of a record's size has seven bytes behind the code and four behind the CPU that belong to no
field (`IsPadding`). Encoding makes zeros of them (`getElem?_encode_of_isPadding`), so that a block
that is read and encoded again is the block with zeros there (`encode_decode`). Records therefore are
the blocks whose padding is zero, and reading tells two blocks apart by all other bytes
(`codec_up_to_padding`).
-/

namespace CacheDelay.Trace.Record

/-- Whether position `i` of a block belongs to no field. -/
def IsPadding (i : Nat) : Prop := 1 ≤ i ∧ i ≤ 7 ∨ 20 ≤ i ∧ i ≤ 23

instance (i : Nat) : Decidable (IsPadding i) := inferInstanceAs (Decidable (_ ∨ _))

/-- The block with zeros between the fields. -/
def clearPadding (block : List UInt8) : List UInt8 :=
  block.mapIdx fun i byte => if IsPadding i then 0 else byte

/-- Every byte of a block belongs to a field or to the padding. -/
theorem isField_iff_not_isPadding {i : Nat} (h : i < size) : IsField i ↔ ¬ IsPadding i := by
  unfold IsField IsPadding
  unfold size at h
  omega

theorem getElem?_clearPadding (block : List UInt8) (i : Nat) :
    (clearPadding block)[i]? = block[i]?.map fun byte => if IsPadding i then 0 else byte :=
  List.getElem?_mapIdx

/-- A block with zeros between the fields stays as it is. -/
theorem clearPadding_eq_self {block : List UInt8} (h : ∀ i, IsPadding i → block[i]? = some 0) :
    clearPadding block = block := by
  apply List.ext_getElem?
  intro i
  rw [getElem?_clearPadding]
  by_cases hi : IsPadding i
  · rw [h i hi, Option.map_some, if_pos hi]
  · simp only [if_neg hi, Option.map_id']

/-- The bytes between the fields of a record are zeros. -/
theorem getElem?_encode_of_isPadding (r : Record) {i : Nat} (h : IsPadding i) :
    r.encode[i]? = some 0 := by
  have hcode : slice r.encode 1 7 = List.replicate 7 0 := rfl
  have hcpu : slice r.encode 20 4 = List.replicate 4 0 := by
    refine slice_append_append _ ?_ List.length_replicate
    simp only [List.length_append, List.length_cons, List.length_replicate, length_littleEndian]
  rcases h with ⟨hlow, hhigh⟩ | ⟨hlow, hhigh⟩
  · have hi : i - 1 < 7 := by omega
    rw [← Nat.add_sub_cancel' hlow, ← getElem?_slice r.encode 1 hi, hcode,
      List.getElem?_replicate_of_lt hi]
  · have hi : i - 20 < 4 := by omega
    rw [← Nat.add_sub_cancel' hlow, ← getElem?_slice r.encode 20 hi, hcpu,
      List.getElem?_replicate_of_lt hi]

/-- A block that is read and encoded again has zeros between its fields, and the bytes of its
fields. -/
theorem encode_decode {block : List UInt8} (h : block.length = size) :
    (decode block).encode = clearPadding block := by
  have hfields : ∀ i, IsField i → (decode block).encode[i]? = block[i]? :=
    (decode_eq_decode_iff (length_encode _) h).1 (decode_encode _)
  apply List.ext_getElem?
  intro i
  rw [getElem?_clearPadding]
  by_cases hi : i < size
  · by_cases hpadding : IsPadding i
    · rw [getElem?_encode_of_isPadding _ hpadding, List.getElem?_eq_getElem (by rwa [h]),
        Option.map_some, if_pos hpadding]
    · rw [hfields i ((isField_iff_not_isPadding hi).2 hpadding)]
      simp only [if_neg hpadding, Option.map_id']
  · rw [List.getElem?_eq_none (by rw [length_encode]; omega),
      List.getElem?_eq_none (by rw [h]; omega), Option.map_none]

/-- The records and the blocks with zeros between the fields are the same thing. A record comes back
from the buffer that it was encoded into, whatever that held before; a block that is read and encoded
again is the block with zeros between its fields. Different records have different blocks, these are
all blocks with zeros between the fields, and blocks are read as the same record if and only if all
their other bytes agree. -/
theorem codec_up_to_padding :
    (∀ (r : Record) buffer, buffer.length = size → decode (encodeInto buffer r) = r) ∧
    (∀ block buffer, block.length = size → buffer.length = size →
      encodeInto buffer (decode block) = clearPadding block) ∧
    (∀ (r r' : Record) buffer buffer', buffer.length = size → buffer'.length = size →
      encodeInto buffer r = encodeInto buffer' r' → r = r') ∧
    (∀ block, (∃ r : Record, ∀ buffer, buffer.length = size → encodeInto buffer r = block) ↔
      block.length = size ∧ ∀ i, IsPadding i → block[i]? = some 0) ∧
    ∀ block block', block.length = size → block'.length = size →
      (decode block = decode block' ↔
        ∀ i, i < size → ¬ IsPadding i → block[i]? = block'[i]?) := by
  refine ⟨fun r buffer h => ?_, fun block buffer h hbuffer => ?_,
    fun r r' buffer buffer' h h' heq => ?_, fun block => ⟨?_, ?_⟩, fun block block' h h' => ?_⟩
  · rw [encodeInto_eq r h, decode_encode]
  · rw [encodeInto_eq _ hbuffer, encode_decode h]
  · rw [encodeInto_eq r h, encodeInto_eq r' h'] at heq
    rw [← decode_encode r, heq, decode_encode]
  · rintro ⟨r, hr⟩
    have hblock := hr (List.replicate size 0) List.length_replicate
    rw [encodeInto_eq r List.length_replicate] at hblock
    subst hblock
    exact ⟨length_encode r, fun i => getElem?_encode_of_isPadding r⟩
  · rintro ⟨hlength, hzero⟩
    refine ⟨decode block, fun buffer hbuffer => ?_⟩
    rw [encodeInto_eq _ hbuffer, encode_decode hlength, clearPadding_eq_self hzero]
  · rw [decode_eq_decode_iff h h']
    constructor
    · exact fun hfields i hi hpadding => hfields i ((isField_iff_not_isPadding hi).2 hpadding)
    · intro hbytes i hfield
      have hi := hfield.lt_size
      exact hbytes i hi ((isField_iff_not_isPadding hi).1 hfield)

/-- A record in a buffer of ones, and a block of ones, which has the fields of its own and zeros
between them. -/
theorem codec_up_to_padding_of_ones :
    let ones : List UInt8 := List.replicate 32 0xFF
    let block : List UInt8 := 0xFF :: List.replicate 7 0 ++ List.replicate 12 0xFF ++
      List.replicate 4 0 ++ List.replicate 8 0xFF
    ones.length = size ∧ block.length = size ∧
      decode (encodeInto ones ⟨80, 0x0102030405060708, 0x0A0B0C0D, 77⟩) =
        ⟨80, 0x0102030405060708, 0x0A0B0C0D, 77⟩ ∧
      encodeInto ones (decode ones) = block ∧ decode ones = decode block := by
  intro ones block
  have hones : ones.length = size := by decide
  have hblock : block.length = size := by decide
  obtain ⟨hrecord, hagain, -, -, hsame⟩ := codec_up_to_padding
  refine ⟨hones, hblock, hrecord _ ones hones, ?_, (hsame ones block hones hblock).2 (by decide)⟩
  rw [hagain ones ones hones hones]
  decide

end CacheDelay.Trace.Record
