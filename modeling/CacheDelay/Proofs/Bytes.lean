import CacheDelay.Bytes
import Mathlib.Algebra.Group.Nat.Defs

/-!
# Words in byte strings

A word is read back from its bytes (`ofLittleEndian_littleEndian`), and bytes that read as the same
word are the same (`ofLittleEndian_inj`), so that they are the bytes of that word
(`littleEndian_ofLittleEndian`). Reading a part of a byte string depends on the bytes of that part
only (`slice_eq_slice_iff`).
-/

namespace CacheDelay

theorem length_littleEndian (width n : Nat) : (littleEndian width n).length = width := by
  induction width generalizing n with
  | zero => rfl
  | succ width ih => rw [littleEndian, List.length_cons, ih]

theorem ofLittleEndian_lt (bytes : List UInt8) : ofLittleEndian bytes < 256 ^ bytes.length := by
  induction bytes with
  | nil => decide
  | cons b rest ih =>
    have hb := b.toNat_lt
    rw [ofLittleEndian, List.length_cons, pow_succ]
    omega

theorem ofLittleEndian_littleEndian {width n : Nat} (h : n < 256 ^ width) :
    ofLittleEndian (littleEndian width n) = n := by
  induction width generalizing n with
  | zero =>
    rw [pow_zero] at h
    rw [littleEndian, ofLittleEndian]
    omega
  | succ width ih =>
    rw [pow_succ] at h
    rw [littleEndian, ofLittleEndian, ih (by omega), UInt8.toNat_ofNat']
    omega

/-- Bytes are told apart by the words that they make. -/
theorem ofLittleEndian_inj {bytes bytes' : List UInt8} (hlength : bytes.length = bytes'.length) :
    ofLittleEndian bytes = ofLittleEndian bytes' ↔ bytes = bytes' := by
  refine ⟨fun h => ?_, fun h => h ▸ rfl⟩
  induction bytes generalizing bytes' with
  | nil => exact (List.length_eq_zero_iff.1 hlength.symm).symm
  | cons b rest ih =>
    cases bytes' with
    | nil => cases hlength
    | cons b' rest' =>
      have hb := b.toNat_lt
      have hb' := b'.toNat_lt
      rw [ofLittleEndian, ofLittleEndian] at h
      have hhead : b = b' := UInt8.toNat_inj.1 (by omega)
      rw [hhead, ih (Nat.succ.inj hlength) (by omega)]

/-- Bytes are those of the word that they make. -/
theorem littleEndian_ofLittleEndian (bytes : List UInt8) :
    littleEndian bytes.length (ofLittleEndian bytes) = bytes :=
  (ofLittleEndian_inj (length_littleEndian ..)).1
    (ofLittleEndian_littleEndian (ofLittleEndian_lt bytes))

theorem ofNat_ofLittleEndian_uint64 (x : UInt64) :
    UInt64.ofNat (ofLittleEndian (littleEndian 8 x.toNat)) = x := by
  rw [ofLittleEndian_littleEndian x.toNat_lt, UInt64.ofNat_toNat]

theorem ofNat_ofLittleEndian_uint32 (x : UInt32) :
    UInt32.ofNat (ofLittleEndian (littleEndian 4 x.toNat)) = x := by
  rw [ofLittleEndian_littleEndian x.toNat_lt, UInt32.ofNat_toNat]

/-! ## Parts of byte strings -/

theorem slice_append_append {front middle : List UInt8} (rest : List UInt8) {offset width : Nat}
    (hfront : front.length = offset) (hmiddle : middle.length = width) :
    slice (front ++ middle ++ rest) offset width = middle := by
  rw [slice, List.append_assoc, List.drop_left' hfront, List.take_left' hmiddle]

theorem length_slice {bytes : List UInt8} {offset width : Nat} (h : offset + width ≤ bytes.length) :
    (slice bytes offset width).length = width := by
  rw [slice, List.length_take, List.length_drop]
  omega

theorem getElem?_slice (bytes : List UInt8) (offset : Nat) {width i : Nat} (h : i < width) :
    (slice bytes offset width)[i]? = bytes[offset + i]? := by
  rw [slice, List.getElem?_take_of_lt h, List.getElem?_drop]

theorem slice_eq_slice_iff {bytes bytes' : List UInt8} {offset width : Nat} :
    slice bytes offset width = slice bytes' offset width ↔
      ∀ i, offset ≤ i → i < offset + width → bytes[i]? = bytes'[i]? := by
  constructor
  · intro h i hoffset hwidth
    have hi : i - offset < width := by omega
    rw [← Nat.add_sub_cancel' hoffset, ← getElem?_slice bytes offset hi, h, getElem?_slice _ _ hi]
  · intro h
    refine List.ext_getElem? fun i => ?_
    rw [slice, slice, List.getElem?_take, List.getElem?_take]
    split
    · rw [List.getElem?_drop, List.getElem?_drop]
      exact h (offset + i) (by omega) (by omega)
    · rfl

/-- A word is put in place of zeros, some of which are left before it. -/
theorem overwrite_zeros {front word : List UInt8} {offset n : Nat} (gap : Nat)
    (hoffset : front.length + gap = offset) (hn : gap + word.length ≤ n) :
    overwrite (front ++ List.replicate n 0) offset word =
      front ++ List.replicate gap 0 ++ word ++ List.replicate (n - (gap + word.length)) 0 := by
  subst hoffset
  rw [overwrite, List.take_length_add_append, List.take_replicate, Nat.add_assoc,
    List.drop_length_add_append, List.drop_replicate, Nat.min_eq_left (by omega)]

/-! ## Bytes of texts -/

theorem toList_loop_ne_nil {bytes : ByteArray} {i : Nat} {done : List UInt8} (h : done ≠ []) :
    ByteArray.toList.loop bytes i done ≠ [] := by
  induction i, done using ByteArray.toList.loop.induct bytes with
  | case1 i done hlt ih =>
    rw [ByteArray.toList.loop, if_pos hlt]
    exact ih (List.cons_ne_nil _ _)
  | case2 i done hge =>
    rw [ByteArray.toList.loop, if_neg hge]
    simpa using h

theorem toList_toUTF8_ne_nil {text : String} (h : text.utf8ByteSize ≠ 0) :
    text.toUTF8.toList ≠ [] := by
  have hpos : 0 < text.toUTF8.size := Nat.pos_of_ne_zero h
  rw [ByteArray.toList, ByteArray.toList.loop, if_pos hpos]
  exact toList_loop_ne_nil (List.cons_ne_nil _ _)

end CacheDelay
