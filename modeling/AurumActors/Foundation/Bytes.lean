/-
  Foundation/Bytes.lean --- words as big endian bytes, bitmaps of bytes, and
  buffers that are overwritten in place.
-/
import Mathlib.Tactic.Common
import Mathlib.Tactic.IntervalCases

set_option autoImplicit false

namespace AurumActors.Foundation

/-! ## Words from their bytes -/

/-- The byte at bit `s` of a word, put back at its place, keeps the bits of its
window. -/
theorem getLsbD_window {w : Nat} (x : BitVec w) (s i : Nat) :
    ((((x >>> s).setWidth 8).setWidth w) <<< s).getLsbD i =
      (decide (s ≤ i ∧ i < s + 8) && x.getLsbD i) := by
  rw [Bool.eq_iff_iff]
  simp only [BitVec.getLsbD_shiftLeft, BitVec.getLsbD_setWidth, BitVec.getLsbD_ushiftRight,
    Bool.and_eq_true, decide_eq_true_eq, Bool.not_eq_true', decide_eq_false_iff_not]
  constructor
  · rintro ⟨⟨hi, hs⟩, hw, h8, hx⟩
    rw [show s + (i - s) = i by omega] at hx
    exact ⟨by omega, hx⟩
  · rintro ⟨⟨hs, h8⟩, hx⟩
    have hiw : i < w := BitVec.lt_of_getLsbD hx
    refine ⟨⟨hiw, by omega⟩, by omega, by omega, ?_⟩
    rwa [show s + (i - s) = i by omega]

/-- The lowest byte, which is not shifted. -/
theorem getLsbD_window_zero {w : Nat} (x : BitVec w) (i : Nat) :
    ((x.setWidth 8).setWidth w).getLsbD i = (decide (i < 8) && x.getLsbD i) := by
  simpa using getLsbD_window x 0 i

theorem u16_of_bytes (x : UInt16) :
    (x >>> 8).toUInt8.toUInt16 <<< 8 ||| x.toUInt8.toUInt16 = x := by
  apply UInt16.toBitVec_inj.mp
  apply BitVec.eq_of_getLsbD_eq
  intro i hi
  have h8 := getLsbD_window x.toBitVec 8 i
  have h0 := getLsbD_window_zero x.toBitVec i
  change ((((x.toBitVec >>> 8).setWidth 8).setWidth 16) <<< 8 |||
    (x.toBitVec.setWidth 8).setWidth 16).getLsbD i = _
  rw [BitVec.getLsbD_or, h8, h0]
  cases x.toBitVec.getLsbD i <;> simp
  omega

theorem u32_of_bytes (x : UInt32) :
    (x >>> 24).toUInt8.toUInt32 <<< 24 ||| (x >>> 16).toUInt8.toUInt32 <<< 16 |||
      (x >>> 8).toUInt8.toUInt32 <<< 8 ||| x.toUInt8.toUInt32 = x := by
  apply UInt32.toBitVec_inj.mp
  apply BitVec.eq_of_getLsbD_eq
  intro i hi
  have h := fun s => getLsbD_window x.toBitVec s i
  have h0 := getLsbD_window_zero x.toBitVec i
  change ((((x.toBitVec >>> 24).setWidth 8).setWidth 32) <<< 24 |||
    (((x.toBitVec >>> 16).setWidth 8).setWidth 32) <<< 16 |||
    (((x.toBitVec >>> 8).setWidth 8).setWidth 32) <<< 8 |||
    (x.toBitVec.setWidth 8).setWidth 32).getLsbD i = _
  simp only [BitVec.getLsbD_or, h, h0]
  cases x.toBitVec.getLsbD i <;> simp
  omega

theorem u64_of_bytes (x : UInt64) :
    (x >>> 56).toUInt8.toUInt64 <<< 56 ||| (x >>> 48).toUInt8.toUInt64 <<< 48 |||
      (x >>> 40).toUInt8.toUInt64 <<< 40 ||| (x >>> 32).toUInt8.toUInt64 <<< 32 |||
      (x >>> 24).toUInt8.toUInt64 <<< 24 ||| (x >>> 16).toUInt8.toUInt64 <<< 16 |||
      (x >>> 8).toUInt8.toUInt64 <<< 8 ||| x.toUInt8.toUInt64 = x := by
  apply UInt64.toBitVec_inj.mp
  apply BitVec.eq_of_getLsbD_eq
  intro i hi
  have h := fun s => getLsbD_window x.toBitVec s i
  have h0 := getLsbD_window_zero x.toBitVec i
  change ((((x.toBitVec >>> 56).setWidth 8).setWidth 64) <<< 56 |||
    (((x.toBitVec >>> 48).setWidth 8).setWidth 64) <<< 48 |||
    (((x.toBitVec >>> 40).setWidth 8).setWidth 64) <<< 40 |||
    (((x.toBitVec >>> 32).setWidth 8).setWidth 64) <<< 32 |||
    (((x.toBitVec >>> 24).setWidth 8).setWidth 64) <<< 24 |||
    (((x.toBitVec >>> 16).setWidth 8).setWidth 64) <<< 16 |||
    (((x.toBitVec >>> 8).setWidth 8).setWidth 64) <<< 8 |||
    (x.toBitVec.setWidth 8).setWidth 64).getLsbD i = _
  simp only [BitVec.getLsbD_or, h, h0]
  cases x.toBitVec.getLsbD i <;> simp
  omega

/-! ## The number that bytes write -/

/-- The number that bytes write, the highest first. -/
def beNat (bytes : List UInt8) : Nat := bytes.foldl (fun n b => 256 * n + b.toNat) 0

/-- A byte at a place inside a word is not cut off. -/
theorem byte_shiftLeft_mod (b : UInt8) {s w : Nat} (h : s + 8 ≤ w) :
    b.toNat <<< s % 2 ^ w = b.toNat <<< s := by
  have hlt : b.toNat * 2 ^ s < 2 ^ 8 * 2 ^ s :=
    Nat.mul_lt_mul_of_pos_right b.toNat_lt (Nat.two_pow_pos s)
  have hle : 2 ^ 8 * 2 ^ s ≤ 2 ^ w := by
    rw [← Nat.pow_add, Nat.add_comm]
    exact Nat.pow_le_pow_right (by omega) h
  rw [Nat.shiftLeft_eq]
  exact Nat.mod_eq_of_lt (Nat.lt_of_lt_of_le hlt hle)

/-- One more byte below a number, both at their places. -/
theorem shiftLeft_or_byte (n s : Nat) (b : UInt8) :
    n <<< (s + 8) ||| b.toNat <<< s = (256 * n + b.toNat) <<< s := by
  have hb : b.toNat < 2 ^ 8 := b.toNat_lt
  rw [Nat.add_comm s 8, Nat.shiftLeft_add, ← Nat.shiftLeft_or_distrib,
    ← Nat.shiftLeft_add_eq_or_of_lt hb, Nat.shiftLeft_eq n 8]
  congr 1
  omega

theorem toNat_u16_of_bytes (a b : UInt8) :
    (a.toUInt16 <<< 8 ||| b.toUInt16).toNat = beNat [a, b] := by
  have h := shiftLeft_or_byte a.toNat 0 b
  simp only [Nat.zero_add, Nat.shiftLeft_zero] at h
  simp only [UInt16.toNat_or, UInt16.toNat_shiftLeft, UInt8.toNat_toUInt16, UInt16.reduceToNat,
    Nat.reduceMod, byte_shiftLeft_mod _ (show 8 + 8 ≤ 16 by omega), h]
  simp [beNat]

theorem toNat_u32_of_bytes (a b c d : UInt8) :
    (a.toUInt32 <<< 24 ||| b.toUInt32 <<< 16 ||| c.toUInt32 <<< 8 ||| d.toUInt32).toNat =
      beNat [a, b, c, d] := by
  have h₁ := shiftLeft_or_byte a.toNat 16 b
  have h₂ := shiftLeft_or_byte (256 * a.toNat + b.toNat) 8 c
  have h₃ := shiftLeft_or_byte (256 * (256 * a.toNat + b.toNat) + c.toNat) 0 d
  simp only [Nat.zero_add, Nat.shiftLeft_zero, Nat.reduceAdd] at h₁ h₂ h₃
  simp (disch := omega) only [UInt32.toNat_or, UInt32.toNat_shiftLeft, UInt8.toNat_toUInt32,
    UInt32.reduceToNat, Nat.reduceMod, byte_shiftLeft_mod, h₁, h₂, h₃]
  simp [beNat]

theorem toNat_u64_of_bytes (a b c d e f g h : UInt8) :
    (a.toUInt64 <<< 56 ||| b.toUInt64 <<< 48 ||| c.toUInt64 <<< 40 ||| d.toUInt64 <<< 32 |||
      e.toUInt64 <<< 24 ||| f.toUInt64 <<< 16 ||| g.toUInt64 <<< 8 ||| h.toUInt64).toNat =
      beNat [a, b, c, d, e, f, g, h] := by
  have h₁ := fun n => shiftLeft_or_byte n 48 b
  have h₂ := fun n => shiftLeft_or_byte n 40 c
  have h₃ := fun n => shiftLeft_or_byte n 32 d
  have h₄ := fun n => shiftLeft_or_byte n 24 e
  have h₅ := fun n => shiftLeft_or_byte n 16 f
  have h₆ := fun n => shiftLeft_or_byte n 8 g
  have h₇ := fun n => shiftLeft_or_byte n 0 h
  simp only [Nat.zero_add, Nat.shiftLeft_zero, Nat.reduceAdd] at h₁ h₂ h₃ h₄ h₅ h₆ h₇
  simp (disch := omega) only [UInt64.toNat_or, UInt64.toNat_shiftLeft, UInt8.toNat_toUInt64,
    UInt64.reduceToNat, Nat.reduceMod, byte_shiftLeft_mod, h₁, h₂, h₃, h₄, h₅, h₆, h₇]
  simp [beNat]

/-! ## Bytes from their word -/

theorem bytes_of_u16 (a b : UInt8) :
    ((a.toUInt16 <<< 8 ||| b.toUInt16) >>> 8).toUInt8 = a ∧
      (a.toUInt16 <<< 8 ||| b.toUInt16).toUInt8 = b := by
  have ha := a.toNat_lt
  have hb := b.toNat_lt
  simp only [← UInt8.toNat_inj, UInt16.toNat_toUInt8, UInt16.toNat_shiftRight,
    toNat_u16_of_bytes, beNat, List.foldl, UInt16.reduceToNat, Nat.reduceMod,
    Nat.shiftRight_eq_div_pow]
  omega

theorem bytes_of_u32 (a b c d : UInt8) {x : UInt32}
    (hx : x = a.toUInt32 <<< 24 ||| b.toUInt32 <<< 16 ||| c.toUInt32 <<< 8 ||| d.toUInt32) :
    (x >>> 24).toUInt8 = a ∧ (x >>> 16).toUInt8 = b ∧ (x >>> 8).toUInt8 = c ∧
      x.toUInt8 = d := by
  have ha := a.toNat_lt
  have hb := b.toNat_lt
  have hc := c.toNat_lt
  have hd := d.toNat_lt
  simp only [hx, ← UInt8.toNat_inj, UInt32.toNat_toUInt8, UInt32.toNat_shiftRight,
    toNat_u32_of_bytes, beNat, List.foldl, UInt32.reduceToNat, Nat.reduceMod,
    Nat.shiftRight_eq_div_pow]
  omega

theorem bytes_of_u64 (a b c d e f g h : UInt8) {x : UInt64}
    (hx : x = a.toUInt64 <<< 56 ||| b.toUInt64 <<< 48 ||| c.toUInt64 <<< 40 |||
      d.toUInt64 <<< 32 ||| e.toUInt64 <<< 24 ||| f.toUInt64 <<< 16 ||| g.toUInt64 <<< 8 |||
      h.toUInt64) :
    (x >>> 56).toUInt8 = a ∧ (x >>> 48).toUInt8 = b ∧ (x >>> 40).toUInt8 = c ∧
      (x >>> 32).toUInt8 = d ∧ (x >>> 24).toUInt8 = e ∧ (x >>> 16).toUInt8 = f ∧
      (x >>> 8).toUInt8 = g ∧ x.toUInt8 = h := by
  have ha := a.toNat_lt
  have hb := b.toNat_lt
  have hc := c.toNat_lt
  have hd := d.toNat_lt
  have he := e.toNat_lt
  have hf := f.toNat_lt
  have hg := g.toNat_lt
  have hh := h.toNat_lt
  simp only [hx, ← UInt8.toNat_inj, UInt64.toNat_toUInt8, UInt64.toNat_shiftRight,
    toNat_u64_of_bytes, beNat, List.foldl, UInt64.reduceToNat, Nat.reduceMod,
    Nat.shiftRight_eq_div_pow]
  omega

/-! ## Bitmaps -/

/-- The bit of a byte that position `k` of a bitmap has. -/
def bitMask (k : Nat) : UInt8 := 1 <<< (k % 8).toUInt8

theorem and_bitMask_ne_zero_iff (x : UInt8) (k : Nat) :
    x &&& bitMask k ≠ 0 ↔ x.toBitVec.getLsbD (k % 8) = true := by
  have hk : k % 8 < 8 := Nat.mod_lt _ (by omega)
  have hmask : (bitMask k).toBitVec = BitVec.twoPow 8 (k % 8) := by
    unfold bitMask
    interval_cases k % 8 <;> rfl
  rw [Ne, ← UInt8.toBitVec_inj, UInt8.toBitVec_and, hmask, BitVec.and_twoPow]
  split
  · next h =>
      simp only [h, iff_true]
      interval_cases k % 8 <;> decide
  · next h => simpa using h

/-- Setting one bit leaves the others of the byte as they are. -/
theorem or_bitMask_and (x : UInt8) (k l : Nat) :
    (x ||| bitMask k) &&& bitMask l ≠ 0 ↔ k % 8 = l % 8 ∨ x &&& bitMask l ≠ 0 := by
  have hk : k % 8 < 8 := Nat.mod_lt _ (by omega)
  have hl : l % 8 < 8 := Nat.mod_lt _ (by omega)
  have hmask : (bitMask k).toBitVec.getLsbD (l % 8) = decide (k % 8 = l % 8) := by
    unfold bitMask
    interval_cases k % 8 <;> interval_cases l % 8 <;> rfl
  rw [and_bitMask_ne_zero_iff, and_bitMask_ne_zero_iff, UInt8.toBitVec_or, BitVec.getLsbD_or,
    hmask, Bool.or_eq_true, decide_eq_true_eq]
  tauto

/-- Whether position `k` of a bitmap is set. -/
def bitSet (bits : List UInt8) (k : Nat) : Prop := (bits.getD (k / 8) 0) &&& bitMask k ≠ 0

instance (bits : List UInt8) (k : Nat) : Decidable (bitSet bits k) :=
  inferInstanceAs (Decidable (_ ≠ _))

theorem bitSet_set_iff {bits : List UInt8} {k : Nat} (hk : k / 8 < bits.length) (l : Nat) :
    bitSet (bits.set (k / 8) (bits.getD (k / 8) 0 ||| bitMask k)) l ↔ l = k ∨ bitSet bits l := by
  unfold bitSet
  by_cases hq : k / 8 = l / 8
  · have hget : (bits.set (k / 8) (bits.getD (k / 8) 0 ||| bitMask k)).getD (l / 8) 0 =
        bits.getD (l / 8) 0 ||| bitMask k := by
      simp [List.getD_eq_getElem?_getD, hq, hq ▸ hk]
    rw [hget, or_bitMask_and]
    have : k % 8 = l % 8 ↔ l = k := by omega
    rw [this]
  · have hget : (bits.set (k / 8) (bits.getD (k / 8) 0 ||| bitMask k)).getD (l / 8) 0 =
        bits.getD (l / 8) 0 := by
      simp [List.getD_eq_getElem?_getD, List.getElem?_set_ne hq]
    rw [hget]
    have : l ≠ k := by rintro rfl; exact hq rfl
    simp [this]

theorem not_bitSet_replicate (n k : Nat) : ¬ bitSet (List.replicate n 0) k := by
  have : (List.replicate n (0 : UInt8)).getD (k / 8) 0 = 0 := by
    simp only [List.getD_eq_getElem?_getD, List.getElem?_replicate]
    split <;> rfl
  simp only [bitSet, this, UInt8.zero_and, ne_eq, not_true_eq_false, not_false_eq_true]

/-! ## Overwriting in place -/

/-- The front of `buf` overwritten with as many of the bytes as it has room for. -/
def overlay {α : Type*} (buf bytes : List α) : List α :=
  bytes.take buf.length ++ buf.drop bytes.length

@[simp] theorem length_overlay {α : Type*} (buf bytes : List α) :
    (overlay buf bytes).length = buf.length := by
  simp [overlay]
  omega

theorem getElem?_overlay {α : Type*} (buf bytes : List α) {k : Nat} (hk : k < buf.length) :
    (overlay buf bytes)[k]? = if k < bytes.length then bytes[k]? else buf[k]? := by
  unfold overlay
  by_cases hb : k < bytes.length
  · rw [List.getElem?_append_left (by simp; omega), List.getElem?_take_of_lt hk, if_pos hb]
  · rw [List.getElem?_append_right (by simp; omega), List.getElem?_drop, if_neg hb]
    congr 1
    simp
    omega

/-- Two overwritings are one, in which the later bytes come first. -/
theorem overlay_overlay_append {α : Type*} (buf first second : List α) :
    overlay (overlay buf first) second = overlay buf (second ++ first.drop second.length) := by
  apply List.ext_getElem?
  intro k
  by_cases hk : k < buf.length
  · rw [getElem?_overlay _ _ (by simpa using hk), getElem?_overlay _ _ hk,
      getElem?_overlay _ _ hk]
    by_cases hs : k < second.length
    · rw [if_pos hs, if_pos (by simp; omega), List.getElem?_append_left hs]
    · have hdrop : (second ++ first.drop second.length)[k]? = first[k]? := by
        rw [List.getElem?_append_right (by omega), List.getElem?_drop]
        congr 1
        omega
      rw [if_neg hs, hdrop]
      by_cases hf : k < first.length
      · rw [if_pos hf, if_pos (by simp; omega)]
      · rw [if_neg hf, if_neg (by simp; omega)]
  · rw [List.getElem?_eq_none (by simpa using Nat.le_of_not_lt hk),
      List.getElem?_eq_none (by simpa using Nat.le_of_not_lt hk)]

/-- Bytes hide what at most as many bytes wrote before. -/
theorem overlay_overlay_of_le {α : Type*} (buf : List α) {first second : List α}
    (h : first.length ≤ second.length) :
    overlay (overlay buf first) second = overlay buf second := by
  rw [overlay_overlay_append, List.drop_of_length_le h, List.append_nil]

/-- The slice `start..stop` of `buf` overwritten with `bytes`, after which its
first `keep` elements are put back. -/
def receiveAt {α : Type*} (buf bytes : List α) (start stop keep : Nat) : List α :=
  let slice := (buf.drop start).take (stop - start)
  buf.take start ++ overlay (overlay slice bytes) (slice.take keep) ++ buf.drop stop

theorem length_receiveAt {α : Type*} (buf bytes : List α) {start stop keep : Nat}
    (hs : start ≤ stop) (hstop : stop ≤ buf.length) :
    (receiveAt buf bytes start stop keep).length = buf.length := by
  simp [receiveAt]
  omega

/-- Only the elements after the kept ones, and before the end of the slice and
of the bytes, are new. -/
theorem getElem?_receiveAt {α : Type*} (buf bytes : List α) {start stop keep k : Nat}
    (hs : start + keep ≤ stop) (hstop : stop ≤ buf.length) :
    (receiveAt buf bytes start stop keep)[k]? =
      if start + keep ≤ k ∧ k < min stop (start + bytes.length) then bytes[k - start]?
      else buf[k]? := by
  unfold receiveAt
  have hslice : ((buf.drop start).take (stop - start)).length = stop - start := by
    simp
    omega
  have hpre : (buf.take start).length = start := by
    simp
    omega
  rw [List.append_assoc]
  by_cases hks : k < start
  · rw [List.getElem?_append_left (by omega), List.getElem?_take_of_lt hks, if_neg (by omega)]
  rw [List.getElem?_append_right (by omega), hpre]
  by_cases hke : k < stop
  · -- inside the slice: the kept elements, then the bytes, then what was there
    have hold : ((buf.drop start).take (stop - start))[k - start]? = buf[k]? := by
      rw [List.getElem?_take_of_lt (by omega), List.getElem?_drop]
      congr 1
      omega
    rw [List.getElem?_append_left (by rw [length_overlay, length_overlay, hslice]; omega),
      getElem?_overlay _ _ (by rw [length_overlay, hslice]; omega),
      getElem?_overlay _ _ (by rw [hslice]; omega), hold, List.length_take, hslice]
    by_cases hh : k - start < keep
    · rw [if_pos (by omega), List.getElem?_take_of_lt hh, hold, if_neg (by omega)]
    · rw [if_neg (by omega)]
      by_cases hd : k - start < bytes.length
      · rw [if_pos hd, if_pos (by omega)]
      · rw [if_neg hd, if_neg (by omega)]
  · rw [List.getElem?_append_right (by rw [length_overlay, length_overlay, hslice]; omega),
      length_overlay, length_overlay, hslice, List.getElem?_drop, if_neg (by omega)]
    congr 1
    omega

end AurumActors.Foundation
