import Corridor.Proofs.Number.Rounding
import Mathlib

/-!
# The Encoding of Doubles

A double is a sign and a magnitude of whole units, and its bits without the sign are the place
of that magnitude among all representable ones. `Double.encode` and `Double.decode` are the two
directions; `Double.unpacked` is the form in which the arithmetic of doubles takes its operands
and leaves its results.

## Main results

* `decode_encode`, `encode_decode`: bits and representable magnitudes correspond.
* `unpack_eq_unpacked`, `pack_unpacked`: every finite double unpacks to its sign and magnitude,
  and a sign and a magnitude are packed to the double of their bits.
* `isFinite_iff`, `isInf_iff`, `isNaN_iff`: the classes of doubles by their bits.
-/

namespace Corridor.Double

open Float.Model Float.Model.UnpackedFloat

/-! ### Magnitudes and their bits -/

/-- The magnitude that bits without a sign stand for. -/
def decode (bits : ℕ) : ℕ :=
  if bits / 2 ^ 52 = 0 then bits % 2 ^ 52
  else (2 ^ 52 + bits % 2 ^ 52) * 2 ^ (bits / 2 ^ 52 - 1)

/-- The bits of a representable magnitude, as if there were no largest double. -/
def encode (u : ℕ) : ℕ := droppedBits u * 2 ^ 52 + u / 2 ^ droppedBits u

/-- The significand of a magnitude and the bits it drops make its bits. -/
theorem decode_add {q : ℕ} (s : ℕ) (hq : q < 2 ^ 53) (hs : 2 ^ 52 ≤ q ∨ s = 0) :
    decode (s * 2 ^ 52 + q) = q * 2 ^ s := by
  rw [decode]
  rcases Nat.lt_or_ge q (2 ^ 52) with h | h
  · obtain rfl : s = 0 := hs.resolve_left (by omega)
    rw [if_pos (by omega), Nat.zero_mul, Nat.zero_add, Nat.mod_eq_of_lt h, Nat.pow_zero,
      Nat.mul_one]
  · have hdiv : (s * 2 ^ 52 + q) / 2 ^ 52 = s + 1 := by omega
    have hmod : 2 ^ 52 + (s * 2 ^ 52 + q) % 2 ^ 52 = q := by omega
    rw [hdiv, hmod, if_neg (by omega), Nat.add_sub_cancel]

/-- What is left of a magnitude has at most 53 bits. -/
theorem div_droppedBits_lt (u : ℕ) : u / 2 ^ droppedBits u < 2 ^ 53 := by
  rw [Nat.div_lt_iff_lt_mul (Nat.two_pow_pos _), ← Nat.pow_add]
  exact lt_two_pow_droppedBits u

/-- What is left of a magnitude that drops bits has at least 53 bits. -/
theorem le_div_droppedBits (u : ℕ) : 2 ^ 52 ≤ u / 2 ^ droppedBits u ∨ droppedBits u = 0 := by
  by_cases h : droppedBits u = 0
  · exact .inr h
  · refine .inl ((Nat.le_div_iff_mul_le (Nat.two_pow_pos _)).mpr ?_)
    rw [← Nat.pow_add]
    exact two_pow_le_of_droppedBits h

/-- The bits of a representable magnitude stand for it. -/
theorem decode_encode {u : ℕ} (h : Representable u) : decode (encode u) = u := by
  rw [encode, decode_add _ (div_droppedBits_lt u) (le_div_droppedBits u), Nat.div_mul_cancel h]

/-- Bits are the bits of a significand and of the bits it drops. -/
theorem exists_significand (bits : ℕ) :
    ∃ s q, bits = s * 2 ^ 52 + q ∧ q < 2 ^ 53 ∧ (2 ^ 52 ≤ q ∨ s = 0) := by
  by_cases h : bits / 2 ^ 52 = 0
  · exact ⟨0, bits, by omega, by omega, .inr rfl⟩
  · exact ⟨bits / 2 ^ 52 - 1, 2 ^ 52 + bits % 2 ^ 52, by omega, by omega, .inl (by omega)⟩

/-- Bits are those of the magnitude they stand for. -/
theorem encode_decode (bits : ℕ) : encode (decode bits) = bits := by
  obtain ⟨s, q, rfl, hq, hs⟩ := exists_significand bits
  rw [encode]
  rw [decode_add s hq hs, droppedBits_mul_two_pow s hq hs, Nat.mul_div_cancel _ (Nat.two_pow_pos s)]

/-- Bits stand for a representable magnitude. -/
theorem representable_decode (bits : ℕ) : Representable (decode bits) := by
  obtain ⟨s, q, rfl, hq, hs⟩ := exists_significand bits
  rw [decode_add s hq hs]
  exact representable_mul_two_pow s hq.le hs

/-- The bits of a product of a significand, which may be the power of two beyond 53 bits. -/
theorem encode_mul_two_pow {q : ℕ} (s : ℕ) (hq : q ≤ 2 ^ 53) (hs : 2 ^ 52 ≤ q ∨ s = 0) :
    encode (q * 2 ^ s) = s * 2 ^ 52 + q := by
  rcases hq.lt_or_eq with h | rfl
  · rw [← decode_add s h hs, encode_decode]
  · have h : (2 : ℕ) ^ 53 * 2 ^ s = 2 ^ 52 * 2 ^ (s + 1) := by ring
    rw [h, ← decode_add (s + 1) (by decide) (.inl le_rfl), encode_decode]
    omega

/-- The bits of the double nearest to a quotient are those of the rounded magnitude, or of the
infinity. -/
theorem nearestBits_eq (num : ℕ) {den : ℕ} (hden : 0 < den) :
    nearestBits num den = min (encode (rounded num den)) infinityBits := by
  obtain ⟨hle, hor⟩ := roundQuotient_significand num hden
  rw [nearestBits, rounded, encode_mul_two_pow _ hle hor]

/-- Larger bits stand for larger magnitudes. -/
theorem decode_strictMono {a b : ℕ} (h : a < b) : decode a < decode b := by
  obtain ⟨s, q, rfl, hq, hs⟩ := exists_significand a
  obtain ⟨t, r, rfl, hr, ht⟩ := exists_significand b
  rw [decode_add s hq hs, decode_add t hr ht]
  rcases Nat.lt_trichotomy s t with hst | rfl | hst
  · have hr' : 2 ^ 52 ≤ r := ht.resolve_right (by omega)
    calc q * 2 ^ s < 2 ^ 53 * 2 ^ s := Nat.mul_lt_mul_of_pos_right hq (Nat.two_pow_pos s)
      _ = 2 ^ 52 * 2 ^ (s + 1) := by ring
      _ ≤ r * 2 ^ t := Nat.mul_le_mul hr' (Nat.pow_le_pow_right (by decide) hst)
  · exact Nat.mul_lt_mul_of_pos_right (by omega) (Nat.two_pow_pos s)
  · omega

/-- Bits are ordered as the magnitudes they stand for. -/
theorem decode_lt_decode {a b : ℕ} : decode a < decode b ↔ a < b := by
  refine ⟨fun h => ?_, decode_strictMono⟩
  by_contra hc
  rcases (Nat.le_of_not_lt hc).lt_or_eq with hlt | rfl
  · exact absurd (decode_strictMono hlt) (by omega)
  · exact absurd h (lt_irrefl _)

/-- One is this power of two in units. -/
def unitExponent : ℕ := 1074

theorem unitsPerOne_eq : unitsPerOne = 2 ^ unitExponent := by
  rw [unitsPerOne, show (1074 : ℕ) = unitExponent from rfl]

theorem unitsPerOne_pos : 0 < unitsPerOne := by
  rw [unitsPerOne_eq]
  exact Nat.two_pow_pos unitExponent

/-- The units of the power of two after the largest double. -/
def unitsBound : ℕ := 2 ^ (1024 + unitExponent)

theorem unitsBound_pos : 0 < unitsBound := Nat.two_pow_pos _

theorem unitsBound_eq : unitsBound = 2 ^ 1024 * unitsPerOne := by
  rw [unitsBound, Nat.pow_add, ← unitsPerOne_eq]

/-- The bits of the infinity follow those of the largest double. -/
theorem decode_infinityBits : decode infinityBits = unitsBound := by
  rw [show infinityBits = 2046 * 2 ^ 52 + 2 ^ 52 from rfl,
    decode_add 2046 (by decide) (.inl le_rfl), ← Nat.pow_add, unitsBound,
    show 1024 + unitExponent = 52 + 2046 from rfl]

/-- The magnitudes of finite doubles are the representable ones below the bound. -/
theorem encode_lt_infinityBits {u : ℕ} (h : Representable u) :
    encode u < infinityBits ↔ u < unitsBound := by
  rw [← decode_lt_decode, decode_encode h, decode_infinityBits]

/-! ### Signs and unpacked magnitudes -/

/-- The sign that a sign bit stands for. -/
def signOf (negative : Bool) : Sign := if negative then .negative else .positive

/-- A sign and a representable magnitude as the operands and results of arithmetic. -/
def unpacked (negative : Bool) (u : ℕ) : UnpackedFloat :=
  if h : u / 2 ^ droppedBits u = 0 then .zero (signOf negative)
  else .finite (signOf negative) (u / 2 ^ droppedBits u) (droppedBits u - 1074)
    (Nat.pos_of_ne_zero h)

/-- The unpacked form of a significand and of the bits it drops. -/
theorem unpacked_mul_two_pow (negative : Bool) {q : ℕ} (s : ℕ) (hq : q < 2 ^ 53)
    (hs : 2 ^ 52 ≤ q ∨ s = 0) :
    unpacked negative (q * 2 ^ s) =
      if h : q = 0 then .zero (signOf negative)
      else .finite (signOf negative) q (s - 1074) (Nat.pos_of_ne_zero h) := by
  rw [unpacked]
  simp only [droppedBits_mul_two_pow s hq hs, Nat.mul_div_cancel _ (Nat.two_pow_pos s)]

/-- No magnitude is unpacked to a zero. -/
@[simp] theorem unpacked_zero (negative : Bool) :
    unpacked negative 0 = .zero (signOf negative) := by
  simp [unpacked]

/-! ### Words -/

theorem toNat_unpackMantissa (w : BitVec Format.binary64.numBits) :
    (unpackMantissa w).toNat = w.toNat % 2 ^ 52 := by
  simp [unpackMantissa]

theorem toNat_unpackExponent (w : BitVec Format.binary64.numBits) :
    (unpackExponent w).toNat = w.toNat / 2 ^ 52 % 2 ^ 11 := by
  simp [unpackExponent, Nat.shiftRight_eq_div_pow]

theorem toNat_unpackSign (w : BitVec Format.binary64.numBits) :
    (unpackSign w).toNat = w.toNat / 2 ^ 63 := by
  have h : w.toNat < 2 ^ 64 := w.isLt
  simp only [unpackSign, BitVec.toNat_cast, BitVec.extractLsb_toNat, Nat.shiftRight_eq_div_pow]
  norm_num
  omega

theorem toNat_packComponents (s : Sign) (e : BitVec 11) (m : BitVec 52) :
    (packComponents Format.binary64 s e m).toNat =
      s.toBitVec.toNat * 2 ^ 63 + e.toNat * 2 ^ 52 + m.toNat := by
  have he := e.isLt
  have hm := m.isLt
  rw [packComponents, BitVec.toNat_append, BitVec.toNat_append, ← Nat.shiftLeft_add_eq_or_of_lt hm,
    ← Nat.shiftLeft_add_eq_or_of_lt he, Nat.shiftLeft_eq, Nat.shiftLeft_eq]
  omega

theorem signOf_unpackSign (w : BitVec Format.binary64.numBits) :
    Sign.ofBitVec (unpackSign w) = signOf (2 ^ 63 ≤ w.toNat) := by
  have hw : w.toNat < 2 ^ 64 := w.isLt
  have hs := toNat_unpackSign w
  rw [Sign.ofBitVec, signOf]
  by_cases h : 2 ^ 63 ≤ w.toNat
  · rw [if_neg, if_pos (decide_eq_true h)]
    intro h0
    rw [h0, BitVec.toNat_zero] at hs
    omega
  · rw [if_pos, if_neg (by simpa using h)]
    apply BitVec.eq_of_toNat_eq
    rw [hs, BitVec.toNat_zero]
    omega

/-- The unpacked form of a word: a sign and a magnitude, an infinity, or no number. -/
theorem unpack_of_lt {w : BitVec Format.binary64.numBits} (h : w.toNat % 2 ^ 63 < infinityBits) :
    unpack Format.binary64 w = unpacked (2 ^ 63 ≤ w.toNat) (decode (w.toNat % 2 ^ 63)) := by
  have he := toNat_unpackExponent w
  have hm := toNat_unpackMantissa w
  have hdiv : w.toNat % 2 ^ 63 / 2 ^ 52 = w.toNat / 2 ^ 52 % 2 ^ 11 := by omega
  have hmod : w.toNat % 2 ^ 63 % 2 ^ 52 = w.toNat % 2 ^ 52 := by omega
  have hexp : unpackExponent w ≠ -1#_ := by
    intro hc
    rw [hc] at he
    have : (-1#_ : BitVec Format.binary64.exponentBits).toNat = 2047 := rfl
    simp only [infinityBits] at h
    omega
  rw [UnpackedFloat.unpack]
  dsimp only
  rw [if_neg hexp, signOf_unpackSign]
  by_cases h0 : unpackExponent w = 0#_
  · -- no exponent: the fraction is the magnitude
    rw [h0, BitVec.toNat_zero] at he
    have hdec : decode (w.toNat % 2 ^ 63) = w.toNat % 2 ^ 52 * 2 ^ 0 := by
      rw [decode, if_pos (by omega), hmod, Nat.pow_zero, Nat.mul_one]
    rw [if_pos h0, hdec, unpacked_mul_two_pow _ 0 (by omega) (.inr rfl)]
    by_cases hz : unpackMantissa w = 0#_
    · rw [dif_pos hz, dif_pos (by rw [← hm, hz, BitVec.toNat_zero])]
    · rw [dif_neg hz, dif_neg (fun hc => hz (BitVec.eq_of_toNat_eq (by rw [hm, hc]; rfl)))]
      simp only [hm, h0]
      rfl
  · have hpos : 0 < (unpackExponent w).toNat := by
      rcases Nat.eq_zero_or_pos (unpackExponent w).toNat with hc | hc
      · exact absurd (BitVec.eq_of_toNat_eq (by rw [hc]; rfl)) h0
      · exact hc
    have hdec : decode (w.toNat % 2 ^ 63) =
        (2 ^ 52 + w.toNat % 2 ^ 52) * 2 ^ ((unpackExponent w).toNat - 1) := by
      rw [decode, if_neg (by omega), hmod, hdiv, he]
    rw [if_neg h0, hdec, unpacked_mul_two_pow _ _ (by omega) (.inl (by omega)),
      dif_neg (by omega)]
    have hmant : (1#1 ++ unpackMantissa w).toNat = 2 ^ 52 + w.toNat % 2 ^ 52 := by
      rw [BitVec.toNat_append, ← Nat.shiftLeft_add_eq_or_of_lt (unpackMantissa w).isLt, hm]
      rfl
    have hexp' : ((unpackExponent w).toNat : ℤ) -
        (Format.binary64.exponentBias + Format.binary64.mantissaBitsWithoutImplicit) =
        ((unpackExponent w).toNat - 1 : ℕ) - 1074 := by
      have hb : Format.binary64.exponentBias = 1023 := rfl
      rw [hb]
      push_cast [hpos]
      ring
    simp only [hmant, hexp']

theorem unpack_of_eq {w : BitVec Format.binary64.numBits} (h : w.toNat % 2 ^ 63 = infinityBits) :
    unpack Format.binary64 w = .infinity (signOf (2 ^ 63 ≤ w.toNat)) := by
  have he := toNat_unpackExponent w
  have hm := toNat_unpackMantissa w
  simp only [infinityBits] at h
  have hexp : unpackExponent w = -1#_ := by
    apply BitVec.eq_of_toNat_eq
    have : (-1#_ : BitVec Format.binary64.exponentBits).toNat = 2047 := rfl
    omega
  have hmant : unpackMantissa w = 0#_ := by
    apply BitVec.eq_of_toNat_eq
    rw [hm, BitVec.toNat_zero]
    omega
  rw [UnpackedFloat.unpack]
  dsimp only
  rw [if_pos hexp, if_pos hmant, signOf_unpackSign]

theorem unpack_of_gt {w : BitVec Format.binary64.numBits} (h : infinityBits < w.toNat % 2 ^ 63) :
    unpack Format.binary64 w = .notANumber := by
  have he := toNat_unpackExponent w
  have hm := toNat_unpackMantissa w
  simp only [infinityBits] at h
  have hexp : unpackExponent w = -1#_ := by
    apply BitVec.eq_of_toNat_eq
    have : (-1#_ : BitVec Format.binary64.exponentBits).toNat = 2047 := rfl
    omega
  have hmant : unpackMantissa w ≠ 0#_ := by
    intro hc
    rw [hc, BitVec.toNat_zero] at hm
    omega
  rw [UnpackedFloat.unpack]
  dsimp only
  rw [if_pos hexp, if_neg hmant]

/-- The word of a significand and of the bits it drops, which is that of the infinity beyond
the largest double. -/
theorem toNat_pack_finite (s : Sign) {q d : ℕ} (hpos : 0 < q) (hq : q < 2 ^ 53)
    (hd : 2 ^ 52 ≤ q ∨ d = 0) :
    (pack Format.binary64 (.finite s q (d - 1074) hpos)).toNat =
      s.toBitVec.toNat * 2 ^ 63 + min (d * 2 ^ 52 + q) infinityBits := by
  have hexp : ((d : ℤ) - 1074 + 1023 + 52).toNat = d + 1 := by omega
  rw [UnpackedFloat.pack]
  change (if 2 ^ 11 ≤ ((d : ℤ) - 1074 + 1023 + 52).toNat + 1 then
      packedInfinity Format.binary64 s
    else if q.log2 + 1 = 53 then
      packComponents Format.binary64 s (BitVec.ofNat 11 ((d : ℤ) - 1074 + 1023 + 52).toNat)
        (BitVec.ofNat 52 q)
    else packComponents Format.binary64 s 0#11 (BitVec.ofNat 52 q)).toNat = _
  rw [hexp, infinityBits]
  split_ifs with hinf hlog
  · rw [packedInfinity, toNat_packComponents,
      show (-1#_ : BitVec Format.binary64.exponentBits).toNat = 2047 from rfl]
    change s.toBitVec.toNat * 2 ^ 63 + 2047 * 2 ^ 52 + 0 = _
    omega
  · have hlow : 2 ^ 52 ≤ q := (Nat.le_log2 hpos.ne').mp (by omega)
    rw [toNat_packComponents, BitVec.toNat_ofNat, BitVec.toNat_ofNat]
    omega
  · have hlow : q < 2 ^ 52 := by
      have := (Nat.log2_lt hpos.ne').mpr hq
      exact (Nat.log2_lt hpos.ne').mp (by omega)
    rw [toNat_packComponents, BitVec.toNat_ofNat]
    change s.toBitVec.toNat * 2 ^ 63 + 0 * 2 ^ 52 + q % 2 ^ 52 = _
    omega

/-- The word of a sign and a magnitude, which is that of the infinity beyond the largest
double. -/
theorem toNat_pack_unpacked (negative : Bool) (u : ℕ) :
    (pack Format.binary64 (unpacked negative u)).toNat =
      (if negative then 2 ^ 63 else 0) + min (encode u) infinityBits := by
  have hsign : (signOf negative).toBitVec.toNat * 2 ^ 63 = if negative then 2 ^ 63 else 0 := by
    cases negative <;> rfl
  have hor := le_div_droppedBits u
  rw [← hsign, unpacked, encode]
  split_ifs with hz
  · rw [hz] at hor ⊢
    rw [hor.resolve_left (by decide)]
    change (packComponents Format.binary64 (signOf negative) 0 0).toNat = _
    rw [toNat_packComponents, show (0 : BitVec 11).toNat = 0 from rfl,
      show (0 : BitVec 52).toNat = 0 from rfl, Nat.zero_mul, Nat.zero_add, Nat.zero_min]
  · exact toNat_pack_finite _ _ (div_droppedBits_lt u) hor

/-! ### Doubles -/

/-- The bits of a double without its sign. -/
def absBits (x : Float) : ℕ := x.toBits.toNat % 2 ^ 63

theorem magnitude_eq_decode (x : Float) : magnitude x = decode (absBits x) := by
  unfold magnitude decode absBits
  dsimp only
  have hexponent : x.toBits.toNat % 2 ^ 63 / 2 ^ 52 = x.toBits.toNat / 2 ^ 52 % 2 ^ 11 := by omega
  have hmantissa : x.toBits.toNat % 2 ^ 63 % 2 ^ 52 = x.toBits.toNat % 2 ^ 52 := by omega
  rw [hexponent, hmantissa]

/-- Every finite double unpacks to its sign and magnitude. -/
theorem unpack_eq_unpacked {x : Float} (h : absBits x < infinityBits) :
    x.toModel.unpack = unpacked (isNegative x) (magnitude x) := by
  rw [magnitude_eq_decode]
  exact unpack_of_lt h

theorem unpack_eq_infinity {x : Float} (h : absBits x = infinityBits) :
    x.toModel.unpack = .infinity (signOf (isNegative x)) :=
  unpack_of_eq h

theorem unpack_eq_notANumber {x : Float} (h : infinityBits < absBits x) :
    x.toModel.unpack = .notANumber :=
  unpack_of_gt h

/-- Doubles of the same bits are the same. -/
theorem eq_of_toBits {x y : Float} (h : x.toBits.toNat = y.toBits.toNat) : x = y :=
  Float.toBits_inj.mp (UInt64.toNat_inj.mp h)

/-- Bits up to those of the infinity are kept as they are. -/
theorem toNat_toBits_ofSignedBits (negative : Bool) {b : ℕ} (h : b ≤ infinityBits) :
    (ofSignedBits negative b).toBits.toNat = (if negative then 2 ^ 63 else 0) + b := by
  have hinf : infinityBits < 2 ^ 63 := by decide
  set w : BitVec 64 := (UInt64.ofNat (if negative then 2 ^ 63 + b else b)).toBitVec with hw
  have hword : w.toNat = (if negative then 2 ^ 63 else 0) + b := by
    rw [hw, UInt64.toBitVec_ofNat', BitVec.toNat_ofNat]
    cases negative <;> simp <;> omega
  have habs : w.toNat % 2 ^ 63 = b := by
    rw [hword]
    cases negative <;> simp <;> omega
  have hsign : (decide (2 ^ 63 ≤ w.toNat)) = negative := by
    rw [hword]
    cases negative <;> simp
    omega
  change (pack Format.binary64 (unpack Format.binary64 w)).toNat = _
  rcases h.lt_or_eq with hlt | heq
  · rw [unpack_of_lt (by rwa [habs]), hsign, habs, toNat_pack_unpacked, encode_decode,
      Nat.min_eq_left h]
  · rw [unpack_of_eq (by rwa [habs]), hsign]
    change (packComponents Format.binary64 (signOf negative) (-1#11) 0).toNat = _
    rw [toNat_packComponents, heq]
    cases negative <;> rfl

/-- The double that a sign and a magnitude are packed to. -/
theorem pack_unpacked (negative : Bool) (u : ℕ) :
    Float.ofModel (Float.Model.pack (unpacked negative u)) =
      ofSignedBits negative (min (encode u) infinityBits) := by
  apply eq_of_toBits
  rw [toNat_toBits_ofSignedBits negative (Nat.min_le_right _ _)]
  exact toNat_pack_unpacked negative u

section

variable (negative : Bool) {b : ℕ} (h : b ≤ infinityBits)
include h

theorem absBits_ofSignedBits : absBits (ofSignedBits negative b) = b := by
  have hinf : infinityBits < 2 ^ 63 := by decide
  rw [absBits, toNat_toBits_ofSignedBits negative h]
  cases negative <;> simp <;> omega

theorem isNegative_ofSignedBits : isNegative (ofSignedBits negative b) = negative := by
  have hinf : infinityBits < 2 ^ 63 := by decide
  rw [isNegative, toNat_toBits_ofSignedBits negative h]
  cases negative <;> simp
  omega

end

/-! ### Classes of doubles -/

theorem isFinite_unpacked (negative : Bool) (u : ℕ) : (unpacked negative u).isFinite = true := by
  rw [unpacked]
  split_ifs <;> rfl

/-- The finite doubles are those with bits below the infinity. -/
theorem isFinite_iff {x : Float} : x.isFinite = true ↔ absBits x < infinityBits := by
  change x.toModel.unpack.isFinite = true ↔ _
  rcases Nat.lt_trichotomy (absBits x) infinityBits with h | h | h
  · simp [unpack_eq_unpacked h, isFinite_unpacked, h]
  · simp [unpack_eq_infinity h, UnpackedFloat.isFinite, h]
  · simp [unpack_eq_notANumber h, UnpackedFloat.isFinite, Nat.not_lt.mpr h.le]

theorem isInf_iff {x : Float} : x.isInf = true ↔ absBits x = infinityBits := by
  change x.toModel.unpack.isInf = true ↔ _
  rcases Nat.lt_trichotomy (absBits x) infinityBits with h | h | h
  · have : (unpacked (isNegative x) (magnitude x)).isInf = false := by
      rw [unpacked]
      split_ifs <;> rfl
    simp [unpack_eq_unpacked h, this, h.ne]
  · simp [unpack_eq_infinity h, UnpackedFloat.isInf, h]
  · simp [unpack_eq_notANumber h, UnpackedFloat.isInf, h.ne']

theorem isNaN_iff {x : Float} : x.isNaN = true ↔ infinityBits < absBits x := by
  change x.toModel.unpack.isNaN = true ↔ _
  rcases Nat.lt_trichotomy (absBits x) infinityBits with h | h | h
  · have : (unpacked (isNegative x) (magnitude x)).isNaN = false := by
      rw [unpacked]
      split_ifs <;> rfl
    simp [unpack_eq_unpacked h, this, Nat.not_lt.mpr h.le]
  · simp [unpack_eq_infinity h, UnpackedFloat.isNaN, h]
  · simp [unpack_eq_notANumber h, UnpackedFloat.isNaN, h]

/-- The magnitude of a finite double is representable and below the bound. -/
theorem magnitude_lt {x : Float} (h : x.isFinite = true) : magnitude x < unitsBound := by
  rw [magnitude_eq_decode, ← decode_infinityBits]
  exact decode_strictMono (isFinite_iff.mp h)

theorem representable_magnitude (x : Float) : Representable (magnitude x) := by
  rw [magnitude_eq_decode]
  exact representable_decode _

end Corridor.Double
