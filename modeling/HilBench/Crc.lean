import Mathlib

/-! Cyclic redundancy codes over a register of any width: a bit at a time, a byte at a time from
a table, and as the remainder of a polynomial over GF(2). -/

namespace Crc

variable {w : Nat} {poly r : BitVec w}

/-- One bit of the message. `poly` is the generator without its leading term. -/
def shift (poly r : BitVec w) (b : Bool) : BitVec w :=
  if r.msb ^^ b then (r <<< 1) ^^^ poly else r <<< 1

def feed (poly r : BitVec w) (bits : List Bool) : BitVec w := bits.foldl (shift poly) r

def msbFirst {k : Nat} (d : BitVec k) : List Bool := (List.range k).map d.getMsbD

def zeros (k : Nat) : List Bool := List.replicate k false

theorem feed_append (bits more : List Bool) :
    feed poly r (bits ++ more) = feed poly (feed poly r bits) more := List.foldl_append

theorem shift_eq (b : Bool) :
    shift poly r b = (r <<< 1) ^^^ bif r.msb ^^ b then poly else 0#w := by
  rw [shift]
  cases r.msb ^^ b <;> simp

theorem feedback_xor (x y : Bool) : (bif x ^^ y then poly else 0#w) =
    (bif x then poly else 0#w) ^^^ bif y then poly else 0#w := by
  cases x <;> cases y <;> simp

theorem shift_xor (a b : BitVec w) (x y : Bool) :
    shift poly (a ^^^ b) (x ^^ y) = shift poly a x ^^^ shift poly b y := by
  have hmsb : ((a ^^^ b).msb ^^ (x ^^ y)) = ((a.msb ^^ x) ^^ (b.msb ^^ y)) := by
    rw [BitVec.msb_xor]
    cases a.msb <;> cases b.msb <;> cases x <;> cases y <;> rfl
  rw [shift_eq, shift_eq, shift_eq, hmsb, feedback_xor, BitVec.shiftLeft_xor_distrib]
  ac_rfl

theorem feed_xor (a b : BitVec w) {x y : List Bool} (h : x.length = y.length) :
    feed poly (a ^^^ b) (x.zipWith xor y) = feed poly a x ^^^ feed poly b y := by
  induction x generalizing a b y with
  | nil =>
    cases y with
    | nil => rfl
    | cons _ _ => cases h
  | cons u x ih =>
    cases y with
    | nil => cases h
    | cons v y =>
      have hh := ih (shift poly a u) (shift poly b v) (Nat.succ.inj h)
      simp only [feed, List.zipWith_cons_cons, List.foldl_cons] at hh ⊢
      rw [shift_xor]
      exact hh

/-! A byte at a time. -/

def top : List Bool → BitVec w
  | [] => 0#w
  | b :: bits => (bif b then BitVec.intMin w else 0#w) ^^^ (top bits >>> 1)

theorem getMsbD_top (bits : List Bool) {i : Nat} (hi : i < w) :
    (top bits : BitVec w).getMsbD i = bits.getD i false := by
  induction bits generalizing i with
  | nil => simp [top]
  | cons b bits ih =>
    cases i with
    | zero => cases b <;> simp [top, hi, BitVec.getMsbD_intMin]
    | succ i =>
      have hh := ih (i := i) (by omega)
      cases b <;> simp [top, hi, hh, BitVec.getMsbD_intMin]

theorem feed_top (r : BitVec w) {bits : List Bool} (h : bits.length ≤ w) :
    feed poly r bits = feed poly (r ^^^ top bits) (zeros bits.length) := by
  induction bits generalizing r with
  | nil => simp [feed, top, zeros]
  | cons b bits ih =>
    have hlen : bits.length + 1 ≤ w := h
    have hreg : (r ^^^ top (b :: bits)) <<< 1 = (r <<< 1) ^^^ top bits := by
      apply BitVec.eq_of_getMsbD_eq
      intro i hi
      rw [BitVec.getMsbD_shiftLeft, BitVec.getMsbD_xor, BitVec.getMsbD_xor,
        BitVec.getMsbD_shiftLeft, getMsbD_top bits hi]
      by_cases hlast : i + 1 < w
      · rw [getMsbD_top _ hlast, List.getD_cons_succ]
      · rw [BitVec.getMsbD_of_ge _ _ (by omega), BitVec.getMsbD_of_ge _ _ (by omega),
          List.getD_eq_default _ _ (by omega)]
    have hmsb : (r ^^^ top (b :: bits)).msb = (r.msb ^^ b) := by
      rw [BitVec.msb_xor, BitVec.msb_eq_getMsbD_zero (top _), getMsbD_top _ (by omega),
        List.getD_cons_zero]
    have hshift : shift poly (r ^^^ top (b :: bits)) false = shift poly r b ^^^ top bits := by
      rw [shift_eq, shift_eq, hreg, hmsb, Bool.xor_false]
      ac_rfl
    calc feed poly r (b :: bits) = feed poly (shift poly r b) bits := rfl
      _ = feed poly (shift poly r b ^^^ top bits) (zeros bits.length) := ih _ (by omega)
      _ = feed poly (shift poly (r ^^^ top (b :: bits)) false) (zeros bits.length) := by rw [hshift]
      _ = feed poly (r ^^^ top (b :: bits)) (zeros (b :: bits).length) := rfl

theorem feed_low {x : BitVec w} {k : Nat} (h : ∀ i < k, x.getMsbD i = false) :
    feed poly x (zeros k) = x <<< k := by
  induction k generalizing x with
  | zero => simp [feed, zeros]
  | succ k ih =>
    have hmsb : x.msb = false := by
      rw [BitVec.msb_eq_getMsbD_zero]
      exact h 0 (by omega)
    have hshift : shift poly x false = x <<< 1 := by
      simp [shift, hmsb]
    have hh := ih (x := x <<< 1) fun i hi => by
      rw [BitVec.getMsbD_shiftLeft]
      exact h (i + 1) (by omega)
    calc feed poly x (zeros (k + 1)) = feed poly (shift poly x false) (zeros k) := rfl
      _ = (x <<< 1) <<< k := by rw [hshift, hh]
      _ = x <<< (k + 1) := by rw [← BitVec.shiftLeft_add, Nat.add_comm]

/-- The entry of a table for words of `k` bits. -/
def entry {k : Nat} (poly : BitVec w) (i : BitVec k) : BitVec w :=
  feed poly (i.setWidth w <<< (w - k)) (zeros k)

theorem msbFirst_length {k : Nat} (d : BitVec k) : (msbFirst d).length = k := by
  simp [msbFirst]

theorem top_msbFirst {k : Nat} (hk : k ≤ w) (d : BitVec k) :
    (top (msbFirst d) : BitVec w) = d.setWidth w <<< (w - k) := by
  apply BitVec.eq_of_getMsbD_eq
  intro i hi
  rw [getMsbD_top _ hi, BitVec.getMsbD_shiftLeft, BitVec.getMsbD_setWidth]
  by_cases hlt : i < k
  · have hin : i + (w - k) + k - w = i := by omega
    have hle : w - k ≤ i + (w - k) := by omega
    simp [msbFirst, hlt, hin, hle]
  · rw [List.getD_eq_default _ _ (by rw [msbFirst_length]; omega),
      BitVec.getMsbD_of_ge _ _ (by omega), Bool.and_false]

theorem feed_zeros_xor (a b : BitVec w) (k : Nat) :
    feed poly (a ^^^ b) (zeros k) = feed poly a (zeros k) ^^^ feed poly b (zeros k) := by
  have hh : feed poly (a ^^^ b) ((zeros k).zipWith xor (zeros k)) = _ := feed_xor a b rfl
  have hz : (zeros k).zipWith xor (zeros k) = zeros k := by
    simp [zeros]
  rwa [hz] at hh

theorem getMsbD_high {k : Nat} (hk : k ≤ w) (r : BitVec w) {i : Nat} (hi : i < w) :
    (((r >>> (w - k)).setWidth k).setWidth w <<< (w - k)).getMsbD i =
      (decide (i < k) && r.getMsbD i) := by
  rw [← top_msbFirst hk, getMsbD_top _ hi]
  by_cases hlt : i < k
  · have hin : i + w - k - (w - k) = i := by omega
    have hge : ¬ i + w - k < w - k := by omega
    have hw : i + w - k < w := by omega
    simp [msbFirst, hlt, BitVec.getMsbD_setWidth, BitVec.getMsbD_ushiftRight, hin, hge, hw,
      Nat.sub_eq_zero_of_le hk]
  · rw [List.getD_eq_default _ _ (by rw [msbFirst_length]; omega)]
    simp [hlt]

/-- The step of a table-driven code: the entry of the word that meets the top of the register, and
the rest of the register moved up. -/
theorem feed_entry {k : Nat} (hk : k ≤ w) (d : BitVec k) :
    feed poly r (msbFirst d) =
      (r <<< k) ^^^ entry poly ((r >>> (w - k)).setWidth k ^^^ d) := by
  let high : BitVec w := ((r >>> (w - k)).setWidth k).setWidth w <<< (w - k)
  have hhigh : ∀ i < w, high.getMsbD i = (decide (i < k) && r.getMsbD i) := fun i hi =>
    getMsbD_high hk r hi
  have hlow : feed poly (r ^^^ high) (zeros k) = r <<< k := by
    rw [feed_low]
    · apply BitVec.eq_of_getMsbD_eq
      intro i hi
      rw [BitVec.getMsbD_shiftLeft, BitVec.getMsbD_shiftLeft, BitVec.getMsbD_xor]
      by_cases hlt : i + k < w
      · rw [hhigh _ hlt]
        simp
      · rw [BitVec.getMsbD_of_ge _ _ (by omega), BitVec.getMsbD_of_ge _ _ (by omega)]
        rfl
    · intro i hi
      rw [BitVec.getMsbD_xor, hhigh i (by omega)]
      simp [hi]
  have hword : r ^^^ d.setWidth w <<< (w - k) =
      (r ^^^ high) ^^^ ((r >>> (w - k)).setWidth k ^^^ d).setWidth w <<< (w - k) := by
    rw [BitVec.setWidth_xor, BitVec.shiftLeft_xor_distrib]
    show _ = (r ^^^ high) ^^^ (high ^^^ _)
    rw [BitVec.xor_assoc, ← BitVec.xor_assoc high, BitVec.xor_self, BitVec.zero_xor]
  have hfeed : feed poly r (msbFirst d) = _ := feed_top r (by rwa [msbFirst_length])
  rw [hfeed, msbFirst_length, top_msbFirst hk, hword, feed_zeros_xor, hlow]
  rfl

/-! Bursts. A generator with a constant term loses nothing of the register in a shift. -/

theorem shift_injective (hp : poly.getLsbD 0 = true) (b : Bool) :
    Function.Injective fun r => shift poly r b := by
  intro x y h
  have hzero : shift poly (x ^^^ y) false = 0#w := by
    rw [← Bool.xor_self b, shift_xor]
    exact BitVec.xor_eq_zero_iff.mpr h
  apply BitVec.xor_eq_zero_iff.mp
  rw [shift, Bool.xor_false] at hzero
  by_cases hm : (x ^^^ y).msb = true
  · rw [if_pos hm] at hzero
    have hbit := congrArg (·.getLsbD 0) hzero
    simp [hp] at hbit
  · rw [if_neg hm] at hzero
    apply BitVec.eq_of_getMsbD_eq
    intro i hi
    cases i with
    | zero =>
      rw [← BitVec.msb_eq_getMsbD_zero]
      simpa using hm
    | succ i =>
      have hbit := congrArg (·.getMsbD i) hzero
      simpa only [BitVec.getMsbD_shiftLeft, BitVec.getMsbD_zero] using hbit

theorem feed_injective (hp : poly.getLsbD 0 = true) (bits : List Bool) :
    Function.Injective fun r => feed poly r bits := by
  induction bits with
  | nil => exact fun _ _ h => h
  | cons b bits ih => exact fun _ _ h => shift_injective hp b (ih h)

theorem top_injective {x y : List Bool} (hxy : x.length = y.length) (hx : x.length ≤ w)
    (h : (top x : BitVec w) = top y) : x = y := by
  apply List.ext_getElem hxy
  intro i hi hi'
  have hbit := congrArg (·.getMsbD i) h
  simp only [getMsbD_top _ (hi.trans_le hx)] at hbit
  rwa [List.getD_eq_getElem _ _ hi, List.getD_eq_getElem _ _ hi'] at hbit

/-- Two messages that differ within a window no longer than the register leave different
registers. -/
theorem feed_burst (hp : poly.getLsbD 0 = true) {old new : List Bool} (pre post : List Bool)
    (hlen : new.length = old.length) (hw : old.length ≤ w) (hne : new ≠ old) :
    feed poly r (pre ++ new ++ post) ≠ feed poly r (pre ++ old ++ post) := by
  intro h
  rw [feed_append, feed_append, feed_append, feed_append] at h
  have hwindow := feed_injective hp post h
  rw [feed_top _ (hlen ▸ hw), feed_top _ hw, hlen] at hwindow
  have htop := feed_injective hp (zeros old.length) hwindow
  exact hne (top_injective hlen (hlen ▸ hw) ((BitVec.xor_right_inj _).mp htop))

theorem msbFirst_append {k l : Nat} (x : BitVec k) (y : BitVec l) :
    msbFirst (x ++ y) = msbFirst x ++ msbFirst y := by
  rw [msbFirst, msbFirst, msbFirst, List.range_add, List.map_append, List.map_map]
  congr 1
  · apply List.map_congr_left
    intro i hi
    rw [BitVec.getMsbD_append, if_neg (by simpa using hi)]
  · apply List.map_congr_left
    intro i hi
    rw [Function.comp_apply, BitVec.getMsbD_append, if_pos (Nat.le_add_right k i),
      Nat.add_sub_cancel_left]

theorem msbFirst_injective {k : Nat} : Function.Injective (msbFirst (k := k)) := by
  intro x y h
  apply BitVec.eq_of_getMsbD_eq
  intro i hi
  exact List.map_inj_left.mp h i (List.mem_range.mpr hi)

/-- A message that goes on with its own code leaves nothing in the register. -/
theorem feed_self (r : BitVec w) : feed poly r (msbFirst r) = 0#w := by
  have htop : (top (msbFirst r) : BitVec w) = r := by
    rw [top_msbFirst le_rfl, Nat.sub_self, BitVec.shiftLeft_zero, BitVec.setWidth_eq]
  rw [feed_top _ (msbFirst_length r).le, htop, BitVec.xor_self, feed_low (by simp),
    BitVec.zero_shiftLeft]

/-! Polynomials over GF(2). -/

open Polynomial

def coefficient (b : Bool) : ZMod 2 := bif b then 1 else 0

theorem coefficient_xor (a b : Bool) : coefficient (a ^^ b) = coefficient a + coefficient b := by
  cases a <;> cases b <;> decide

/-- The polynomial of a register: its bit `i` is the coefficient of the `i`th power. -/
noncomputable def toPoly (r : BitVec w) : (ZMod 2)[X] :=
  ∑ i ∈ Finset.range w, C (coefficient (r.getLsbD i)) * X ^ i

noncomputable def ofBits (bits : List Bool) : (ZMod 2)[X] :=
  bits.foldl (fun q b => X * q + C (coefficient b)) 0

noncomputable def generator (poly : BitVec w) : (ZMod 2)[X] := X ^ w + toPoly poly

theorem coeff_toPoly (r : BitVec w) (i : Nat) :
    (toPoly r).coeff i = coefficient (r.getLsbD i) := by
  rw [toPoly, finsetSum_coeff]
  simp only [coeff_C_mul, coeff_X_pow, mul_ite, mul_one, mul_zero, Finset.sum_ite_eq,
    Finset.mem_range]
  by_cases hi : i < w
  · rw [if_pos hi]
  · rw [if_neg hi, BitVec.getLsbD_of_ge _ _ (by omega)]
    rfl

theorem toPoly_xor (a b : BitVec w) : toPoly (a ^^^ b) = toPoly a + toPoly b := by
  ext i
  rw [coeff_add, coeff_toPoly, coeff_toPoly, coeff_toPoly, BitVec.getLsbD_xor, coefficient_xor]

theorem degree_toPoly_lt (r : BitVec w) : (toPoly r).degree < w := by
  rw [degree_lt_iff_coeff_zero]
  intro i hi
  rw [coeff_toPoly, BitVec.getLsbD_of_ge _ _ hi]
  rfl

theorem generator_monic (poly : BitVec w) : (generator poly).Monic :=
  monic_X_pow_add (degree_toPoly_lt poly)

theorem degree_generator (poly : BitVec w) : (generator poly).degree = w := by
  have hlt : (toPoly poly).degree < (X ^ w : (ZMod 2)[X]).degree := by
    rw [degree_X_pow]
    exact degree_toPoly_lt poly
  rw [generator, degree_add_eq_left_of_degree_lt hlt, degree_X_pow]

theorem coefficient_add_self (b : Bool) : coefficient b + coefficient b = 0 := by
  cases b <;> decide

theorem toPoly_shiftLeft (hw : 0 < w) (r : BitVec w) :
    toPoly (r <<< 1) = X * toPoly r + C (coefficient r.msb) * X ^ w := by
  ext i
  rw [coeff_add, coeff_toPoly, coeff_C_mul, coeff_X_pow, BitVec.getLsbD_shiftLeft]
  cases i with
  | zero =>
    have h0 : ¬ 0 = w := by omega
    rw [coeff_X_mul_zero, if_neg h0]
    simp [coefficient]
  | succ i =>
    rw [coeff_X_mul, coeff_toPoly]
    by_cases htop : i + 1 = w
    · have hmsb : r.msb = r.getLsbD i := by
        have hi : w - 1 = i := by omega
        rw [BitVec.msb_eq_getLsbD_last, hi]
      rw [if_pos htop, hmsb, mul_one, coefficient_add_self]
      simp [htop, coefficient]
    · rw [if_neg htop, mul_zero, add_zero]
      by_cases hlt : i + 1 < w
      · simp [hlt]
      · simp [BitVec.getLsbD_of_ge r i (by omega)]

theorem toPoly_shift (hw : 0 < w) (r : BitVec w) (b : Bool) :
    toPoly (shift poly r b) = X * toPoly r + C (coefficient b) * X ^ w +
      C (coefficient (r.msb ^^ b)) * generator poly := by
  have hfeedback : toPoly (bif r.msb ^^ b then poly else 0#w) =
      C (coefficient (r.msb ^^ b)) * toPoly poly := by
    cases r.msb ^^ b
    · ext i
      rw [coeff_toPoly]
      simp [coefficient]
    · simp [coefficient]
  have hcancel : coefficient r.msb = coefficient b + coefficient (r.msb ^^ b) := by
    cases r.msb <;> cases b <;> decide
  rw [shift_eq, toPoly_xor, toPoly_shiftLeft hw, hfeedback, hcancel, generator, C_add]
  ring

theorem ofBits_concat (bits : List Bool) (b : Bool) :
    ofBits (bits ++ [b]) = X * ofBits bits + C (coefficient b) := List.foldl_concat ..

theorem toPoly_feed (hw : 0 < w) (r : BitVec w) (bits : List Bool) :
    toPoly (feed poly r bits) =
      (X ^ bits.length * toPoly r + X ^ w * ofBits bits) %ₘ generator poly := by
  have hself : ∀ r : BitVec w, toPoly r = toPoly r %ₘ generator poly := by
    intro r
    refine ((modByMonic_eq_self_iff (generator_monic poly)).mpr ?_).symm
    rw [degree_generator]
    exact degree_toPoly_lt r
  induction bits using List.reverseRecOn with
  | nil => simpa [feed, ofBits] using hself r
  | append_singleton bits b ih =>
    have hstep : feed poly r (bits ++ [b]) = shift poly (feed poly r bits) b := by
      rw [feed_append]
      rfl
    rw [hstep, hself, toPoly_shift hw, ofBits_concat, List.length_append, List.length_singleton]
    refine modByMonic_eq_of_dvd_sub (generator_monic poly) ?_
    let whole := X ^ bits.length * toPoly r + X ^ w * ofBits bits
    have hdiv : whole %ₘ generator poly + generator poly * (whole /ₘ generator poly) = whole :=
      modByMonic_add_div whole (generator poly)
    refine ⟨C (coefficient ((feed poly r bits).msb ^^ b)) - X * (whole /ₘ generator poly), ?_⟩
    rw [ih]
    linear_combination X * hdiv

end Crc
