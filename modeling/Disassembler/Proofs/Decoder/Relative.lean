import Disassembler.Displacement
import Mathlib.Data.Int.Bitwise
import Mathlib.Data.Int.ModEq
import Mathlib.Data.Set.Function

/-!
Relative addresses. Reading the low bits of a number as a two's complement number gives the one
number in the window of that width that agrees with it in these bits; with masks and an exclusive or
of the sign bit the same is computed on numbers of any size. In an address space every target is
reached by the displacement from the base to it, and different displacements of one width lead to
different targets.
-/

namespace Disassembler.Displacement

/-! ## The window of a width -/

theorem modulus_eq (n : Nat) : (modulus n : Int) = 2 ^ n := by
  simp [modulus]

theorem modulus_pos (n : Nat) : 0 < (modulus n : Int) := by
  rw [modulus_eq]
  exact Int.pow_pos (by decide)

/-- The sign bit halves the numbers of a width. -/
theorem modulus_eq_twice {bits : Nat} (h : 1 ≤ bits) :
    (modulus bits : Int) = 2 * modulus (bits - 1) := by
  obtain ⟨n, rfl⟩ := Nat.exists_eq_add_of_le' h
  rw [modulus_eq, modulus_eq, Nat.add_sub_cancel, Int.pow_succ, Int.mul_comm]

/-- The numbers that two's complement gives for a width. -/
def window (bits : Nat) : Set Int :=
  { r | -(modulus (bits - 1) : Int) ≤ r ∧ r < modulus (bits - 1) }

theorem signExtend_mem_window (value : Int) {bits : Nat} (h : 1 ≤ bits) :
    signExtend value bits ∈ window bits := by
  have htwice := modulus_eq_twice h
  have hlow := Int.emod_nonneg value (modulus_pos bits).ne'
  have hhigh := Int.emod_lt_of_pos value (modulus_pos bits)
  unfold signExtend
  simp only
  split
  · exact ⟨by omega, by omega⟩
  · exact ⟨by omega, by omega⟩

theorem signExtend_emod (value : Int) (bits : Nat) :
    signExtend value bits % modulus bits = value % modulus bits := by
  unfold signExtend
  simp only
  split
  · exact Int.emod_emod_of_dvd value (Int.dvd_refl _)
  · rw [Int.sub_emod_right, Int.emod_emod_of_dvd value (Int.dvd_refl _)]

/-- Numbers of the window that agree in the low bits are equal. -/
theorem eq_of_emod_eq {bits : Nat} {r s : Int} (h : 1 ≤ bits) (hr : r ∈ window bits)
    (hs : s ∈ window bits) (heq : r % modulus bits = s % modulus bits) : r = s := by
  have htwice := modulus_eq_twice h
  have hdvd : (modulus bits : Int) ∣ r - s :=
    Int.dvd_of_emod_eq_zero (Int.emod_eq_emod_iff_emod_sub_eq_zero.mp heq)
  obtain ⟨hrlow, hrhigh⟩ := hr
  obtain ⟨hslow, hshigh⟩ := hs
  have hzero : r - s = 0 := Int.eq_zero_of_abs_lt_dvd hdvd (abs_lt.mpr ⟨by omega, by omega⟩)
  omega

theorem eq_signExtend_iff {value r : Int} {bits : Nat} (h : 1 ≤ bits) :
    r = signExtend value bits ↔ r ∈ window bits ∧ r % modulus bits = value % modulus bits := by
  constructor
  · rintro rfl
    exact ⟨signExtend_mem_window value h, signExtend_emod value bits⟩
  · rintro ⟨hr, hmod⟩
    exact eq_of_emod_eq h hr (signExtend_mem_window value h)
      (hmod.trans (signExtend_emod value bits).symm)

/-! ## In bits -/

/-- The number whose only bit is bit `n`. -/
theorem one_shiftLeft (n : Nat) : (1 : Int) <<< n = modulus n := by
  rw [Int.shiftLeft_eq, Int.one_mul, modulus_eq]

/-- A mask of ones keeps the low bits, of negative numbers too. -/
theorem land_mask (value : Int) (n : Nat) :
    value.land ((1 : Int) <<< n - 1) = value % modulus n := by
  have hmask : (1 : Int) <<< n - 1 = ((2 ^ n - 1 : Nat) : Int) := by
    rw [one_shiftLeft, modulus_eq]
    have := Nat.two_pow_pos n
    push_cast [Nat.one_le_two_pow]
    rfl
  rw [hmask]
  cases value with
  | ofNat m =>
    show ((m &&& (2 ^ n - 1) : Nat) : Int) = _
    rw [Nat.and_two_pow_sub_one_eq_mod]
    rfl
  | negSucc m =>
    have hlow : m % 2 ^ n < 2 ^ n := Nat.mod_lt _ (Nat.two_pow_pos n)
    have hbits : (2 ^ n - 1).ldiff m = 2 ^ n - (m % 2 ^ n + 1) := by
      refine Nat.eq_of_testBit_eq fun i => ?_
      rw [Nat.testBit_ldiff, Nat.testBit_two_pow_sub_one, Nat.testBit_two_pow_sub_succ hlow,
        Nat.testBit_mod_two_pow]
      cases decide (i < n) <;> rfl
    show (((2 ^ n - 1).ldiff m : Nat) : Int) = _
    rw [hbits, Int.negSucc_emod _ (modulus_pos n), modulus_eq]
    push_cast [Nat.succ_le_of_lt hlow]
    omega

/-- Exchanging the top bit moves the lower half up and the upper half down. -/
theorem xor_two_pow {m n : Nat} (h : m < 2 * 2 ^ n) :
    m ^^^ 2 ^ n = if m < 2 ^ n then m + 2 ^ n else m - 2 ^ n := by
  have hpos := Nat.two_pow_pos n
  have hhigh : (m ^^^ 2 ^ n) / 2 ^ n = m / 2 ^ n ^^^ 1 := by
    rw [Nat.xor_div_two_pow, Nat.div_self hpos]
  have hlow : (m ^^^ 2 ^ n) % 2 ^ n = m % 2 ^ n := by
    rw [Nat.xor_mod_two_pow, Nat.mod_self, Nat.xor_zero]
  have hsplit := Nat.div_add_mod (m ^^^ 2 ^ n) (2 ^ n)
  rw [hhigh, hlow] at hsplit
  split
  · next hlt =>
    rw [Nat.div_eq_of_lt hlt, Nat.mod_eq_of_lt hlt, Nat.zero_xor, Nat.mul_one] at hsplit
    omega
  · next hge =>
    have hone : m / 2 ^ n = 1 := Nat.div_eq_of_lt_le (by omega) (by omega)
    have hmod : m % 2 ^ n = m - 2 ^ n := by
      rw [Nat.mod_eq_sub_mod (by omega), Nat.mod_eq_of_lt (by omega)]
    rw [hone, hmod, Nat.xor_self, Nat.mul_zero] at hsplit
    omega

/-- Mask, exchange the sign bit and take it away. -/
def inBits (value : Int) (bits : Nat) : Int :=
  let sign := (1 : Int) <<< (bits - 1)
  (value.land ((1 : Int) <<< bits - 1)).xor sign - sign

theorem signExtend_eq_inBits (value : Int) {bits : Nat} (h : 1 ≤ bits) :
    signExtend value bits = inBits value bits := by
  have htwice := modulus_eq_twice h
  have hhigh := Int.emod_lt_of_pos value (modulus_pos bits)
  obtain ⟨low, hlow⟩ := Int.eq_ofNat_of_zero_le (Int.emod_nonneg value (modulus_pos bits).ne')
  simp only [inBits, land_mask]
  rw [one_shiftLeft]
  rw [hlow] at hhigh ⊢
  have hxor : ((low : Int).xor (modulus (bits - 1) : Nat)) =
      ((low ^^^ 2 ^ (bits - 1) : Nat) : Int) := rfl
  have hlt : low < 2 * 2 ^ (bits - 1) := by
    rw [htwice] at hhigh
    exact_mod_cast hhigh
  have hmodulus : (2 ^ (bits - 1) : Nat) = modulus (bits - 1) := rfl
  rw [hxor, xor_two_pow hlt, hmodulus]
  simp only [signExtend, hlow]
  split <;> split <;> omega

/-! ## Targets -/

/-- A target as bits too: what goes beyond the address space is masked out. -/
theorem target_eq_inBits (base displacement : Int) {bits : Nat} (h : 1 ≤ bits) (width : Nat) :
    target base displacement bits width = (base + inBits displacement bits).land
      ((1 : Int) <<< width - 1) := by
  rw [target, land_mask, signExtend_eq_inBits displacement h]

theorem target_mem (base displacement : Int) (bits width : Nat) :
    target base displacement bits width ∈ { n : Int | 0 ≤ n ∧ n < modulus width } :=
  ⟨Int.emod_nonneg _ (modulus_pos width).ne', Int.emod_lt_of_pos _ (modulus_pos width)⟩

/-- The displacement to a target leads there. -/
theorem target_sub_emod (base goal : Int) (width : Nat) :
    target base ((goal - base) % modulus width) width width = goal % modulus width := by
  rw [target, Int.add_emod, signExtend_emod, Int.emod_emod_of_dvd _ (Int.dvd_refl _),
    ← Int.add_emod]
  congr 1
  omega

/-- Displacements that lead to one target agree in the bits of their width. -/
theorem emod_eq_of_target_eq {base d e : Int} {bits width : Nat} (hle : bits ≤ width)
    (h : target base d bits width = target base e bits width) :
    d % modulus bits = e % modulus bits := by
  have hdvd : (modulus bits : Int) ∣ modulus width := by
    rw [modulus_eq, modulus_eq]
    exact pow_dvd_pow 2 hle
  have hsame : signExtend d bits % modulus bits = signExtend e bits % modulus bits := by
    have hsum : (base + signExtend d bits) ≡ base + signExtend e bits [ZMOD modulus bits] :=
      Int.ModEq.of_dvd hdvd h
    exact hsum.add_left_cancel' base
  rwa [signExtend_emod, signExtend_emod] at hsame

theorem target_injOn (base : Int) {bits width : Nat} (hle : bits ≤ width) :
    Set.InjOn (fun d => target base d bits width) { d | 0 ≤ d ∧ d < modulus bits } := by
  rintro d ⟨hdlow, hdhigh⟩ e ⟨helow, hehigh⟩ h
  have hmod := emod_eq_of_target_eq hle h
  rwa [Int.emod_eq_of_lt hdlow hdhigh, Int.emod_eq_of_lt helow hehigh] at hmod

/-! ## Widths that are checked -/

/-- Numbers with room for their bits can be counted in groups. -/
theorem capacity_checkShift_eq_ok_iff {n : Nat} :
    Capacity.checkShift n = .ok () ↔ n < Capacity.room := by
  have hgroups : n < Capacity.room → Capacity.groups n ≤ Capacity.maxGroups := by
    intro hroom
    have hfew : Capacity.groups n ≤ 2 + n := by
      have := Nat.div_le_self n Capacity.groupBits
      unfold Capacity.groups
      split <;> omega
    exact hfew.trans (by unfold Capacity.room at hroom; unfold Capacity.maxGroups; omega)
  unfold Capacity.checkShift
  split
  · next hmany =>
    simp only [reduceCtorEq, false_iff]
    omega
  · split
    · next hroom =>
      simp only [reduceCtorEq, false_iff]
      omega
    · next hroom =>
      simp only [true_iff]
      omega

theorem checkShift_eq_ok_iff {n : Int} : checkShift n = .ok () ↔ 0 ≤ n ∧ n < Capacity.room := by
  have hnat : n.toNat < Capacity.room ↔ n < Capacity.room := by
    have : (0 : Int) < Capacity.room := by decide
    omega
  unfold checkShift
  split
  · next hnegative =>
    simp only [reduceCtorEq, false_iff]
    omega
  · next hnonneg =>
    rw [← hnat, ← capacity_checkShift_eq_ok_iff]
    cases Capacity.checkShift n.toNat with
    | ok _ => simpa [Except.mapError] using hnonneg
    | error excess => simp [Except.mapError]

theorem checkShift_bind_eq_ok_iff {n r : Int} {rest : Except Fault Int} :
    (checkShift n >>= fun _ => rest) = .ok r ↔ (0 ≤ n ∧ n < Capacity.room) ∧ rest = .ok r := by
  rw [← checkShift_eq_ok_iff]
  cases checkShift n with
  | ok _ => exact ⟨fun h => ⟨rfl, h⟩, fun h => h.2⟩
  | error fault => simp [bind, Except.bind]

/-- There is an answer where there is a sign bit and room for the bit above it. -/
theorem signExtendChecked_eq_ok_iff {value bits r : Int} :
    signExtendChecked value bits = .ok r ↔ 1 ≤ bits ∧ bits < Capacity.room ∧
    signExtend value bits.toNat = r := by
  simp only [signExtendChecked, checkShift_bind_eq_ok_iff, pure, Except.pure, Except.ok.injEq]
  omega

theorem targetChecked_eq_ok_iff {base displacement bits width r : Int} :
    targetChecked base displacement bits width = .ok r ↔
      1 ≤ bits ∧ bits < Capacity.room ∧ 0 ≤ width ∧ width < Capacity.room ∧
        target base displacement bits.toNat width.toNat = r := by
  simp only [targetChecked, checkShift_bind_eq_ok_iff, pure, Except.pure, Except.ok.injEq]
  omega

/-- Relative addressing inverts. What is read from the low bits of a number, by arithmetic as by
operations on bits, is the one number in the window of the width that agrees with it modulo the
power of two. In an address space the difference between a target and the base, cut to the width of
the space, leads to the target; and a base gives to each displacement of a width within that of the
space a target of its own inside the space. Where widths are checked, there is an answer for all
that there is room for, and it is this one. -/
theorem relative_addressing :
    (∀ (value : Int) (bits : Nat), 1 ≤ bits →
      signExtend value bits = inBits value bits ∧
      ∀ r, r = signExtend value bits ↔
        -2 ^ (bits - 1) ≤ r ∧ r < 2 ^ (bits - 1) ∧ r ≡ value [ZMOD 2 ^ bits]) ∧
    (∀ (base goal : Int) (width : Nat), 1 ≤ width →
      target base ((goal - base) % 2 ^ width) width width = goal % 2 ^ width) ∧
    (∀ (base : Int) (bits width : Nat), 1 ≤ bits → bits ≤ width →
      Set.InjOn (fun d => target base d bits width) { d | 0 ≤ d ∧ d < 2 ^ bits } ∧
      Set.MapsTo (fun d => target base d bits width) { d | 0 ≤ d ∧ d < 2 ^ bits }
        { n | 0 ≤ n ∧ n < 2 ^ width } ∧
      ∀ d, target base d bits width = (base + inBits d bits).land ((1 : Int) <<< width - 1)) ∧
    (∀ value bits r : Int, signExtendChecked value bits = .ok r ↔
      1 ≤ bits ∧ bits < Capacity.room ∧ signExtend value bits.toNat = r) ∧
    ∀ base displacement bits width r : Int, targetChecked base displacement bits width = .ok r ↔
      1 ≤ bits ∧ bits < Capacity.room ∧ 0 ≤ width ∧ width < Capacity.room ∧
        target base displacement bits.toNat width.toNat = r := by
  simp only [← modulus_eq]
  refine ⟨fun value bits h => ⟨signExtend_eq_inBits value h, fun r => ?_⟩,
    fun base goal width _ => ?_,
    fun base bits width h hle =>
      ⟨target_injOn base hle, fun d _ => target_mem base d bits width, fun d => ?_⟩,
    fun _ _ _ => signExtendChecked_eq_ok_iff, fun _ _ _ _ _ => targetChecked_eq_ok_iff⟩
  · rw [eq_signExtend_iff h, window, Set.mem_ofPred_eq, and_assoc]
    rfl
  · exact target_sub_emod base goal width
  · exact target_eq_inBits base d h width

/-- At the sign bit, below zero, and from the end of the address space to its start. -/
theorem relative_addressing_atEdges :
    signExtend (-129) 8 = 127 ∧ inBits (-129) 8 = 127 ∧
    target 0xFFFE ((3 - 0xFFFE) % 2 ^ 16) 16 16 = 3 ∧
      target 0x10 0x80 8 16 = 0xFF90 ∧ target 0x10 0x80 8 16 ≠ target 0x10 0x7F 8 16 ∧
      signExtendChecked 0x80 8 = .ok (-128) := by
  obtain ⟨hwindow, hdifference, hinjective, hchecked, -⟩ := relative_addressing
  obtain ⟨hbits, hunique⟩ := hwindow (-129) 8 (by decide)
  have hsign : signExtend (-129) 8 = 127 :=
    ((hunique 127).mpr ⟨by decide, by decide, by decide⟩).symm
  obtain ⟨hinj, -, -⟩ := hinjective 0x10 8 16 (by decide) (by decide)
  refine ⟨hsign, hbits.symm.trans hsign, hdifference 0xFFFE 3 16 (by decide), by decide,
    fun heq => ?_, (hchecked 0x80 8 _).mpr ⟨by decide, by decide, by decide⟩⟩
  cases hinj ⟨by decide, by decide⟩ ⟨by decide, by decide⟩ heq

end Disassembler.Displacement
