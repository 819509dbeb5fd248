import Mathlib

namespace RemDb.Lib
namespace WholeFloat
open Float.Model Float.Model.UnpackedFloat

-- The double nearest to an integer.
def ofWhole (n : Int) : Float := .ofModel (.ofInt n)

def widen (x : Float32) : Float :=
  .ofModel (.pack (match x.toModel.unpack with
    | .finite sign mantissa exponent _ => UnpackedFloat.round Format.binary64 sign mantissa exponent
    | other => other))

def rational : UnpackedFloat → Option Rat
  | .zero _ => some 0
  | .finite sign mantissa exponent _ => some (sign.apply mantissa*2^exponent)
  | _ => none

-- A positive integer below 2^53 has all its digits in a normal mantissa.
def mantissa (n : Nat) : Nat := n*2^(52-n.log2)

def whole (n : Int) : UnpackedFloat :=
  if zero : n = 0 then .zero .positive
  else .finite (if n < 0 then .negative else .positive) (mantissa n.natAbs) (n.natAbs.log2-52)
    (Nat.mul_pos (Int.natAbs_pos.mpr zero) (Nat.two_pow_pos _))

section Mantissa
variable {n : Nat}

theorem log2_le (small : n < 2^53) : n.log2 ≤ 52 := by
  by_cases zero : n = 0
  · rw [zero,Nat.log2_zero]
    exact Nat.zero_le _
  · exact Nat.le_of_lt_succ ((Nat.log2_lt zero).mpr small)

theorem mantissa_normal (positive : 0 < n) (small : n < 2^53) : 2^52 ≤ mantissa n ∧ mantissa n < 2^53 := by
  have low := Nat.log2_self_le (Nat.ne_of_gt positive)
  have high := Nat.lt_log2_self (n := n)
  have width := log2_le small
  have split : 2^n.log2*2^(52-n.log2) = 2^52 := by rw [← Nat.pow_add,Nat.add_sub_cancel' width]
  have split_next : 2^(n.log2+1)*2^(52-n.log2) = 2^53 := by
    rw [← Nat.pow_add]
    exact congrArg (2^·) (by omega)
  constructor
  · rw [← split]
    exact Nat.mul_le_mul_right _ low
  · rw [← split_next]
    exact Nat.mul_lt_mul_of_pos_right high (Nat.two_pow_pos _)

theorem log2_shifted (positive : 0 < n) (k : Nat) : (n*2^k).log2 = n.log2+k := by
  have low := Nat.log2_self_le (Nat.ne_of_gt positive)
  have high := Nat.lt_log2_self (n := n)
  refine (Nat.log2_eq_iff (Nat.ne_of_gt (Nat.mul_pos positive (Nat.two_pow_pos k)))).mpr ⟨?_,?_⟩
  · rw [Nat.pow_add]
    exact Nat.mul_le_mul_right _ low
  · rw [Nat.add_right_comm,Nat.pow_add]
    exact Nat.mul_lt_mul_of_pos_right high (Nat.two_pow_pos k)

theorem log2_normal (low : 2^52 ≤ n) (high : n < 2^53) : n.log2 = 52 :=
  (Nat.log2_eq_iff (by omega)).mpr ⟨low,high⟩

end Mantissa

section Rounding

theorem shiftRight_exact (m j : Nat) :
    (ExtendedMantissa.mk (m*2^j) false false) >>> j = ExtendedMantissa.mk m false false := by
  induction j generalizing m with
  | zero => simp [HShiftRight.hShiftRight,Nat.repeat]
  | succ j ih =>
    have halved : ExtendedMantissa.shiftRightOne ⟨m*2,false,false⟩ = ⟨m,false,false⟩ := by
      simp [ExtendedMantissa.shiftRightOne]
    have earlier := ih (m*2)
    change Nat.repeat ExtendedMantissa.shiftRightOne j _ = _ at earlier
    change ExtendedMantissa.shiftRightOne (Nat.repeat ExtendedMantissa.shiftRightOne j _) = _
    rw [Nat.pow_succ,Nat.mul_comm (2^j) 2,← Nat.mul_assoc,earlier,halved]

theorem target_eq {m : Nat} (low : 2^52 ≤ m) (high : m < 2^53) (j : Nat) {e : Int} (least : -1074 ≤ e) :
    Format.binary64.targetExponent (totalExponent (m*2^j) (e-j)) = e := by
  rw [totalExponent,log2_shifted (by omega),log2_normal low high]
  simp only [Format.targetExponent,Format.mantissaBits,Format.minExponent]
  norm_num
  omega

theorem shifted {m : Nat} (low : 2^52 ≤ m) (high : m < 2^53) (j : Nat) {e : Int} (least : -1074 ≤ e) :
    shiftToTargetExponent Format.binary64 (m*2^j) (e-j) .exact = (⟨m,false,false⟩,e) := by
  have amount : (e-(e-j)).toNat = j := by omega
  unfold shiftToTargetExponent
  rw [target_eq low high j least]
  unfold shiftToExponent
  simp only [amount,ExtendedMantissa.ofMantissaAndAccuracy,shiftRight_exact,sub_add_cancel]

theorem roundWithAccuracy_exact {m : Nat} (low : 2^52 ≤ m) (high : m < 2^53) (sign : Sign) (j : Nat) {e : Int}
    (least : -1074 ≤ e) : roundWithAccuracy Format.binary64 sign (m*2^j) (e-j) .exact = .finite sign m e (by omega) := by
  have again := shifted low high 0 least
  rw [Nat.pow_zero,Nat.mul_one,Int.natCast_zero,sub_zero] at again
  unfold roundWithAccuracy
  simp only [shifted low high j least,ExtendedMantissa.roundedMantissa,ExtendedMantissa.accuracy,
    Accuracy.roundToNearestEven,again]
  rw [dif_neg (by omega)]

theorem round_exact {n : Nat} (positive : 0 < n) (small : n < 2^53) (sign : Sign) (k : Nat) :
    UnpackedFloat.round Format.binary64 sign (n*2^k) (-k) = .finite sign (mantissa n) (n.log2-52)
      (Nat.mul_pos positive (Nat.two_pow_pos _)) := by
  obtain ⟨low,high⟩ := mantissa_normal positive small
  have width := log2_le small
  have target : Format.binary64.targetExponent (totalExponent (n*2^k) (-k)) = n.log2-52 := by
    rw [totalExponent,log2_shifted positive]
    simp only [Format.targetExponent,Format.mantissaBits,Format.minExponent]
    norm_num
    omega
  have moved : decreaseExponent (n*2^k) (-k) (n.log2-52) =
      (mantissa n*2^(k-(52-n.log2)),(n.log2-52 : Int)-((k-(52-n.log2) : Nat) : Int)) := by
    unfold decreaseExponent
    by_cases few : k ≤ 52-n.log2
    · have amount : (-(k : Int)-(n.log2-52)).toNat = 52-n.log2-k := by omega
      have none_left : k-(52-n.log2) = 0 := by omega
      simp only [amount,none_left,Nat.shiftLeft_eq]
      refine Prod.ext ?_ (by dsimp only; omega)
      dsimp only
      rw [mantissa,Nat.pow_zero,Nat.mul_one,Nat.mul_assoc,← Nat.pow_add]
      exact congrArg (n*2^·) (by omega)
    · have amount : (-(k : Int)-(n.log2-52)).toNat = 0 := by omega
      simp only [amount,Nat.shiftLeft_eq]
      refine Prod.ext ?_ (by dsimp only; omega)
      dsimp only
      rw [mantissa,Nat.pow_zero,Nat.mul_one,Nat.mul_assoc,← Nat.pow_add]
      exact congrArg (n*2^·) (by omega)
  unfold UnpackedFloat.round
  simp only [target,moved]
  exact roundWithAccuracy_exact low high sign _ (by omega)

theorem normalize_exact {n : Int} (small : n.natAbs < 2^53) (k : Nat) :
    UnpackedFloat.normalize Format.binary64 (n*2^k) (-k) .positive = whole n := by
  have power : (0 : Int) < 2^k := by positivity
  have magnitude : (n*2^k).natAbs = n.natAbs*2^k := by rw [Int.natAbs_mul,Int.natAbs_pow]; rfl
  unfold UnpackedFloat.normalize
  rcases lt_trichotomy n 0 with negative | rfl | positive
  · have below : n*2^k < 0 := Int.mul_neg_of_neg_of_pos negative power
    have digits : (-(n*2^k)).toNat = n.natAbs*2^k := by omega
    rw [show compare (n*2^k) 0 = .lt from compare_lt_iff_lt.mpr below]
    dsimp only
    rw [digits,round_exact (Int.natAbs_pos.mpr (by omega)) small,whole,dif_neg (by omega)]
    simp only [negative,if_true]
  · rw [Int.zero_mul,whole,dif_pos rfl]
    rfl
  · have above : 0 < n*2^k := Int.mul_pos positive power
    have digits : (n*2^k).toNat = n.natAbs*2^k := by omega
    rw [show compare (n*2^k) 0 = .gt from compare_gt_iff_gt.mpr above]
    dsimp only
    rw [digits,round_exact (Int.natAbs_pos.mpr (by omega)) small,whole,dif_neg (by omega)]
    simp only [show ¬ n < 0 by omega,if_false]

theorem ofInt_eq {n : Int} (small : n.natAbs < 2^53) : UnpackedFloat.ofInt Format.binary64 n = whole n := by
  have exact := normalize_exact small 0
  rwa [pow_zero,Int.mul_one,Int.natCast_zero,Int.neg_zero] at exact

end Rounding

section Packing

theorem unpackSign_packComponents {spec : Format} (sign : Sign) (exponent : BitVec spec.exponentBits)
    (digits : BitVec spec.mantissaBitsWithoutImplicit) :
    unpackSign (packComponents spec sign exponent digits) = sign.toBitVec := by
  ext i hi
  obtain rfl : i = 0 := by omega
  simp [unpackSign,packComponents,BitVec.getLsbD_eq_getElem,BitVec.getLsbD_append,BitVec.getElem_append]

theorem ofBitVec_toBitVec (sign : Sign) : Sign.ofBitVec sign.toBitVec = sign := by
  cases sign <;> rfl

theorem pack_normal {m : Nat} (low : 2^52 ≤ m) (high : m < 2^53) (sign : Sign) {e : Int} (least : -1074 ≤ e)
    (most : e ≤ 970) : UnpackedFloat.pack Format.binary64 (.finite sign m e (by omega)) =
      packComponents Format.binary64 sign (BitVec.ofNat 11 (e+1075).toNat) (BitVec.ofNat 52 m) := by
  unfold UnpackedFloat.pack
  have biased : (e+Format.binary64.exponentBias+Format.binary64.mantissaBitsWithoutImplicit).toNat = (e+1075).toNat := by
    simp only [Format.exponentBias]
    norm_num
    omega
  dsimp only
  rw [biased,if_neg (by omega),log2_normal low high]
  rfl

theorem unpack_pack_normal {m : Nat} (low : 2^52 ≤ m) (high : m < 2^53) (sign : Sign) {e : Int} (least : -1074 ≤ e)
    (most : e ≤ 970) : UnpackedFloat.unpack Format.binary64 (UnpackedFloat.pack Format.binary64
      (.finite sign m e (by omega))) = .finite sign m e (by omega) := by
  have number : (BitVec.ofNat 11 (e+1075).toNat).toNat = (e+1075).toNat := by
    rw [BitVec.toNat_ofNat,Nat.mod_eq_of_lt (by omega)]
  have not_ones : BitVec.ofNat 11 (e+1075).toNat ≠ -1#11 := by
    intro same
    have numbers := congrArg BitVec.toNat same
    rw [number] at numbers
    change _ = 2047 at numbers
    omega
  have not_zero : BitVec.ofNat 11 (e+1075).toNat ≠ 0#11 := by
    intro same
    have numbers := congrArg BitVec.toNat same
    rw [number] at numbers
    change _ = 0 at numbers
    omega
  have digits : (1#1 ++ BitVec.ofNat 52 m).toNat = m := by
    rw [BitVec.toNat_append,BitVec.toNat_ofNat,BitVec.toNat_ofNat,← Nat.shiftLeft_add_eq_or_of_lt (Nat.mod_lt _ (Nat.two_pow_pos _))]
    change 1 <<< 52+_ = _
    omega
  rw [pack_normal low high sign least most]
  unfold UnpackedFloat.unpack
  simp only [unpackExponent_packComponents,unpackMantissa_packComponents,unpackSign_packComponents]
  have unbiased : ((e+1075).toNat : Int)-(Format.binary64.exponentBias+(52 : Nat)) = e := by
    have bias : Format.binary64.exponentBias = 1023 := rfl
    rw [bias]
    omega
  rw [if_neg not_ones,if_neg not_zero,number,ofBitVec_toBitVec]
  simp only [digits,unbiased]

theorem toNat_packComponents (sign : Sign) (exponent : BitVec 11) (digits : BitVec 52) :
    2^52*exponent.toNat ≤ (packComponents Format.binary64 sign exponent digits).toNat := by
  change _ ≤ (sign.toBitVec ++ exponent ++ digits).toNat
  rw [BitVec.toNat_append,BitVec.toNat_append]
  refine Nat.le_trans ?_ Nat.left_le_or
  rw [Nat.shiftLeft_eq,Nat.mul_comm]
  exact Nat.mul_le_mul_right _ Nat.right_le_or

end Packing

section Whole
variable {n : Int}

theorem whole_zero : whole 0 = .zero .positive := rfl

theorem whole_ne_zero (other : n ≠ 0) :
    ∃ sign : Sign, (∀ magnitude : Nat, sign.apply (n.natAbs*magnitude : Nat) = n*magnitude) ∧
      whole n = .finite sign (mantissa n.natAbs) (n.natAbs.log2-52)
        (Nat.mul_pos (Int.natAbs_pos.mpr other) (Nat.two_pow_pos _)) := by
  unfold whole
  rw [dif_neg other]
  refine ⟨if n < 0 then .negative else .positive,?_,rfl⟩
  intro magnitude
  by_cases negative : n < 0
  · rw [if_pos negative,Sign.apply,Int.natCast_mul,← Int.neg_mul]
    exact congrArg (·*(magnitude : Int)) (by omega)
  · rw [if_neg negative,Sign.apply,Int.natCast_mul]
    exact congrArg (·*(magnitude : Int)) (by omega)

theorem unpack_pack_whole (small : n.natAbs < 2^53) :
    UnpackedFloat.unpack Format.binary64 (UnpackedFloat.pack Format.binary64 (whole n)) = whole n := by
  by_cases other : n = 0
  · rw [other]
    rfl
  · obtain ⟨sign,_,shape⟩ := whole_ne_zero other
    obtain ⟨low,high⟩ := mantissa_normal (Int.natAbs_pos.mpr other) small
    have width := log2_le small
    rw [shape]
    exact unpack_pack_normal low high sign (by omega) (by omega)

theorem unpack_ofWhole (small : n.natAbs < 2^53) : (ofWhole n).toModel.unpack = whole n := by
  change UnpackedFloat.unpack Format.binary64
    (UnpackedFloat.pack Format.binary64 (UnpackedFloat.ofInt Format.binary64 n)) = _
  rw [ofInt_eq small,unpack_pack_whole small]

theorem ofBits_ofWhole (small : n.natAbs < 2^53) : Float.ofBits (ofWhole n).toBits = ofWhole n := by
  change Float.ofModel (Float.Model.pack (ofWhole n).toModel.unpack) = Float.ofModel (Float.Model.ofInt n)
  rw [unpack_ofWhole small,Float.Model.ofInt,ofInt_eq small]

theorem toBits_zero : (ofWhole 0).toBits = 0 := by decide +kernel

theorem toBits_large (other : n ≠ 0) (small : n.natAbs < 2^53) : 2^53 ≤ (ofWhole n).toBits.toNat := by
  change _ ≤ (UnpackedFloat.pack Format.binary64 (UnpackedFloat.ofInt Format.binary64 n)).toNat
  rw [ofInt_eq small]
  obtain ⟨sign,_,shape⟩ := whole_ne_zero other
  obtain ⟨low,high⟩ := mantissa_normal (Int.natAbs_pos.mpr other) small
  have width := log2_le small
  rw [shape,pack_normal low high sign (by omega) (by omega)]
  refine Nat.le_trans ?_ (toNat_packComponents _ _ _)
  rw [BitVec.toNat_ofNat,Nat.mod_eq_of_lt (by omega)]
  have exponent : 2 ≤ ((n.natAbs.log2 : Int)-52+1075).toNat := by omega
  exact Nat.mul_le_mul_left (2^52) exponent

theorem rational_whole (small : n.natAbs < 2^53) : rational (whole n) = some (n : Rat) := by
  by_cases other : n = 0
  · rw [other]
    rfl
  · obtain ⟨sign,applied,shape⟩ := whole_ne_zero other
    have width := log2_le small
    rw [shape]
    change some ((sign.apply (n.natAbs*2^(52-n.natAbs.log2) : Nat) : Rat)*2^((n.natAbs.log2 : Int)-52)) = _
    rw [applied]
    have power : (2 : Rat)^((n.natAbs.log2 : Int)-52) = ((2 : Rat)^(52-n.natAbs.log2))⁻¹ := by
      rw [← zpow_natCast,← zpow_neg]
      exact congrArg ((2 : Rat)^·) (by omega)
    rw [power]
    push_cast
    rw [mul_assoc,mul_inv_cancel₀ (by positivity),mul_one]

theorem rational_ofWhole (small : n.natAbs < 2^53) : rational (ofWhole n).toModel.unpack = some (n : Rat) := by
  rw [unpack_ofWhole small,rational_whole small]

theorem add_whole {a b : Int} (small_a : a.natAbs < 2^53) (small_b : b.natAbs < 2^53) (small : (a+b).natAbs < 2^53) :
    UnpackedFloat.add Format.binary64 (whole a) (whole b) = whole (a+b) := by
  by_cases zero_a : a = 0
  · rw [zero_a,Int.zero_add,whole_zero]
    by_cases zero_b : b = 0
    · rw [zero_b]
      rfl
    · obtain ⟨sign,_,shape⟩ := whole_ne_zero zero_b
      rw [shape]
      rfl
  obtain ⟨sign_a,applied_a,shape_a⟩ := whole_ne_zero zero_a
  by_cases zero_b : b = 0
  · rw [zero_b,Int.add_zero,whole_zero,shape_a]
    rfl
  obtain ⟨sign_b,applied_b,shape_b⟩ := whole_ne_zero zero_b
  have width_a := log2_le small_a
  have width_b := log2_le small_b
  -- Both are written with the exponent of the smaller one.
  obtain ⟨k,smaller⟩ : ∃ k : Nat, min ((a.natAbs.log2 : Int)-52) (b.natAbs.log2-52) = -k :=
    ⟨52-min a.natAbs.log2 b.natAbs.log2,by omega⟩
  have aligned {n : Nat} (width : n.log2 ≤ 52) (above : -(k : Int) ≤ (n.log2 : Int)-52) :
      (decreaseExponent (mantissa n) (n.log2-52) (-k)).1 = n*2^k := by
    simp only [decreaseExponent,mantissa,Nat.shiftLeft_eq]
    rw [Nat.mul_assoc,← Nat.pow_add]
    exact congrArg (n*2^·) (by omega)
  have sum_exact := normalize_exact small k
  rw [shape_a,shape_b]
  simp only [UnpackedFloat.add,smaller]
  rw [aligned width_a (by omega),aligned width_b (by omega),applied_a,applied_b]
  push_cast
  rw [← Int.add_mul]
  exact sum_exact

theorem add_ofWhole {a b : Int} (small_a : a.natAbs < 2^53) (small_b : b.natAbs < 2^53) (small : (a+b).natAbs < 2^53) :
    ofWhole a+ofWhole b = ofWhole (a+b) := by
  change Float.ofModel (Float.Model.pack
    (UnpackedFloat.add Format.binary64 (ofWhole a).toModel.unpack (ofWhole b).toModel.unpack)) = _
  rw [unpack_ofWhole small_a,unpack_ofWhole small_b,add_whole small_a small_b small,← ofInt_eq small]
  rfl

end Whole

end WholeFloat
end RemDb.Lib
