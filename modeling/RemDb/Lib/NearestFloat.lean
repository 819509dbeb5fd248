import RemDb.Lib.WholeFloat

namespace RemDb.Lib
namespace WholeFloat
open Float.Model Float.Model.UnpackedFloat

-- A quotient by a power of two, rounded to the nearest integer and a tie to the even one.
def halfEven (n places : Nat) : Nat :=
  if 2*(n % 2^places) < 2^places then n/2^places
  else if 2*(n % 2^places) = 2^places then n/2^places+n/2^places % 2
  else n/2^places+1

-- The nearest number with at most 53 binary digits.
def nearest (n : Nat) : Nat := halfEven n (n.log2-52)*2^(n.log2-52)

def nearestInt (n : Int) : Int := if n < 0 then -(nearest n.natAbs : Int) else nearest n.natAbs

section HalfEven
variable {n m : Nat}

theorem le_halfEven (n places : Nat) : n/2^places ≤ halfEven n places := by
  unfold halfEven
  split
  · exact Nat.le_refl _
  · split <;> exact Nat.le_add_right _ _

theorem halfEven_le (n places : Nat) : halfEven n places ≤ n/2^places+1 := by
  unfold halfEven
  split
  · exact Nat.le_succ _
  · split
    · exact Nat.add_le_add_left (Nat.le_of_lt_succ (Nat.mod_lt _ Nat.two_pos)) _
    · exact Nat.le_refl _

theorem halfEven_zero (n : Nat) : halfEven n 0 = n := by
  simp [halfEven,Nat.mod_one]

theorem halfEven_mono (places : Nat) (ordered : n ≤ m) : halfEven n places ≤ halfEven m places := by
  rcases Nat.lt_or_ge (n/2^places) (m/2^places) with less | same
  · exact Nat.le_trans (halfEven_le n places) (Nat.le_trans less (le_halfEven m places))
  · have quotients : n/2^places = m/2^places := Nat.le_antisymm (Nat.div_le_div_right ordered) same
    have split_n := Nat.div_add_mod n (2^places)
    have split_m := Nat.div_add_mod m (2^places)
    rw [quotients] at split_n
    have rests : n % 2^places ≤ m % 2^places := by omega
    unfold halfEven
    rw [quotients]
    grind

theorem halfEven_scaled (n places more : Nat) : halfEven (n*2^more) (places+more) = halfEven n places := by
  have positive := Nat.two_pow_pos more
  have rest : n*2^more % (2^places*2^more) = n % 2^places*2^more := Nat.mul_mod_mul_right _ _ _
  have less : 2*(n % 2^places*2^more) < 2^places*2^more ↔ 2*(n % 2^places) < 2^places := by
    rw [← Nat.mul_assoc,Nat.mul_lt_mul_right positive]
  have same : 2*(n % 2^places*2^more) = 2^places*2^more ↔ 2*(n % 2^places) = 2^places := by
    rw [← Nat.mul_assoc,Nat.mul_left_inj (Nat.ne_of_gt positive)]
  unfold halfEven
  rw [Nat.pow_add,rest,Nat.mul_div_mul_right _ _ positive]
  simp only [less,same]

theorem halfEven_exact (n places : Nat) : halfEven (n*2^places) places = n := by
  have scaled := halfEven_scaled n 0 places
  rwa [Nat.zero_add,halfEven_zero] at scaled

end HalfEven

section Nearest
variable {n m : Nat}

theorem nearest_small (small : n < 2^53) : nearest n = n := by
  have width := log2_le small
  rw [nearest,show n.log2-52 = 0 by omega,halfEven_zero,Nat.pow_zero,Nat.mul_one]

theorem nearest_digits (n : Nat) : halfEven (n*2^52) n.log2*2^n.log2 = nearest n*2^52 := by
  unfold nearest
  rcases Nat.lt_or_ge n.log2 52 with short | long
  · have none_cut : n.log2-52 = 0 := by omega
    have moved : n*2^52 = n*2^(52-n.log2)*2^n.log2 := by
      rw [Nat.mul_assoc,← Nat.pow_add]
      exact congrArg (n*2^·) (by omega)
    rw [none_cut,halfEven_zero,Nat.pow_zero,Nat.mul_one,moved,halfEven_exact]
  · have scaled := halfEven_scaled n (n.log2-52) 52
    have width : n.log2-52+52 = n.log2 := by omega
    rw [width] at scaled
    rw [scaled,Nat.mul_assoc,← Nat.pow_add,width]

theorem nearest_bounds (positive : 0 < n) :
    2^52 ≤ halfEven (n*2^52) n.log2 ∧ halfEven (n*2^52) n.log2 ≤ 2^53 := by
  have low := Nat.log2_self_le (Nat.ne_of_gt positive)
  have high := Nat.lt_log2_self (n := n)
  have power := Nat.two_pow_pos n.log2
  constructor
  · refine Nat.le_trans ?_ (le_halfEven _ _)
    rw [Nat.le_div_iff_mul_le power,Nat.mul_comm]
    exact Nat.mul_le_mul_right _ low
  · refine Nat.le_trans (halfEven_le _ _) (Nat.succ_le_of_lt ?_)
    rw [Nat.div_lt_iff_lt_mul power,show 2^53*2^n.log2 = 2^(n.log2+1)*2^52 by rw [Nat.pow_succ]; ring]
    exact Nat.mul_lt_mul_of_pos_right high (Nat.two_pow_pos 52)

theorem le_nearest (positive : 0 < n) : 2^n.log2 ≤ nearest n := by
  have digits := nearest_digits n
  have bound := Nat.mul_le_mul_right (2^n.log2) (nearest_bounds positive).1
  rw [digits,Nat.mul_comm] at bound
  exact Nat.le_of_mul_le_mul_right bound (Nat.two_pow_pos 52)

theorem nearest_le (positive : 0 < n) : nearest n ≤ 2^(n.log2+1) := by
  have digits := nearest_digits n
  have bound := Nat.mul_le_mul_right (2^n.log2) (nearest_bounds positive).2
  rw [digits,show 2^53*2^n.log2 = 2^(n.log2+1)*2^52 by rw [Nat.pow_succ]; ring] at bound
  exact Nat.le_of_mul_le_mul_right bound (Nat.two_pow_pos 52)

theorem nearest_mono (ordered : n ≤ m) : nearest n ≤ nearest m := by
  rcases Nat.eq_zero_or_pos n with rfl | positive
  · rw [nearest_small (n := 0) (by decide)]
    exact Nat.zero_le _
  have widths : n.log2 ≤ m.log2 :=
    (Nat.le_log2 (by omega)).mpr (Nat.le_trans (Nat.log2_self_le (Nat.ne_of_gt positive)) ordered)
  rcases Nat.lt_or_ge n.log2 m.log2 with shorter | same
  · exact Nat.le_trans (nearest_le positive)
      (Nat.le_trans (Nat.pow_le_pow_right Nat.two_pos shorter) (le_nearest (Nat.lt_of_lt_of_le positive ordered)))
  · have width : n.log2 = m.log2 := Nat.le_antisymm widths same
    unfold nearest
    rw [width]
    exact Nat.mul_le_mul_right _ (halfEven_mono _ ordered)

theorem nearest_pos (positive : 0 < n) : 0 < nearest n :=
  Nat.lt_of_lt_of_le (Nat.two_pow_pos _) (le_nearest positive)

end Nearest

section NearestInt
variable {n m : Int}

theorem nearestInt_small (small : n.natAbs < 2^53) : nearestInt n = n := by
  unfold nearestInt
  rw [nearest_small small]
  split <;> omega

theorem nearestInt_mono (ordered : n ≤ m) : nearestInt n ≤ nearestInt m := by
  unfold nearestInt
  split
  · split
    · have magnitudes : m.natAbs ≤ n.natAbs := by omega
      have rounded := nearest_mono magnitudes
      omega
    · omega
  · have not_negative : ¬ m < 0 := by omega
    have magnitudes : n.natAbs ≤ m.natAbs := by omega
    rw [if_neg not_negative]
    exact Int.ofNat_le.mpr (nearest_mono magnitudes)

theorem nearestInt_natAbs (n : Int) : (nearestInt n).natAbs = nearest n.natAbs := by
  unfold nearestInt
  split <;> omega

theorem nearestInt_lt {places : Nat} (small : n.natAbs < 2^places) : (nearestInt n).natAbs < 2^(places+1) := by
  rw [nearestInt_natAbs]
  rcases Nat.eq_zero_or_pos n.natAbs with zero | positive
  · rw [zero,nearest_small (n := 0) (by decide)]
    exact Nat.two_pow_pos _
  · have width := (Nat.log2_lt (Nat.ne_of_gt positive)).mpr small
    exact Nat.lt_of_le_of_lt (nearest_le positive) (Nat.pow_lt_pow_right (by decide) (by omega))

theorem nearestInt_eq_zero : nearestInt n = 0 ↔ n = 0 := by
  constructor
  · intro rounded
    by_contra other
    have positive := nearest_pos (Int.natAbs_pos.mpr other)
    unfold nearestInt at rounded
    split at rounded <;> omega
  · rintro rfl
    exact nearestInt_small (by decide)

end NearestInt

section Rounding

-- The bits shifted out are kept as far as the rounding needs them.
theorem shiftRight_bits (n places : Nat) :
    (ExtendedMantissa.mk n false false) >>> places = ExtendedMantissa.mk (n/2^places)
      (decide (2^places ≤ 2*(n % 2^places))) (decide (n % 2^places ≠ 0 ∧ 2*(n % 2^places) ≠ 2^places)) := by
  induction places with
  | zero => simp [HShiftRight.hShiftRight,Nat.repeat,Nat.mod_one]
  | succ places ih =>
    have power := Nat.two_pow_pos places
    have rest := Nat.mod_lt n power
    have next : n % 2^(places+1) = n % 2^places+2^places*(n/2^places % 2) := by rw [Nat.pow_succ,Nat.mod_mul]
    change ExtendedMantissa.shiftRightOne (ExtendedMantissa.mk n false false >>> places) = _
    rw [ih,ExtendedMantissa.shiftRightOne]
    congr 1
    · rw [Nat.pow_succ,Nat.div_div_eq_div_mul]
    · rcases Nat.mod_two_eq_zero_or_one (n/2^places) with even | odd
      · rw [next,even,Nat.pow_succ]
        simp
        omega
      · rw [next,odd,Nat.pow_succ]
        simp
        omega
    · rcases Nat.mod_two_eq_zero_or_one (n/2^places) with even | odd
      · rw [next,even,Nat.pow_succ,Bool.eq_iff_iff]
        simp
        omega
      · rw [next,odd,Nat.pow_succ,Bool.eq_iff_iff]
        simp
        omega

theorem roundedMantissa_shifted (n places : Nat) :
    ((ExtendedMantissa.mk n false false) >>> places).roundedMantissa = halfEven n places := by
  have power := Nat.two_pow_pos places
  rw [shiftRight_bits,halfEven]
  rcases Nat.lt_trichotomy (2*(n % 2^places)) (2^places) with less | same | more
  · rw [if_pos less,decide_eq_false (by omega)]
    by_cases none_left : n % 2^places = 0
    · simp [none_left,ExtendedMantissa.roundedMantissa,ExtendedMantissa.accuracy,Accuracy.roundToNearestEven]
    · have sticky : n % 2^places ≠ 0 ∧ 2*(n % 2^places) ≠ 2^places := ⟨none_left,by omega⟩
      simp [sticky,ExtendedMantissa.roundedMantissa,ExtendedMantissa.accuracy,Accuracy.roundToNearestEven]
  · rw [if_neg (by omega),if_pos same,decide_eq_true (by omega),decide_eq_false (by omega)]
    rfl
  · rw [if_neg (by omega),if_neg (by omega),decide_eq_true (by omega),decide_eq_true ⟨by omega,by omega⟩]
    rfl

end Rounding

-- A float in canonical form, and the integer it stands for.
inductive Canonical : UnpackedFloat → Int → Prop where
  | zero (sign : Sign) : Canonical (.zero sign) 0
  | finite (sign : Sign) {m places : Nat} {n : Int} (low : 2^52 ≤ m) (high : m < 2^53) (most : places ≤ 1022)
      (value : n*2^52 = sign.apply (m*2^places : Nat)) :
      Canonical (.finite sign m ((places : Int)-52) (by omega)) n

section Normalizing
variable {d n places : Nat}

theorem shiftToTarget_exact {m : Nat} (low : 2^52 ≤ m) (high : m ≤ 2^53) (places : Nat) :
    (shiftToTargetExponent Format.binary64 m ((places : Int)-52) .exact) =
      if m < 2^53 then (⟨m,false,false⟩,(places : Int)-52) else (⟨2^52,false,false⟩,((places+1 : Nat) : Int)-52) := by
  split
  · next below =>
    have kept := shifted low below 0 (e := (places : Int)-52) (by omega)
    rwa [Nat.pow_zero,Nat.mul_one,Int.natCast_zero,Int.sub_zero] at kept
  · next above =>
    obtain rfl : m = 2^52*2^1 := by omega
    have moved := shifted (Nat.le_refl (2^52)) (by decide) 1 (e := ((places+1 : Nat) : Int)-52) (by omega)
    rw [show ((places+1 : Nat) : Int)-52-(1 : Nat) = (places : Int)-52 by omega] at moved
    exact moved

theorem decreaseExponent_min (d places width : Nat) :
    decreaseExponent d ((places : Int)-52) ((width : Int)-52) =
      (d*2^(places-min places width),((min places width : Nat) : Int)-52) := by
  have amount : ((places : Int)-52-((width : Int)-52)).toNat = places-min places width := by omega
  unfold decreaseExponent
  simp only [amount,Nat.shiftLeft_eq]
  refine Prod.ext rfl ?_
  dsimp only
  omega

theorem round_canonical (positive : 0 < n) (value : d*2^places = n*2^52) (small : n < 2^200) (sign : Sign) :
    Canonical (UnpackedFloat.round Format.binary64 sign d ((places : Int)-52)) (sign.apply (nearest n)) := by
  have some_digit : 0 < d := by
    rcases Nat.eq_zero_or_pos d with rfl | some_digit
    · rw [Nat.zero_mul] at value
      omega
    · exact some_digit
  have widths : d.log2+places = n.log2+52 := by rw [← log2_shifted some_digit,value,log2_shifted positive]
  have width : n.log2 < 200 := (Nat.log2_lt (Nat.ne_of_gt positive)).mpr small
  have target : ∀ m j : Nat, m.log2+j = n.log2+52 →
      Format.binary64.targetExponent (totalExponent m ((j : Int)-52)) = (n.log2 : Int)-52 := by
    intro m j digits
    simp only [totalExponent,Format.targetExponent,Format.mantissaBits,Format.minExponent]
    norm_num
    omega
  have below : min places n.log2 ≤ n.log2 := Nat.min_le_right _ _
  have within : min places n.log2 ≤ places := Nat.min_le_left _ _
  have value_lowered : d*2^(places-min places n.log2)*2^(min places n.log2) = n*2^52 := by
    rw [Nat.mul_assoc,← Nat.pow_add,Nat.sub_add_cancel within,value]
  have widths_lowered := log2_shifted some_digit (places-min places n.log2)
  unfold UnpackedFloat.round
  simp only [target d places widths,decreaseExponent_min]
  generalize d*2^(places-min places n.log2) = lowered at value_lowered widths_lowered ⊢
  generalize min places n.log2 = j at *
  have amount : ((n.log2 : Int)-52-((j : Int)-52)).toNat = n.log2-j := by omega
  have first : shiftToTargetExponent Format.binary64 lowered ((j : Int)-52) .exact =
      (ExtendedMantissa.mk lowered false false >>> (n.log2-j),(n.log2 : Int)-52) := by
    unfold shiftToTargetExponent shiftToExponent
    simp only [target lowered j (by omega),amount,ExtendedMantissa.ofMantissaAndAccuracy]
    refine Prod.ext rfl ?_
    dsimp only
    omega
  have digits : halfEven lowered (n.log2-j) = halfEven (n*2^52) n.log2 := by
    rw [← value_lowered,← halfEven_scaled lowered (n.log2-j) j,Nat.sub_add_cancel below]
  obtain ⟨low,high⟩ := nearest_bounds positive
  have rounded := nearest_digits n
  unfold roundWithAccuracy
  simp only [first,roundedMantissa_shifted,digits]
  have again := shiftToTarget_exact low high n.log2
  have signed : ∀ q : Nat, q = nearest n*2^52 → sign.apply (nearest n)*2^52 = sign.apply q := by
    rintro _ rfl
    cases sign <;> simp [Sign.apply]
  split at again
  · next short =>
    simp only [again]
    rw [dif_neg (by omega)]
    exact .finite sign low short (by omega) (signed _ rounded)
  · next full =>
    simp only [again]
    rw [dif_neg (by decide)]
    refine .finite sign (Nat.le_refl _) (by decide) (by omega) (signed _ ?_)
    rw [← rounded,show halfEven (n*2^52) n.log2 = 2^53 by omega,Nat.pow_succ]
    ring

theorem normalize_canonical {d n : Int} (value : d*2^places = n*2^52) (small : n.natAbs < 2^200) :
    Canonical (UnpackedFloat.normalize Format.binary64 d ((places : Int)-52) .positive) (nearestInt n) := by
  have power : (0 : Int) < 2^places := by positivity
  have magnitudes : d.natAbs*2^places = n.natAbs*2^52 := by
    have both := congrArg Int.natAbs value
    rwa [Int.natAbs_mul,Int.natAbs_mul,Int.natAbs_pow,Int.natAbs_pow] at both
  unfold UnpackedFloat.normalize
  rcases lt_trichotomy d 0 with negative | rfl | positive
  · have below : n < 0 := by
      have product := Int.mul_neg_of_neg_of_pos negative power
      omega
    have found := round_canonical (Int.natAbs_pos.mpr (by omega)) magnitudes small .negative
    rw [show compare d 0 = .lt from compare_lt_iff_lt.mpr negative,nearestInt,if_pos below]
    dsimp only
    rwa [show (-d).toNat = d.natAbs by omega]
  · have none : n = 0 := by omega
    rw [none,nearestInt_small (by decide)]
    exact .zero .positive
  · have above : 0 < n := by
      have product := Int.mul_pos positive power
      omega
    have found := round_canonical (Int.natAbs_pos.mpr (by omega)) magnitudes small .positive
    rw [show compare d 0 = .gt from compare_gt_iff_gt.mpr positive,nearestInt,if_neg (by omega)]
    dsimp only
    rwa [show d.toNat = d.natAbs by omega]

end Normalizing

section Comparing
variable {x y : UnpackedFloat} {a b : Int}

theorem Canonical.unpack_pack (canonical : Canonical x a) :
    UnpackedFloat.unpack Format.binary64 (UnpackedFloat.pack Format.binary64 x) = x := by
  cases canonical with
  | zero sign => cases sign <;> rfl
  | finite sign low high most value => exact unpack_pack_normal low high sign (by omega) (by omega)

theorem compare_digits {m m' : Nat} (p p' : Nat) (low : 2^52 ≤ m) (high : m < 2^53) (low' : 2^52 ≤ m') (high' : m' < 2^53) :
    (compare ((p : Int)-52) ((p' : Int)-52)).then (compare m m') = compare (m*2^p) (m'*2^p') := by
  have shorter : ∀ {m m' p p' : Nat}, m < 2^53 → 2^52 ≤ m' → p < p' → m*2^p < m'*2^p' := by
    intro m m' p p' high low' less
    calc m*2^p < 2^53*2^p := Nat.mul_lt_mul_of_pos_right high (Nat.two_pow_pos p)
      _ = 2^52*2^(p+1) := by rw [Nat.pow_succ 2 p]; ring
      _ ≤ m'*2^p' := Nat.mul_le_mul low' (Nat.pow_le_pow_right Nat.two_pos less)
  rcases Nat.lt_trichotomy p p' with less | rfl | more
  · rw [compare_lt_iff_lt.mpr (show (p : Int)-52 < (p' : Int)-52 by omega),compare_lt_iff_lt.mpr (shorter high low' less)]
    rfl
  · have power := Nat.two_pow_pos p
    rw [compare_eq_iff_eq.mpr (rfl : (p : Int)-52 = (p : Int)-52),Ordering.then]
    rcases Nat.lt_trichotomy m m' with less | rfl | more
    · rw [compare_lt_iff_lt.mpr less,compare_lt_iff_lt.mpr (Nat.mul_lt_mul_of_pos_right less power)]
    · rw [compare_eq_iff_eq.mpr rfl,compare_eq_iff_eq.mpr rfl]
    · rw [compare_gt_iff_gt.mpr more,compare_gt_iff_gt.mpr (Nat.mul_lt_mul_of_pos_right more power)]
  · rw [compare_gt_iff_gt.mpr (show (p' : Int)-52 < (p : Int)-52 by omega),
      compare_gt_iff_gt.mpr (shorter high' low more)]
    rfl

theorem compare_natCast (p q : Nat) : compare (p : Int) (q : Int) = compare p q := by
  rcases Nat.lt_trichotomy p q with less | rfl | more
  · rw [compare_lt_iff_lt.mpr less,compare_lt_iff_lt.mpr (Int.ofNat_lt.mpr less)]
  · rw [compare_eq_iff_eq.mpr rfl,compare_eq_iff_eq.mpr rfl]
  · rw [compare_gt_iff_gt.mpr more,compare_gt_iff_gt.mpr (Int.ofNat_lt.mpr more)]

theorem compare_neg (p q : Int) : compare (-p) (-q) = (compare p q).swap := by
  rcases lt_trichotomy p q with less | rfl | more
  · rw [compare_lt_iff_lt.mpr less,compare_gt_iff_gt.mpr (Int.neg_lt_neg less)]
    rfl
  · rw [compare_eq_iff_eq.mpr rfl,compare_eq_iff_eq.mpr rfl]
    rfl
  · rw [compare_gt_iff_gt.mpr more,compare_lt_iff_lt.mpr (Int.neg_lt_neg more)]
    rfl

theorem Canonical.compare_eq (left : Canonical x a) (right : Canonical y b) : x.compare y = some (compare a b) := by
  have scaled : compare a b = compare (a*2^52) (b*2^52) := by
    have power : (0 : Int) < 2^52 := by positivity
    rcases lt_trichotomy a b with less | rfl | more
    · rw [compare_lt_iff_lt.mpr less,compare_lt_iff_lt.mpr (Int.mul_lt_mul_of_pos_right less power)]
    · rw [compare_eq_iff_eq.mpr rfl,compare_eq_iff_eq.mpr rfl]
    · rw [compare_gt_iff_gt.mpr more,compare_gt_iff_gt.mpr (Int.mul_lt_mul_of_pos_right more power)]
  have digits : ∀ m p : Nat, 2^52 ≤ m → 0 < m*2^p := fun _ _ low =>
    Nat.mul_pos (by omega) (Nat.two_pow_pos _)
  rw [scaled]
  cases left with
  | zero sign =>
    cases right with
    | zero sign' => rfl
    | @finite sign' m' p' _ low' high' most' value' =>
      have positive := digits m' p' low'
      rw [value',Int.zero_mul]
      cases sign' with
      | negative => exact congrArg some (compare_gt_iff_gt.mpr (by dsimp only [Sign.apply]; omega)).symm
      | positive => exact congrArg some (compare_lt_iff_lt.mpr (by dsimp only [Sign.apply]; omega)).symm
  | @finite sign m p _ low high most value =>
    have positive := digits m p low
    rw [value]
    cases right with
    | zero sign' =>
      rw [Int.zero_mul]
      cases sign with
      | negative => exact congrArg some (compare_lt_iff_lt.mpr (by dsimp only [Sign.apply]; omega)).symm
      | positive => exact congrArg some (compare_gt_iff_gt.mpr (by dsimp only [Sign.apply]; omega)).symm
    | @finite sign' m' p' _ low' high' most' value' =>
      have positive' := digits m' p' low'
      have compared := compare_digits p p' low high low' high'
      rw [← compare_natCast (m*2^p)] at compared
      rw [value']
      cases sign <;> cases sign'
      · exact congrArg some ((congrArg Ordering.swap compared).trans (compare_neg _ _).symm)
      · exact congrArg some (compare_lt_iff_lt.mpr (by dsimp only [Sign.apply]; omega)).symm
      · exact congrArg some (compare_gt_iff_gt.mpr (by dsimp only [Sign.apply]; omega)).symm
      · exact congrArg some compared

end Comparing

section Subtracting
variable {x y : UnpackedFloat} {a b : Int}

theorem Canonical.abs (canonical : Canonical x a) : Canonical x.abs a.natAbs := by
  cases canonical with
  | zero sign => exact .zero .positive
  | @finite sign m places _ low high most value =>
    refine .finite .positive low high most ?_
    have magnitude := congrArg Int.natAbs value
    rw [Int.natAbs_mul] at magnitude
    cases sign <;> simp only [Sign.apply,Int.natAbs_neg,Int.natAbs_natCast] at magnitude ⊢ <;> exact_mod_cast magnitude

theorem Canonical.sub (left : Canonical x a) (right : Canonical y b) (small_a : a.natAbs < 2^199) (small_b : b.natAbs < 2^199) :
    ∃ d, Canonical (UnpackedFloat.sub Format.binary64 x y) d ∧ (d = 0 ↔ a = b) := by
  cases left with
  | zero sign =>
    cases right with
    | zero sign' =>
      refine ⟨0,?_,Iff.rfl⟩
      cases sign <;> cases sign' <;> exact .zero _
    | @finite sign' m' p' _ low' high' most' value' =>
      refine ⟨-b,.finite (-sign') low' high' most' ?_,by omega⟩
      rw [Int.neg_mul,value']
      cases sign' with
      | negative => exact Int.neg_neg _
      | positive => rfl
  | @finite sign m p _ low high most value =>
    cases right with
    | zero sign' => exact ⟨a,.finite sign low high most value,Iff.rfl⟩
    | @finite sign' m' p' _ low' high' most' value' =>
      refine ⟨nearestInt (a-b),?_,by rw [nearestInt_eq_zero]; omega⟩
      have smaller : min ((p : Int)-52) ((p' : Int)-52) = ((min p p' : Nat) : Int)-52 := by omega
      have power : ∀ (sign : Sign) (m p q : Nat), q ≤ p →
          sign.apply (m*2^(p-q) : Nat)*2^q = sign.apply (m*2^p : Nat) := by
        intro sign m p q below
        have split : m*2^(p-q)*2^q = m*2^p := by rw [Nat.mul_assoc,← Nat.pow_add,Nat.sub_add_cancel below]
        rw [← split]
        cases sign <;> simp [Sign.apply]
      simp only [UnpackedFloat.sub,smaller,decreaseExponent_min]
      refine normalize_canonical ?_ (by omega)
      rw [Int.sub_mul,Int.sub_mul,value,value']
      rw [show min p (min p p') = min p p' by omega,show min p' (min p p') = min p p' by omega,
        power sign m p _ (Nat.min_le_left _ _),power sign' m' p' _ (Nat.min_le_right _ _)]

end Subtracting

section Casting
variable {a b : Int}

theorem canonical_ofWhole (small : a.natAbs < 2^200) : Canonical (ofWhole a).toModel.unpack (nearestInt a) := by
  have rounded : Canonical (UnpackedFloat.ofInt Format.binary64 a) (nearestInt a) :=
    @normalize_canonical 52 a a rfl small
  have kept := rounded.unpack_pack
  change Canonical (UnpackedFloat.unpack Format.binary64 (UnpackedFloat.pack Format.binary64
    (UnpackedFloat.ofInt Format.binary64 a))) _
  rwa [kept]

theorem compare_ofWhole (small_a : a.natAbs < 2^200) (small_b : b.natAbs < 2^200) :
    (ofWhole a).toModel.unpack.compare (ofWhole b).toModel.unpack = some (compare (nearestInt a) (nearestInt b)) :=
  (canonical_ofWhole small_a).compare_eq (canonical_ofWhole small_b)

theorem lt_ofWhole (small_a : a.natAbs < 2^200) (small_b : b.natAbs < 2^200) :
    ofWhole a < ofWhole b ↔ nearestInt a < nearestInt b := by
  have decided : ofWhole a < ofWhole b ↔
      ((ofWhole a).toModel.unpack.compare (ofWhole b).toModel.unpack == some .lt) = true := decide_eq_true_iff
  rw [decided,compare_ofWhole small_a small_b,beq_iff_eq,Option.some_inj,compare_lt_iff_lt]

theorem le_ofWhole (small_a : a.natAbs < 2^200) (small_b : b.natAbs < 2^200) :
    ofWhole a ≤ ofWhole b ↔ nearestInt a ≤ nearestInt b := by
  have decided : ofWhole a ≤ ofWhole b ↔
      ((ofWhole a).toModel.unpack.compare (ofWhole b).toModel.unpack).any (·.isLE) = true := decide_eq_true_iff
  rw [decided,compare_ofWhole small_a small_b,Option.any_some,Ordering.isLE_iff_ne_gt,compare_gt_iff_gt.not,not_lt]

theorem beq_ofWhole (small_a : a.natAbs < 2^200) (small_b : b.natAbs < 2^200) :
    (ofWhole a == ofWhole b) = decide (nearestInt a = nearestInt b) := by
  change ((ofWhole a).toModel.unpack.compare (ofWhole b).toModel.unpack == some .eq) = _
  rw [compare_ofWhole small_a small_b,Bool.eq_iff_iff,beq_iff_eq,Option.some_inj,compare_eq_iff_eq,decide_eq_true_iff]

theorem close_ofWhole {tolerance : Float} {m : Nat} {e : Int} {positive : 0 < m}
    (tiny : tolerance.toModel.unpack = .finite .positive m e positive) (below : e < -52)
    (small_a : a.natAbs < 2^198) (small_b : b.natAbs < 2^198) :
    (ofWhole a-ofWhole b).abs < tolerance ↔ nearestInt a = nearestInt b := by
  obtain ⟨d,difference,zero_iff⟩ := (canonical_ofWhole (Nat.lt_trans small_a (by decide))).sub
    (canonical_ofWhole (Nat.lt_trans small_b (by decide))) (nearestInt_lt small_a) (nearestInt_lt small_b)
  have subtracted : (ofWhole a-ofWhole b).toModel.unpack =
      UnpackedFloat.sub Format.binary64 (ofWhole a).toModel.unpack (ofWhole b).toModel.unpack := difference.unpack_pack
  have magnitude : (ofWhole a-ofWhole b).abs.toModel.unpack = (ofWhole a-ofWhole b).toModel.unpack.abs := by
    rw [subtracted]
    change UnpackedFloat.unpack _ (UnpackedFloat.pack _ (ofWhole a-ofWhole b).toModel.unpack.abs) = _
    rw [subtracted]
    exact difference.abs.unpack_pack
  have decided : (ofWhole a-ofWhole b).abs < tolerance ↔
      ((ofWhole a-ofWhole b).abs.toModel.unpack.compare tolerance.toModel.unpack == some .lt) = true := decide_eq_true_iff
  rw [decided,magnitude,subtracted,tiny,← zero_iff,beq_iff_eq]
  generalize UnpackedFloat.sub Format.binary64 (ofWhole a).toModel.unpack (ofWhole b).toModel.unpack = x at difference
  cases difference with
  | zero sign => exact ⟨fun _ => rfl,fun _ => rfl⟩
  | @finite sign m' places _ low high most value =>
    have above : compare ((places : Int)-52) e = .gt := compare_gt_iff_gt.mpr (by omega)
    have other : d ≠ 0 := by
      rintro rfl
      have digit := Nat.mul_pos (show 0 < m' by omega) (Nat.two_pow_pos places)
      cases sign <;> dsimp only [Sign.apply] at value <;> omega
    refine ⟨fun less => ?_,fun zero => absurd zero other⟩
    dsimp only [UnpackedFloat.abs,UnpackedFloat.compare] at less
    rw [above] at less
    cases Option.some.inj less

end Casting

end WholeFloat
end RemDb.Lib
