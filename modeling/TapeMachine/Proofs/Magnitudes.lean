import Mathlib
import TapeMachine.Json.Encoding
import TapeMachine.Machine.Setting

/-!
How large the numbers are that are read. A literal has no more digits than the limit allows,
and a finite number in floating point lies below a power of two, so that its whole part has
fewer digits than that. Of a text that is read as an object, all fields have such values.
-/

namespace TapeMachine

theorem Text.digit?_lt {c : CodePoint} {d : Nat} (h : digit? c = some d) : d < 10 := by
  unfold digit? at h
  split at h
  · split at h <;> cases h
    omega
  · obtain ⟨first, hfind, rfl⟩ := Option.map_eq_some_iff.1 h
    have hrange := List.find?_some hfind
    rw [decide_eq_true_eq] at hrange
    omega

namespace Literal

theorem lt_of_mem_digitsOf {run : Text} : ∀ d ∈ digitsOf run, d < 10 := by
  intro d hd
  obtain ⟨c, _, hc⟩ := List.mem_filterMap.1 hd
  exact Text.digit?_lt hc

/-- A number is shorter than the power of ten for the number of its digits. -/
theorem natOfDigits_lt {digits : List Nat} (h : ∀ d ∈ digits, d < 10) :
    natOfDigits digits < 10 ^ digits.length := by
  have go (n : Nat) :
      digits.foldl (fun n d => 10 * n + d) n + 1 ≤ (n + 1) * 10 ^ digits.length := by
    induction digits generalizing n with
    | nil => simp
    | cons d rest ih =>
        have hd := h d (List.mem_cons_self ..)
        calc
          (d :: rest).foldl (fun n d => 10 * n + d) n + 1
              ≤ (10 * n + d + 1) * 10 ^ rest.length :=
            ih (fun e he => h e (List.mem_cons_of_mem d he)) (10 * n + d)
          _ ≤ (n + 1) * 10 * 10 ^ rest.length := Nat.mul_le_mul_right _ (by omega)
          _ = (n + 1) * 10 ^ (d :: rest).length := by rw [List.length_cons, pow_succ']; ring
  have bound := go 0
  rw [Nat.zero_add, Nat.one_mul] at bound
  exact bound

theorem natOfDigits_digitsOf_lt {run : Text} {limit : Nat} (h : (digitsOf run).length ≤ limit) :
    natOfDigits (digitsOf run) < 10 ^ limit :=
  (natOfDigits_lt lt_of_mem_digitsOf).trans_le (Nat.pow_le_pow_right (by decide) h)

end Literal

namespace Binary64

theorem natAbs_signed (negative : Bool) (n : Nat) : (signed negative n).natAbs = n := by
  cases negative
  · exact Int.natAbs_natCast n
  · exact (Int.natAbs_neg n).trans (Int.natAbs_natCast n)

theorem roundQuotient_le (numerator denominator : Nat) :
    roundQuotient numerator denominator ≤ numerator / denominator + 1 := by
  unfold roundQuotient
  simp only
  split
  · omega
  · split <;> omega

theorem le_binaryOrder (numerator denominator : Nat) :
    (numerator.log2 : Int) - denominator.log2 - 1 ≤ binaryOrder numerator denominator := by
  unfold binaryOrder
  simp only
  split <;> omega

/-- A fraction divided by a power of two close to it has few binary digits before the point. -/
theorem scaled_quotient_lt (numerator : Nat) {denominator : Nat} (exponent : Int)
    (hpositive : 0 < denominator)
    (horder : (numerator.log2 : Int) - denominator.log2 - 53 ≤ exponent) :
    (scale numerator denominator (-exponent)).1 / (scale numerator denominator (-exponent)).2 <
      2 ^ 54 := by
  have habove : numerator < 2 ^ (numerator.log2 + 1) := Nat.lt_log2_self
  have hbelow : 2 ^ denominator.log2 ≤ denominator := Nat.log2_self_le hpositive.ne'
  unfold scale
  split
  · next hsign =>
    rw [Nat.shiftLeft_eq]
    apply Nat.div_lt_of_lt_mul
    calc
      numerator * 2 ^ (-exponent).toNat
          < 2 ^ (numerator.log2 + 1) * 2 ^ (-exponent).toNat :=
        Nat.mul_lt_mul_of_pos_right habove (by positivity)
      _ = 2 ^ (numerator.log2 + 1 + (-exponent).toNat) := (pow_add ..).symm
      _ ≤ 2 ^ (denominator.log2 + 54) := Nat.pow_le_pow_right (by decide) (by omega)
      _ = 2 ^ denominator.log2 * 2 ^ 54 := pow_add ..
      _ ≤ denominator * 2 ^ 54 := Nat.mul_le_mul_right _ hbelow
  · next hsign =>
    rw [Nat.shiftLeft_eq]
    apply Nat.div_lt_of_lt_mul
    calc
      numerator < 2 ^ (numerator.log2 + 1) := habove
      _ ≤ 2 ^ (denominator.log2 + (-(-exponent)).toNat + 54) :=
        Nat.pow_le_pow_right (by decide) (by omega)
      _ = 2 ^ denominator.log2 * 2 ^ (-(-exponent)).toNat * 2 ^ 54 := by rw [pow_add, pow_add]
      _ ≤ denominator * 2 ^ (-(-exponent)).toNat * 2 ^ 54 :=
        Nat.mul_le_mul_right _ (Nat.mul_le_mul_right _ hbelow)

/-- Whether a value, if it is finite, has a significand and an exponent of the sizes that
rounding leaves. -/
def IsModerate : Binary64 → Prop
  | finite _ significand exponent => significand ≤ 2 ^ 54 ∧ exponent ≤ maxExponent
  | _ => True

theorem isModerate_zero (negative : Bool) : (finite negative 0 minExponent).IsModerate :=
  ⟨Nat.zero_le _, by decide⟩

theorem isModerate_capped (negative : Bool) {significand : Nat} (exponent : Int)
    (h : significand ≤ 2 ^ 54) :
    (if maxExponent < exponent then infinite negative
      else finite negative significand exponent).IsModerate := by
  split
  · trivial
  · next hexponent => exact ⟨h, Int.not_lt.1 hexponent⟩

theorem isModerate_ofFraction (negative : Bool) (numerator : Nat) {denominator : Nat}
    (hpositive : 0 < denominator) : (ofFraction negative numerator denominator).IsModerate := by
  have horder := le_binaryOrder numerator denominator
  have hquotient := scaled_quotient_lt numerator
    (max (binaryOrder numerator denominator - 52) minExponent) hpositive (by omega)
  have hcarried : 1 <<< 52 ≤ 2 ^ 54 := by decide
  unfold ofFraction
  split
  · exact isModerate_zero negative
  · simp only
    split
    · exact isModerate_capped negative _ hcarried
    · exact isModerate_capped negative _ ((roundQuotient_le ..).trans hquotient)

theorem isModerate_ofDecimal (negative : Bool) (coefficient : Nat) (exponent : Int) :
    (ofDecimal negative coefficient exponent).IsModerate := by
  unfold ofDecimal
  split
  · exact isModerate_zero negative
  · simp only
    split
    · trivial
    · split
      · exact isModerate_zero negative
      · split
        · exact isModerate_ofFraction negative _ Nat.one_pos
        · exact isModerate_ofFraction negative _ (Nat.pow_pos (by decide))

theorem two_pow_lt {k : Nat} (hk : k ≤ Literal.digitLimit) : 2 ^ k < 10 ^ Literal.digitLimit :=
  calc
    2 ^ k ≤ 2 ^ Literal.digitLimit := Nat.pow_le_pow_right (by decide) hk
    _ < 10 ^ Literal.digitLimit := Nat.pow_lt_pow_left (by decide) (by decide)

theorem one_shiftLeft_lt {k : Nat} (hk : k ≤ Literal.digitLimit) :
    1 <<< k < 10 ^ Literal.digitLimit := by
  rw [Nat.one_shiftLeft]
  exact two_pow_lt hk

/-- The whole part of a moderate value is shorter than the longest literal. -/
theorem IsModerate.natAbs_truncate_lt {x : Binary64} {n : Int} (h : x.IsModerate)
    (hn : x.truncate? = some n) : n.natAbs < 10 ^ Literal.digitLimit := by
  cases x with
  | nan => cases hn
  | infinite negative => cases hn
  | finite negative significand exponent =>
      obtain ⟨hsignificand, hexponent⟩ := h
      cases hn
      rw [natAbs_signed]
      have hlimit : 2 ^ 54 * 2 ^ maxExponent.toNat < 10 ^ Literal.digitLimit := by
        rw [← pow_add]
        exact two_pow_lt (by decide)
      refine lt_of_le_of_lt ?_ hlimit
      simp only [floorMagnitude, scale, Int.add_zero]
      split
      · rw [Nat.div_one, Nat.shiftLeft_eq]
        exact Nat.mul_le_mul hsignificand
          (Nat.pow_le_pow_right (by decide) (Int.toNat_le_toNat hexponent))
      · calc
          significand / 1 <<< (-exponent).toNat ≤ significand := Nat.div_le_self ..
          _ ≤ 2 ^ 54 := hsignificand
          _ ≤ 2 ^ 54 * 2 ^ maxExponent.toNat := Nat.le_mul_of_pos_right _ (by positivity)

end Binary64

theorem Literal.natAbs_integer_lt {t : Text} {n : Int} (h : integer t = .ok n) :
    n.natAbs < 10 ^ digitLimit := by
  simp only [integer] at h
  split at h
  · cases h
  · split at h
    · cases h
    · next hdigits =>
      split at h
      · cases h
      · cases h
        rw [Binary64.natAbs_signed]
        exact natOfDigits_digitsOf_lt (Nat.not_lt.1 hdigits)

namespace Json

/-- Whether a number, if the value is one, is as small as those that are read. -/
def Fits : Json → Prop
  | int n => n.natAbs < 10 ^ Literal.digitLimit
  | real x => x.IsModerate
  | _ => True

/-- Whether the fields, if the value is an object, have numbers as small as those that are
read. -/
def FieldsFit : Json → Prop
  | object fields => ∀ field ∈ fields, field.2.Fits
  | _ => True

theorem fits_of_readNumber {negative : Bool} {t rest : Text} {value : Json}
    (h : readNumber (some Literal.digitLimit) negative t = some (value, rest)) :
    value.Fits ∧ value.FieldsFit := by
  simp only [readNumber] at h
  generalize (if Text.startsWith (t.takeWhile Text.isAsciiDigit) '0' then _ else _) = whole at h
  split at h
  · cases h
  · split at h
    · split at h
      · cases h
      · next hlimit =>
        cases h
        refine ⟨?_, trivial⟩
        simp only [Option.map_some, Option.getD_some, decide_eq_true_eq, Nat.not_lt] at hlimit
        rw [Fits, Binary64.natAbs_signed]
        exact Literal.natOfDigits_digitsOf_lt ((List.length_filterMap_le ..).trans hlimit)
    · cases h
      exact ⟨Binary64.isModerate_ofDecimal .., trivial⟩

theorem fits_of_readWord {t rest : Text} {value : Json} (h : readWord t = some (value, rest)) :
    value.Fits ∧ value.FieldsFit := by
  obtain ⟨⟨word, value'⟩, hfind, hword⟩ := Option.map_eq_some_iff.1 h
  have hmem := List.mem_of_find?_eq_some hfind
  cases hword
  simp only [words, List.map_cons, List.map_nil, List.mem_cons, Prod.mk.injEq,
    List.not_mem_nil, or_false] at hmem
  rcases hmem with ⟨_, rfl⟩ | ⟨_, rfl⟩ | ⟨_, rfl⟩ | ⟨_, rfl⟩ | ⟨_, rfl⟩ | ⟨_, rfl⟩ <;>
    exact ⟨trivial, trivial⟩

theorem fits_of_readScalar {t rest : Text} {value : Json}
    (h : readScalar (some Literal.digitLimit) t = some (value, rest)) :
    value.Fits ∧ value.FieldsFit := by
  unfold readScalar at h
  split at h
  · next found hword =>
    cases h
    exact fits_of_readWord hword
  · split at h
    · exact fits_of_readNumber h
    · exact fits_of_readNumber h

theorem eq_list_of_readItems {limit : Option Nat} {fuel depth : Nat} {done : List Json}
    {t rest : Text} {value : Json} (h : readItems limit fuel depth done t = .ok (value, rest)) :
    ∃ items, value = .list items := by
  induction fuel generalizing done t with
  | zero => cases h
  | succ fuel ih =>
      rw [readItems] at h
      split at h
      · cases h
      · split at h
        · exact ih h
        · cases h
          exact ⟨_, rfl⟩
        · cases h

/-- Fields are read by reading one, and then either more of them or the end of the object. -/
theorem readFields_cases {limit : Option Nat} {fuel depth : Nat} {done : List (Text × Json)}
    {t rest : Text} {value : Json}
    (h : readFields limit (fuel + 1) depth done t = .ok (value, rest)) :
    ∃ before name item after, readValue limit fuel depth before = .ok (item, after) ∧
      ((∃ more, readFields limit fuel depth ((name, item) :: done) more = .ok (value, rest)) ∨
        value = .object ((name, item) :: done).reverse) := by
  unfold readFields at h
  split at h
  · split at h
    · cases h
    · split at h
      · split at h
        · cases h
        · next item after hitem =>
          split at h
          · exact ⟨_, _, item, after, hitem, Or.inl ⟨_, h⟩⟩
          · cases h
            exact ⟨_, _, item, after, hitem, Or.inr rfl⟩
          · cases h
      · cases h
  · cases h

/-- What reading a value and reading the fields of an object have to give with as many levels
as there are left. -/
def ReadsFit (fuel : Nat) : Prop :=
  (∀ depth t value rest,
      readValue (some Literal.digitLimit) fuel depth t = .ok (value, rest) →
        value.Fits ∧ value.FieldsFit) ∧
    ∀ depth done t value rest, (∀ field ∈ done, field.2.Fits) →
      readFields (some Literal.digitLimit) fuel depth done t = .ok (value, rest) →
        value.Fits ∧ value.FieldsFit

theorem readsFit (fuel : Nat) : ReadsFit fuel := by
  induction fuel with
  | zero =>
      constructor
      · intro depth t value rest h
        cases h
      · intro depth done t value rest _ h
        cases h
  | succ fuel ih =>
      obtain ⟨hvalue, hfields⟩ := ih
      constructor
      · intro depth t value rest h
        unfold readValue at h
        split at h
        · next none => cases none
        · split at h <;> cases h
          exact ⟨trivial, trivial⟩
        · cases h
        · split at h
          · cases h
            exact ⟨trivial, trivial⟩
          · obtain ⟨items, rfl⟩ := eq_list_of_readItems h
            exact ⟨trivial, trivial⟩
        · cases h
        · next same =>
          cases same
          split at h
          · cases h
            exact ⟨trivial, List.forall_mem_nil _⟩
          · exact hfields _ _ _ _ _ (List.forall_mem_nil _) h
        · split at h
          · cases h
          · next found hscalar =>
            cases h
            exact fits_of_readScalar hscalar
      · intro depth done t value rest hdone h
        obtain ⟨before, name, item, after, hitem, next⟩ := readFields_cases h
        have hmore : ∀ field ∈ (name, item) :: done, field.2.Fits :=
          List.forall_mem_cons.2 ⟨(hvalue depth before item after hitem).1, hdone⟩
        rcases next with ⟨more, hnext⟩ | rfl
        · exact hfields depth _ more value rest hmore hnext
        · refine ⟨trivial, ?_⟩
          intro field hfield
          exact hmore field (List.mem_reverse.1 hfield)

/-- In an object that is read, the numbers in the fields are small. -/
theorem fits_of_ofBytes {bytes : List UInt8} {fields : List (Text × Json)}
    (h : ofBytes bytes = .ok (.object fields)) : ∀ field ∈ fields, field.2.Fits := by
  unfold ofBytes at h
  split at h
  · cases h
  · unfold ofText at h
    split at h
    · cases h
    · next value rest hvalue =>
      split at h
      · cases h
        exact ((readsFit _).1 _ _ _ _ hvalue).2
      · cases h

theorem fits_of_field? {name : String} {fields : List (Text × Json)} {value : Json}
    (hfields : ∀ field ∈ fields, field.2.Fits) (h : field? name fields = some value) :
    value.Fits := by
  obtain ⟨before, after, split, _⟩ := List.lookup_eq_some_iff.1 h
  have hmem : (Text.ofString name, value) ∈ fields.reverse := by
    rw [split]
    exact List.mem_append_right _ (List.mem_cons_self ..)
  exact hfields _ (List.mem_reverse.1 hmem)

end Json

/-- The integer that such a value stands for is no longer than the longest literal. -/
theorem Number.natAbs_whole_lt {value : Json} {n : Int} (hfits : value.Fits)
    (h : whole value = .ok n) : n.natAbs < 10 ^ Literal.digitLimit := by
  cases value with
  | int m =>
      cases h
      exact hfits
  | real x =>
      simp only [whole, wholeOfReal] at h
      split at h <;> cases h
      next htruncate => exact Binary64.IsModerate.natAbs_truncate_lt hfits htruncate
  | bool b =>
      have hone : 1 < 10 ^ Literal.digitLimit := Nat.one_lt_pow (by decide) (by decide)
      cases h
      cases b
      · exact Nat.zero_lt_one.trans hone
      · exact hone
  | text t =>
      simp only [whole] at h
      split at h <;> cases h
      next hinteger => exact Literal.natAbs_integer_lt hinteger
  | null => cases h
  | list items => cases h
  | object fields => cases h

end TapeMachine
