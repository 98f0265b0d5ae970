import CurveArea.Polynomial.Closeness
import CurveArea.Proofs.Polynomial.Difference
import CurveArea.Proofs.Polynomial.Pruned

/-!
# Closeness at every degree

Two polynomials are compared at the degrees that either of them stores. At any other degree both
coefficients are the positive zero, so a comparison that takes zero for close to itself speaks of
all degrees at once: the relative one always does, the absolute one unless its tolerance is
negative. Therefore the order of the two does not matter, and neither does a zero that is stored.

With the tolerance of the zero test, the absolute comparison and the zero test of the difference say
nearly the same. They part where two coefficients are the tolerance itself apart, which is close
enough for the one and not zero for the other.
-/

namespace CurveArea.Polynomial

section Degreewise

variable {α : Type} [Scalar α] (close : α → α → Bool)

/-- A comparison of the coefficients at the stored degrees is one at all degrees, if zero is close
to itself. -/
theorem all_degreesUnion_iff (zero : close Scalar.zero Scalar.zero = true) (p q : Polynomial α) :
    ((degreesUnion p q).all fun d => close (p.coefficient d) (q.coefficient d)) = true ↔
      ∀ d, close (p.coefficient d) (q.coefficient d) = true := by
  rw [List.all_eq_true]
  constructor
  · intro stored d
    by_cases member : d ∈ degreesUnion p q
    · exact stored d member
    · obtain ⟨absentP, absentQ⟩ := not_or.mp (mt mem_degreesUnion.mpr member)
      rw [coefficient_eq_zero_of_notMem absentP, coefficient_eq_zero_of_notMem absentQ, zero]
  · exact fun everywhere d _ => everywhere d

theorem all_degreesUnion_comm (comm : ∀ x y, close x y = close y x) (p q : Polynomial α) :
    ((degreesUnion p q).all fun d => close (p.coefficient d) (q.coefficient d)) =
      (degreesUnion q p).all fun d => close (q.coefficient d) (p.coefficient d) := by
  rw [degreesUnion_comm]
  simp only [comm]

end Degreewise

/-! ## The two comparisons of numbers -/

section Numbers

variable (epsilon maxRelative x y : Float)

theorem numbersWithin_comm : numbersWithin epsilon x y = numbersWithin epsilon y x := by
  have distance : Scalar.abs (x - y) = Scalar.abs (y - x) := Binary64.abs_sub_comm x y
  rw [numbersWithin, numbersWithin, distance]

theorem numbersClose_comm :
    numbersClose epsilon maxRelative x y = numbersClose epsilon maxRelative y x := by
  have distance : Scalar.abs (x - y) = Scalar.abs (y - x) := Binary64.abs_sub_comm x y
  have largest : Scalar.larger (Scalar.abs x) (Scalar.abs y) =
      Scalar.larger (Scalar.abs y) (Scalar.abs x) :=
    (Binary64.unsigned_abs x).larger_comm (Binary64.unsigned_abs y)
  rw [numbersClose, numbersClose, BEq.comm (a := x), Bool.or_comm, distance, largest]

/-- What is neither finite nor a NaN is an infinity. -/
theorem isInfinite_eq_isInf : numbersClose.isInfinite x = x.isInf := by
  have opened : numbersClose.isInfinite x =
      (!(Binary64.unpacked x).isFinite && (Binary64.unpacked x).beq (Binary64.unpacked x)) := rfl
  have infinite : x.isInf = (Binary64.unpacked x).isInf := rfl
  rw [opened, infinite]
  cases Binary64.unpacked x with
  | infinity sign => cases sign <;> rfl
  | _ => rfl

theorem numbersClose_iff : numbersClose epsilon maxRelative x y = true ↔
    (x == y) = true ∨ (x.isInf = false ∧ y.isInf = false ∧
      ((x - y).abs ≤ epsilon ∨ (x - y).abs ≤ Scalar.larger x.abs y.abs * maxRelative)) := by
  have apart : Scalar.abs (x - y) = (x - y).abs := rfl
  have first : Scalar.abs x = x.abs := rfl
  have second : Scalar.abs y = y.abs := rfl
  rw [numbersClose, isInfinite_eq_isInf, isInfinite_eq_isInf, apart, first, second]
  by_cases same : (x == y) = true
  · exact iff_of_true (if_pos same) (.inl same)
  · rw [if_neg same, or_iff_right same]
    cases x.isInf with
    | true => simp
    | false => cases y.isInf <;> simp

variable {epsilon} in
/-- Zero is within every tolerance of itself that is not negative. -/
theorem numbersWithin_zero (nonneg : 0.0 ≤ epsilon) : numbersWithin epsilon 0.0 0.0 = true := by
  have distance : Scalar.abs (0.0 - 0.0 : Float) = 0.0 := rfl
  rw [numbersWithin, distance]
  exact decide_eq_true nonneg

theorem numbersWithin_neg_zero : numbersWithin epsilon (-0.0) y = numbersWithin epsilon 0.0 y := by
  have distance : Scalar.abs (-0.0 - y) = Scalar.abs (0.0 - y) := Binary64.abs_neg_zero_sub y
  rw [numbersWithin, numbersWithin, distance]

theorem numbersClose_neg_zero :
    numbersClose epsilon maxRelative (-0.0) y = numbersClose epsilon maxRelative 0.0 y := by
  have distance : Scalar.abs (-0.0 - y) = Scalar.abs (0.0 - y) := Binary64.abs_neg_zero_sub y
  have magnitude : Scalar.abs (-0.0 : Float) = Scalar.abs 0.0 := rfl
  have number : numbersClose.isInfinite (-0.0 : Float) = numbersClose.isInfinite (0.0 : Float) :=
    rfl
  rw [numbersClose, numbersClose, Binary64.neg_zero_beq, distance, magnitude, number]

end Numbers

variable {p p' q : Polynomial Float} {epsilon : Float}

/-- Two polynomials are close if and only if their coefficients are close at every degree, the
degrees that neither of them stores included. -/
theorem within_iff (nonneg : 0.0 ≤ epsilon) :
    p.within q epsilon = true ↔ ∀ d, (p.coefficient d - q.coefficient d).abs ≤ epsilon := by
  rw [within, all_degreesUnion_iff (numbersWithin epsilon) (numbersWithin_zero nonneg)]
  exact forall_congr' fun d => decide_eq_true_iff

theorem close_iff (epsilon maxRelative : Float) :
    p.close q epsilon maxRelative = true ↔
      ∀ d, numbersClose epsilon maxRelative (p.coefficient d) (q.coefficient d) = true :=
  all_degreesUnion_iff (numbersClose epsilon maxRelative) rfl p q

theorem within_comm (p q : Polynomial Float) (epsilon : Float) :
    p.within q epsilon = q.within p epsilon :=
  all_degreesUnion_comm (numbersWithin epsilon) (numbersWithin_comm epsilon) p q

theorem close_comm (p q : Polynomial Float) (epsilon maxRelative : Float) :
    p.close q epsilon maxRelative = q.close p epsilon maxRelative :=
  all_degreesUnion_comm (numbersClose epsilon maxRelative)
    (numbersClose_comm epsilon maxRelative) p q

/-! ## Stored zeros -/

/-- One polynomial has all entries of the other and one more, whose coefficient is zero. -/
def HasZeroMore (p p' : Polynomial Float) : Prop :=
  ∃ d c, (c == 0.0) = true ∧ p'.terms.Perm ((d, c) :: p.terms)

/-- A zero that is added at a degree which is not stored is one more entry. -/
theorem hasZeroMore_addTerm {d : Degree} (absent : d ∉ p.degrees) :
    p.HasZeroMore (p.addTerm d 0.0) := by
  refine ⟨d, 0.0, rfl, ?_⟩
  have new : ∀ terms : List (Degree × Float), d ∉ terms.map (·.1) →
      (addEntry d 0.0 terms).Perm ((d, 0.0) :: terms) := by
    intro terms absent
    induction terms with
    | nil => exact .refl _
    | cons t rest ih =>
      obtain ⟨other, absent⟩ := not_or.mp (mt List.mem_cons.mpr absent)
      rw [addEntry, if_neg other]
      split
      · exact .refl _
      · exact ((ih absent).cons t).trans (.swap _ _ _)
  exact new p.terms absent

/-- The additional zero is seen at no degree, except that it may have a sign. -/
theorem HasZeroMore.coefficient (more : p.HasZeroMore p') (d : Degree) :
    p'.coefficient d = p.coefficient d ∨ p'.coefficient d = -0.0 ∧ p.coefficient d = 0.0 := by
  obtain ⟨e, c, zero, entries⟩ := more
  have degrees : p'.degrees.Perm (e :: p.degrees) := entries.map _
  by_cases same : d = e
  · have once : (e :: p.degrees).Nodup :=
      degrees.nodup_iff.mp (p'.sorted_degrees.imp UInt32.ne_of_lt)
    have stored : (e, c) ∈ p'.terms := entries.mem_iff.mpr List.mem_cons_self
    rw [same, coefficient_eq_of_mem stored,
      coefficient_eq_zero_of_notMem (List.nodup_cons.mp once).1]
    obtain ⟨-, -, rfl | ⟨rfl, -⟩ | ⟨rfl, -⟩⟩ := Float.beq_iff_ne_nan_and_eq.mp zero
    · exact .inl rfl
    · exact .inl rfl
    · exact .inr ⟨rfl, rfl⟩
  · left
    by_cases stored : d ∈ p.degrees
    · obtain ⟨t, member, rfl⟩ := List.mem_map.mp stored
      have kept : t ∈ p'.terms := entries.mem_iff.mpr (List.mem_cons_of_mem _ member)
      rw [coefficient_eq_of_mem kept, coefficient_eq_of_mem member]
    · have absent : d ∉ p'.degrees := by
        rw [degrees.mem_iff, List.mem_cons]
        exact not_or.mpr ⟨same, stored⟩
      rw [coefficient_eq_zero_of_notMem absent, coefficient_eq_zero_of_notMem stored]

/-- A comparison that does not look at the sign of a zero is the same with one more zero. -/
theorem HasZeroMore.all_degreesUnion_eq (more : p.HasZeroMore p')
    (close : Float → Float → Bool) (zero : close 0.0 0.0 = true)
    (unsigned : ∀ y, close (-0.0) y = close 0.0 y) (q : Polynomial Float) :
    ((degreesUnion p' q).all fun d => close (p'.coefficient d) (q.coefficient d)) =
      (degreesUnion p q).all fun d => close (p.coefficient d) (q.coefficient d) := by
  rw [Bool.eq_iff_iff, all_degreesUnion_iff close zero, all_degreesUnion_iff close zero]
  refine forall_congr' fun d => ?_
  rcases more.coefficient d with same | ⟨signed, vanishes⟩
  · rw [same]
  · rw [signed, vanishes, unsigned]

theorem HasZeroMore.within_eq (more : p.HasZeroMore p') (nonneg : 0.0 ≤ epsilon)
    (q : Polynomial Float) :
    p'.within q epsilon = p.within q epsilon ∧ q.within p' epsilon = q.within p epsilon := by
  have first : p'.within q epsilon = p.within q epsilon :=
    more.all_degreesUnion_eq (numbersWithin epsilon) (numbersWithin_zero nonneg)
      (numbersWithin_neg_zero epsilon) q
  refine ⟨first, ?_⟩
  rw [within_comm q p', within_comm q p, first]

theorem HasZeroMore.close_eq (more : p.HasZeroMore p') (epsilon maxRelative : Float)
    (q : Polynomial Float) :
    p'.close q epsilon maxRelative = p.close q epsilon maxRelative ∧
      q.close p' epsilon maxRelative = q.close p epsilon maxRelative := by
  have first : p'.close q epsilon maxRelative = p.close q epsilon maxRelative :=
    more.all_degreesUnion_eq (numbersClose epsilon maxRelative) rfl
      (numbersClose_neg_zero epsilon maxRelative) q
  refine ⟨first, ?_⟩
  rw [close_comm q p', close_comm q p, first]

/-- Both comparisons are made at every degree, stored or not: the absolute one for every tolerance
that is not negative, the relative one for all tolerances. The order of the polynomials does not
matter, and an entry with the coefficient zero makes no difference on either side. Two coefficients
are close in the relative sense if they are equal, or if neither is infinite and they are at most
`epsilon` apart, or at most the part `maxRelative` of the larger magnitude. -/
theorem closeness_degreewise (p q : Polynomial Float) :
    (∀ epsilon, 0.0 ≤ epsilon →
      (p.within q epsilon = true ↔
        ∀ d, (p.coefficient d - q.coefficient d).abs ≤ epsilon)) ∧
    (∀ epsilon maxRelative, p.close q epsilon maxRelative = true ↔
      ∀ d, numbersClose epsilon maxRelative (p.coefficient d) (q.coefficient d) = true) ∧
    (∀ epsilon maxRelative, p.close q epsilon maxRelative = true ↔
      ∀ d, (p.coefficient d == q.coefficient d) = true ∨
        ((p.coefficient d).isInf = false ∧ (q.coefficient d).isInf = false ∧
          ((p.coefficient d - q.coefficient d).abs ≤ epsilon ∨
            (p.coefficient d - q.coefficient d).abs ≤
              Scalar.larger (p.coefficient d).abs (q.coefficient d).abs * maxRelative))) ∧
    (∀ epsilon, p.within q epsilon = q.within p epsilon) ∧
    (∀ epsilon maxRelative,
      p.close q epsilon maxRelative = q.close p epsilon maxRelative) ∧
    ∀ p', p.HasZeroMore p' →
      (∀ epsilon, 0.0 ≤ epsilon →
        p'.within q epsilon = p.within q epsilon ∧ q.within p' epsilon = q.within p epsilon) ∧
      ∀ epsilon maxRelative,
        p'.close q epsilon maxRelative = p.close q epsilon maxRelative ∧
          q.close p' epsilon maxRelative = q.close p epsilon maxRelative :=
  ⟨fun _ nonneg => within_iff nonneg, close_iff,
    fun epsilon maxRelative => (close_iff epsilon maxRelative).trans
      (forall_congr' fun _ => numbersClose_iff ..),
    within_comm p q, close_comm p q, fun _ more => ⟨fun _ nonneg => more.within_eq nonneg q,
      fun epsilon maxRelative => more.close_eq epsilon maxRelative q⟩⟩

/-- The line `x`, with and without a zero at the square, and a line with a slope that is hardly
larger. A slope that is larger by a tenth is not close, and an infinite one is not close even though
its distance is no more than any part of itself. -/
theorem closeness_degreewise_line :
    ∃ p p' q r s : Polynomial Float, p.terms = [(1, 1.0)] ∧ p'.terms = [(1, 1.0), (2, 0.0)] ∧
      q.terms = [(1, 1.000000000001)] ∧ r.terms = [(1, 1.1)] ∧
      s.terms = [(1, Binary64.infinity)] ∧ (0.0 : Float) ≤ 1e-10 ∧ p.HasZeroMore p' ∧
      (∀ d, (p.coefficient d - q.coefficient d).abs ≤ 1e-10) ∧
      p'.within q 1e-10 = true ∧ q.within p' 1e-10 = true ∧ q.close p' 0.0 1e-11 = true ∧
      r.close p' 0.0 1e-11 = false ∧ s.close p' 0.0 1.0 = false := by
  let p : Polynomial Float := ⟨[(1, 1.0)], by simp⟩
  let q : Polynomial Float := ⟨[(1, 1.000000000001)], by simp⟩
  let r : Polynomial Float := ⟨[(1, 1.1)], by simp⟩
  let s : Polynomial Float := ⟨[(1, Binary64.infinity)], by simp⟩
  have nonneg : (0.0 : Float) ≤ 1e-10 := by decide +kernel
  have within : p.within q 1e-10 = true := by decide +kernel
  have close : p.close q 0.0 1e-11 = true := by decide +kernel
  have more : p.HasZeroMore (p.addTerm 2 0.0) := hasZeroMore_addTerm (by decide)
  obtain ⟨absolute, -, -, comm, comm', zero⟩ := closeness_degreewise p q
  obtain ⟨same, same'⟩ := zero _ more
  obtain ⟨left, right⟩ := same 1e-10 nonneg
  refine ⟨p, p.addTerm 2 0.0, q, r, s, rfl, by decide +kernel, rfl, rfl, rfl, nonneg, more,
    (absolute 1e-10 nonneg).mp within, left.trans within, ?_, ?_, ?_, ?_⟩
  · exact right.trans ((comm 1e-10).symm.trans within)
  · exact (same' 0.0 1e-11).2.trans ((comm' 0.0 1e-11).symm.trans close)
  · -- at the first degree the rule fails in all its parts
    obtain ⟨-, -, rule, -⟩ := closeness_degreewise r (p.addTerm 2 0.0)
    refine Bool.eq_false_iff.mpr fun close => ?_
    exact absurd ((rule 0.0 1e-11).mp close 1) (by decide +kernel)
  · obtain ⟨-, -, rule, -⟩ := closeness_degreewise s (p.addTerm 2 0.0)
    refine Bool.eq_false_iff.mpr fun close => ?_
    exact absurd ((rule 0.0 1.0).mp close 1) (by decide +kernel)

/-! ## The tolerance of the zero test -/

/-- A zero polynomial has negligible coefficients at all degrees. -/
theorem isZero_iff_forall_coefficient (p : Polynomial Float) :
    p.isZero = true ↔ ∀ d, isNegligible (p.coefficient d) = true := by
  rw [isZero, List.all_eq_true]
  constructor
  · intro negligible d
    by_cases stored : d ∈ p.degrees
    · obtain ⟨t, member, rfl⟩ := List.mem_map.mp stored
      rw [coefficient_eq_of_mem member]
      exact negligible t member
    · rw [coefficient_eq_zero_of_notMem stored]
      have zero : isNegligible (0.0 : Float) = true := by decide +kernel
      exact zero
  · intro negligible t member
    have count := negligible t.1
    rwa [coefficient_eq_of_mem member] at count

/-- The difference is zero if all coefficients are less than the tolerance apart. -/
theorem isZero_difference_iff (p q : Polynomial Float) :
    (p.difference q).isZero = true ↔
      ∀ d, (p.coefficient d - q.coefficient d).abs < Scalar.tolerance := by
  rw [isZero_iff_forall_coefficient]
  refine forall_congr' fun d => ?_
  have magnitude : Scalar.abs (0.0 + (p.coefficient d - q.coefficient d)) =
      (p.coefficient d - q.coefficient d).abs := Binary64.abs_zero_add _
  rw [coefficient_difference_eq_zero_add, isNegligible, magnitude, decide_eq_true_iff]

theorem unsigned_tolerance : Binary64.Unsigned (Scalar.tolerance : Float) := by
  rw [Binary64.Unsigned, Binary64.UnsignedParts]
  rfl

/-- The zero test asks for more than closeness: no two coefficients may be the tolerance itself
apart. -/
theorem isZero_difference_iff_within (p q : Polynomial Float) :
    (p.difference q).isZero = true ↔ p.within q Scalar.tolerance = true ∧
      ∀ d, (p.coefficient d - q.coefficient d).abs ≠ Scalar.tolerance := by
  have nonneg : (0.0 : Float) ≤ Scalar.tolerance := by decide +kernel
  rw [isZero_difference_iff, within_iff nonneg, ← forall_and]
  exact forall_congr' fun d => (Binary64.unsigned_abs _).lt_iff unsigned_tolerance

theorem coefficient_sub_zero (p : Polynomial Float) (d : Degree) :
    p.coefficient d - (zero : Polynomial Float).coefficient d = p.coefficient d :=
  Binary64.sub_zero _

theorem isZero_difference_zero (p : Polynomial Float) :
    (p.difference zero).isZero = p.isZero := by
  rw [Bool.eq_iff_iff, isZero_difference_iff, isZero_iff_forall_coefficient]
  refine forall_congr' fun d => ?_
  rw [coefficient_sub_zero]
  exact decide_eq_true_iff.symm

/-- The difference of two polynomials is zero if and only if they are close up to the tolerance and
no two coefficients are the tolerance itself apart, and in the same way a polynomial is zero by
itself. What is zero so is written as a zero, and evaluation sees no term of it. -/
theorem isZero_iff_within_tolerance (p q : Polynomial Float) :
    ((p.difference q).isZero = true ↔ p.within q Scalar.tolerance = true ∧
      ∀ d, (p.coefficient d - q.coefficient d).abs ≠ Scalar.tolerance) ∧
    (p.isZero = true ↔ p.within zero Scalar.tolerance = true ∧
      ∀ d, (p.coefficient d).abs ≠ Scalar.tolerance) ∧
    List.TFAE [p.isZero = true, p.format = "0", p.significantTerms = []] := by
  refine ⟨isZero_difference_iff_within p q, ?_, ?_⟩
  · rw [← isZero_difference_zero, isZero_difference_iff_within]
    simp only [coefficient_sub_zero]
  · tfae_have 1 ↔ 2 := (zero_tfae p).out 0 3
    tfae_have 1 ↔ 3 := isZero_iff
    tfae_finish

/-- A constant of exactly the tolerance compares equal to the zero polynomial, but neither it nor
its difference from zero is zero: it is written and evaluated. -/
theorem within_tolerance_not_isZero :
    ∃ p : Polynomial Float, p.terms = [(0, 1e-10)] ∧ (∀ t ∈ p.terms, t.2.isFinite = true) ∧
      (∀ t ∈ (p.difference zero).terms, t.2.isFinite = true) ∧
      p.within zero Scalar.tolerance = true ∧ (p.difference zero).isZero = false ∧
      p.isZero = false ∧ p.format = "0.0000000001" ∧ p.evaluate 2.0 = 1e-10 := by
  refine ⟨⟨[(0, 1e-10)], by simp⟩, rfl, ?_⟩
  decide +kernel

end CurveArea.Polynomial
