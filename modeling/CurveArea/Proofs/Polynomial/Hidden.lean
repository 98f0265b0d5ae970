import CurveArea.Proofs.Binary64.Whole
import CurveArea.Proofs.Polynomial.Entries

/-!
# Stored terms that do not count

Evaluation skips the negligible terms, but the difference and the antiderivative are made from all
stored ones, and only the last step, the evaluation of the integral, skips again. So a term that does
not count by itself may show in the area: two of them may add up to one that counts, one may change
a term that counts, and one of the largest degree is a failure. Where none of this happens the area
is the same, to the last bit, without the terms that do not count.
-/

namespace CurveArea.Polynomial

section Entries

variable {α : Type} [Scalar α]

/-- A coefficient as far as it counts. -/
def counted (c : α) : α := if isNegligible c then Scalar.zero else c

/-- Pruning keeps the degrees whose coefficients count. -/
theorem mem_degrees_pruned {p : Polynomial α} {d : Degree} :
    d ∈ p.pruned.degrees ↔ d ∈ p.degrees ∧ isNegligible (p.coefficient d) = false := by
  constructor
  · intro kept
    obtain ⟨t, member, rfl⟩ := List.mem_map.mp kept
    obtain ⟨stored, counts⟩ := List.mem_filter.mp member
    rw [coefficient_eq_of_mem stored]
    exact ⟨List.mem_map_of_mem stored, by simpa using counts⟩
  · rintro ⟨stored, counts⟩
    obtain ⟨t, member, rfl⟩ := List.mem_map.mp stored
    rw [coefficient_eq_of_mem member] at counts
    exact List.mem_map_of_mem (List.mem_filter.mpr ⟨member, by simp [counts]⟩)

theorem coefficient_pruned (p : Polynomial α) (d : Degree) :
    p.pruned.coefficient d = counted (p.coefficient d) := by
  rw [counted]
  by_cases kept : d ∈ p.pruned.degrees
  · obtain ⟨-, counts⟩ := mem_degrees_pruned.mp kept
    obtain ⟨t, member, rfl⟩ := List.mem_map.mp kept
    have stored : t ∈ p.terms := (List.mem_filter.mp member).1
    rw [counts, coefficient_eq_of_mem member, coefficient_eq_of_mem stored]
    rfl
  · rw [coefficient_eq_zero_of_notMem kept]
    by_cases stored : d ∈ p.degrees
    · have negligible : isNegligible (p.coefficient d) = true := by
        by_contra counts
        exact kept (mem_degrees_pruned.mpr ⟨stored, Bool.eq_false_iff.mpr counts⟩)
      rw [if_pos negligible]
    · rw [coefficient_eq_zero_of_notMem stored, ite_self]

theorem mem_degreesUnion_of_pruned {p q : Polynomial α} {d : Degree}
    (kept : d ∈ degreesUnion p.pruned q.pruned) : d ∈ degreesUnion p q :=
  mem_degreesUnion.mpr ((mem_degreesUnion.mp kept).imp
    (fun first => (mem_degrees_pruned.mp first).1) fun second => (mem_degrees_pruned.mp second).1)

/-- What is stored of two coefficients of one degree in the integral of the difference. -/
def integratedEntry (d : Degree) (b c : α) : α :=
  Scalar.zero + (Scalar.zero + (b - c)) / Scalar.ofNat (d.toNat + 1)

/-- The entry of a degree in the integral of the difference of two polynomials. -/
def differenceEntry (p q : Polynomial α) (d : Degree) : α :=
  integratedEntry d (p.coefficient d) (q.coefficient d)

/-- The terms of the integral of a difference that count. -/
def integralTerms (p q : Polynomial α) : List (Degree × α) :=
  ((degreesUnion p q).filter fun d => !isNegligible (differenceEntry p q d)).map fun d =>
    (d + 1, differenceEntry p q d)

theorem exists_integral {p q : Polynomial α}
    (noMax : ¬ (Degree.max ∈ p.degrees ∨ Degree.max ∈ q.degrees)) :
    ∃ integral : Polynomial α, (p.difference q).antiderivative = .ok integral ∧
      integral.significantTerms = integralTerms p q := by
  obtain ⟨integral, found, terms⟩ := exists_antiderivative (mt mem_degrees_difference.mp noMax)
  refine ⟨integral, found, ?_⟩
  rw [terms_difference, List.map_map] at terms
  rw [significantTerms, terms, List.filter_map]
  rfl

/-- The area over an interval depends on the terms of the integral that count, and on nothing else. -/
theorem areaOver_congr {p q p' q' : Polynomial α} (i : Interval α)
    (noMax : ¬ (Degree.max ∈ p.degrees ∨ Degree.max ∈ q.degrees))
    (noMax' : ¬ (Degree.max ∈ p'.degrees ∨ Degree.max ∈ q'.degrees))
    (same : integralTerms p q = integralTerms p' q') : p.areaOver q i = p'.areaOver q' i := by
  obtain ⟨integral, found, counts⟩ := exists_integral noMax
  obtain ⟨integral', found', counts'⟩ := exists_integral noMax'
  have values : ∀ x, integral.evaluate x = integral'.evaluate x := by
    intro x
    rw [evaluate, evaluate, counts, counts', same]
  rw [areaOver, areaOver, definiteIntegral, definiteIntegral, found, found']
  change Except.ok (Scalar.abs (integral.evaluate i.b - integral.evaluate i.a)) =
    .ok (Scalar.abs (integral'.evaluate i.b - integral'.evaluate i.a))
  rw [values, values]

/-- Two coefficients of a degree make the same entry of the integral with and without what does not
count of them, or none that counts in either case. -/
def IntegratesAlike (d : Degree) (b c : α) : Prop :=
  integratedEntry d (counted b) (counted c) = integratedEntry d b c ∨
    isNegligible (integratedEntry d (counted b) (counted c)) = true ∧
      isNegligible (integratedEntry d b c) = true

section IntegratesAlike

variable {d : Degree} {b c : α}

theorem IntegratesAlike.isNegligible_eq (alike : IntegratesAlike d b c) :
    isNegligible (integratedEntry d (counted b) (counted c)) =
      isNegligible (integratedEntry d b c) := by
  rcases alike with same | ⟨dropped, stored⟩
  · rw [same]
  · rw [dropped, stored]

theorem IntegratesAlike.eq_of_counts (alike : IntegratesAlike d b c)
    (counts : isNegligible (integratedEntry d b c) = false) :
    integratedEntry d (counted b) (counted c) = integratedEntry d b c := by
  rcases alike with same | ⟨-, negligible⟩
  · exact same
  · rw [negligible] at counts
    cases counts

/-- Coefficients that are zero or count are all there is to their entry. -/
theorem integratesAlike_of_clear (d : Degree)
    (clearB : b = Scalar.zero ∨ isNegligible b = false)
    (clearC : c = Scalar.zero ∨ isNegligible c = false) : IntegratesAlike d b c := by
  have kept : ∀ {x : α}, x = Scalar.zero ∨ isNegligible x = false → counted x = x := by
    rintro x (rfl | counts)
    · rw [counted, ite_self]
    · rw [counted, counts]
      rfl
  left
  rw [kept clearB, kept clearC]

end IntegratesAlike

theorem differenceEntry_pruned (p q : Polynomial α) (d : Degree) :
    differenceEntry p.pruned q.pruned d =
      integratedEntry d (counted (p.coefficient d)) (counted (q.coefficient d)) := by
  rw [differenceEntry, coefficient_pruned, coefficient_pruned]

end Entries

variable {p q : Polynomial Float}

/-- A degree at which both polynomials are zero has no entry that counts. -/
theorem isNegligible_integratedEntry_zero (d : Degree) :
    isNegligible (integratedEntry d (0.0 : Float) 0.0) = true := by
  have small : d.toNat + 1 < 2 ^ 53 := Nat.lt_trans (Nat.succ_lt_succ d.toNat_lt) (by decide)
  have difference : (0.0 : Float) + (0.0 - 0.0) = 0.0 := rfl
  change isNegligible (0.0 + (0.0 + (0.0 - 0.0)) / Float.ofNat (d.toNat + 1)) = true
  rw [difference, Binary64.zero_div_ofNat (Nat.succ_pos _) small]
  decide +kernel

/-- What pruning drops from the union of the degrees has no entry that counts. -/
theorem mem_degreesUnion_pruned {d : Degree}
    (counts : isNegligible (differenceEntry p.pruned q.pruned d) = false) :
    d ∈ degreesUnion p.pruned q.pruned := by
  by_contra absent
  rw [mem_degreesUnion, not_or] at absent
  rw [differenceEntry, coefficient_eq_zero_of_notMem absent.1,
    coefficient_eq_zero_of_notMem absent.2] at counts
  have vanishes : isNegligible (integratedEntry d Scalar.zero Scalar.zero : Float) = true :=
    isNegligible_integratedEntry_zero d
  rw [vanishes] at counts
  cases counts

/-- The integral of the pruned difference has the same terms that count if every degree integrates
alike. -/
theorem integralTerms_pruned
    (noMax : ¬ (Degree.max ∈ p.degrees ∨ Degree.max ∈ q.degrees))
    (alike : ∀ d, d ≠ Degree.max → IntegratesAlike d (p.coefficient d) (q.coefficient d)) :
    integralTerms p q = integralTerms p.pruned q.pruned := by
  have alikeAt : ∀ d ∈ degreesUnion p q, IntegratesAlike d (p.coefficient d) (q.coefficient d) := by
    intro d member
    refine alike d ?_
    rintro rfl
    exact noMax (mem_degreesUnion.mp member)
  have degrees : (degreesUnion p q).filter (fun d => !isNegligible (differenceEntry p q d)) =
      (degreesUnion p.pruned q.pruned).filter fun d =>
        !isNegligible (differenceEntry p.pruned q.pruned d) := by
    refine List.Pairwise.eq_of_mem_iff ((sorted_degreesUnion p q).filter _)
      ((sorted_degreesUnion _ _).filter _) fun d => ?_
    rw [List.mem_filter, List.mem_filter, Bool.not_eq_true', Bool.not_eq_true']
    constructor
    · rintro ⟨member, counts⟩
      have still : isNegligible (differenceEntry p.pruned q.pruned d) = false := by
        rw [differenceEntry_pruned, (alikeAt d member).isNegligible_eq]
        exact counts
      exact ⟨mem_degreesUnion_pruned still, still⟩
    · rintro ⟨kept, counts⟩
      have member := mem_degreesUnion_of_pruned kept
      rw [differenceEntry_pruned, (alikeAt d member).isNegligible_eq] at counts
      exact ⟨member, counts⟩
  rw [integralTerms, integralTerms, ← degrees]
  refine List.map_congr_left fun d member => ?_
  obtain ⟨stored, counts⟩ := List.mem_filter.mp member
  rw [Bool.not_eq_true'] at counts
  rw [differenceEntry_pruned, (alikeAt d stored).eq_of_counts counts]
  rfl

/-- Where every degree below the largest integrates alike, the area is the same without the terms
that do not count, and so is a failure, if and only if no term of the largest degree is dropped that
is the only reason of a failure. -/
theorem areaBetween_pruned_iff
    (alike : ∀ d, d ≠ Degree.max → IntegratesAlike d (p.coefficient d) (q.coefficient d))
    (a b : Float) :
    p.areaBetween q a b = p.pruned.areaBetween q.pruned a b ↔
      (properBounds a b = true → Degree.max ∈ p.degrees ∨ Degree.max ∈ q.degrees →
        Degree.max ∈ p.pruned.degrees ∨ Degree.max ∈ q.pruned.degrees) := by
  by_cases proper : properBounds a b = true
  · let i : Interval Float := ⟨a, b, proper⟩
    have whole : p.areaBetween q a b = p.areaOver q i := areaBetween_self p q i
    have dropped : p.pruned.areaBetween q.pruned a b = p.pruned.areaOver q.pruned i :=
      areaBetween_self p.pruned q.pruned i
    rw [whole, dropped]
    by_cases kept : Degree.max ∈ p.pruned.degrees ∨ Degree.max ∈ q.pruned.degrees
    · have hasMax := mem_degreesUnion.mp (mem_degreesUnion_of_pruned (mem_degreesUnion.mpr kept))
      rw [areaOver_of_max _ hasMax, areaOver_of_max _ kept]
      exact iff_of_true rfl fun _ _ => kept
    · by_cases hasMax : Degree.max ∈ p.degrees ∨ Degree.max ∈ q.degrees
      · obtain ⟨area, found⟩ := exists_areaOver i kept
        rw [areaOver_of_max _ hasMax, found]
        exact iff_of_false nofun fun stays => kept (stays proper hasMax)
      · refine iff_of_true ?_ fun _ stored => absurd stored hasMax
        exact areaOver_congr _ hasMax kept (integralTerms_pruned hasMax alike)
  · rw [areaBetween_of_improper _ _ proper, areaBetween_of_improper _ _ proper]
    exact iff_of_true rfl fun bounds => absurd bounds proper

/-- Terms that do not count show: a cancelled one of the largest degree beside the line `x` is a
failure, and two constants, `9e-11` above the axis and as much below, enclose 1.8 up to `1e10`. -/
theorem areaBetween_pruned_surfaces :
    (∃ p q : Polynomial Float, p.terms = [(1, 1.0), (4294967295, 0.0)] ∧ q.terms = [] ∧
      (∀ t ∈ p.terms ++ q.terms, t.2.isFinite = true) ∧
      p.areaBetween q 0.0 1.0 = .error (.degreeOverflow 4294967295) ∧
      p.pruned.areaBetween q.pruned 0.0 1.0 = .ok 0.5) ∧
    ∃ p q : Polynomial Float, p.terms = [(0, 9e-11)] ∧ q.terms = [(0, -9e-11)] ∧
      (∀ t ∈ p.terms ++ q.terms, t.2.isFinite = true) ∧
      p.areaBetween q 0.0 1e10 = .ok 1.8 ∧ p.pruned.areaBetween q.pruned 0.0 1e10 = .ok 0.0 := by
  constructor
  · let p : Polynomial Float := ⟨[(1, 1.0), (4294967295, 0.0)], by decide⟩
    let q : Polynomial Float := ⟨[], by decide⟩
    refine ⟨p, q, rfl, rfl, ?_, ?_, ?_⟩
    all_goals decide +kernel
  · let p : Polynomial Float := ⟨[(0, 9e-11)], by decide⟩
    let q : Polynomial Float := ⟨[(0, -9e-11)], by decide⟩
    refine ⟨p, q, rfl, rfl, ?_, ?_, ?_⟩
    all_goals decide +kernel

/-- Here the terms that do not count stay hidden: a stored zero, and two of degree 1 whose sum is
halved by the integration. -/
theorem areaBetween_pruned_iff_halved :
    ∃ p q : Polynomial Float,
      p.terms = [(0, 0.0), (1, 9e-11), (2, 3.0)] ∧ q.terms = [(1, -9e-11)] ∧
      (∀ d, d ≠ Degree.max → IntegratesAlike d (p.coefficient d) (q.coefficient d)) ∧
      p.areaBetween q 0.0 2.0 = .ok 8.0 ∧ p.pruned.areaBetween q.pruned 0.0 2.0 = .ok 8.0 := by
  let p : Polynomial Float := ⟨[(0, 0.0), (1, 9e-11), (2, 3.0)], by decide⟩
  let q : Polynomial Float := ⟨[(1, -9e-11)], by decide⟩
  have alike : ∀ d, d ≠ Degree.max → IntegratesAlike d (p.coefficient d) (q.coefficient d) := by
    intro d _
    by_cases halved : d = 1
    · rw [halved]
      right
      decide +kernel
    · have clear : p.coefficient d = Scalar.zero ∨ isNegligible (p.coefficient d) = false := by
        by_cases stored : d ∈ p.degrees
        · have one : d = 0 ∨ d = 1 ∨ d = 2 := by simpa [p, degrees] using stored
          obtain rfl | rfl | rfl := one
          · exact .inl rfl
          · exact absurd rfl halved
          · right
            decide +kernel
        · exact .inl (coefficient_eq_zero_of_notMem stored)
      have absent : d ∉ q.degrees := by simpa [q, degrees] using halved
      exact integratesAlike_of_clear d clear (.inl (coefficient_eq_zero_of_notMem absent))
  have noMax : ¬ (Degree.max ∈ p.degrees ∨ Degree.max ∈ q.degrees) := by decide
  have same := (areaBetween_pruned_iff alike 0.0 2.0).mpr fun _ stored => absurd stored noMax
  have area : p.areaBetween q 0.0 2.0 = .ok 8.0 := by decide +kernel
  exact ⟨p, q, rfl, rfl, alike, area, same ▸ area⟩

end CurveArea.Polynomial
