import CurveArea.Proofs.Polynomial.Exact

/-!
# The antiderivative as a shift

Integration moves every entry up by one degree and divides it by the new one. Below the largest
degree no two entries meet, so nothing is added to anything but zero and no entry is lost;
differentiating takes each entry back to where it was. Each integration uses up one degree at the
top, which is how often a polynomial can be integrated.
-/

namespace CurveArea.Polynomial

section Shift

variable {α : Type} [Scalar α]

/-- What a polynomial and its antiderivative have to do with each other. -/
structure ShiftsTo (p integral : Polynomial α) : Prop where
  degrees_eq : integral.degrees = p.degrees.map (· + 1)
  size_eq : integral.size = p.size
  zero_notMem : 0 ∉ integral.degrees
  /-- The degrees do not wrap around. -/
  toNat_succ : ∀ d ∈ p.degrees, (d + 1).toNat = d.toNat + 1
  coefficient_succ : ∀ d ∈ p.degrees, integral.coefficient (d + 1) =
    Scalar.zero + p.coefficient d / Scalar.ofNat (d.toNat + 1)

/-- The antiderivative taken `k` times, one after another. -/
def integrated (p : Polynomial α) : Nat → Except (AreaError α) (Polynomial α)
  | 0 => .ok p
  | k + 1 => do (← p.antiderivative).integrated k

/-- The formal derivative: `c x ^ d` becomes `d c x ^ (d - 1)`, and a constant vanishes. -/
def derivative (p : Polynomial α) : Polynomial α :=
  ofTerms ((p.terms.filter fun t => t.1 ≠ 0).map fun t =>
    (t.1 - 1, Scalar.ofNat t.1.toNat * t.2))

variable {p : Polynomial α}

/-- Below the largest degree there is an antiderivative, and it is a shift. -/
theorem exists_shiftsTo (noMax : Degree.max ∉ p.degrees) :
    ∃ integral, p.antiderivative = .ok integral ∧ p.ShiftsTo integral := by
  obtain ⟨integral, found, terms⟩ := exists_antiderivative noMax
  have next : ∀ d ∈ p.degrees, (d + 1).toNat = d.toNat + 1 := fun d stored =>
    toNat_succ fun same => noMax (same ▸ stored)
  have degrees : integral.degrees = p.degrees.map (· + 1) := by
    simp only [Polynomial.degrees, terms, List.map_map, Function.comp_def]
  refine ⟨integral, found, degrees, ?_, ?_, next, ?_⟩
  · rw [size, size, terms, List.length_map]
  · rw [degrees]
    intro member
    obtain ⟨d, stored, wrapped⟩ := List.mem_map.mp member
    have positive := next d stored
    rw [wrapped] at positive
    exact Nat.succ_ne_zero _ positive.symm
  · intro d stored
    obtain ⟨t, member, rfl⟩ := List.mem_map.mp stored
    apply coefficient_eq_of_mem
    rw [terms, coefficient_eq_of_mem member]
    exact List.mem_map_of_mem member

/-- The largest degree is the only obstacle to integration. -/
theorem antiderivative_eq_error_iff {e : AreaError α} :
    p.antiderivative = .error e ↔ Degree.max ∈ p.degrees ∧ e = .degreeOverflow Degree.max := by
  by_cases hasMax : Degree.max ∈ p.degrees
  · rw [antiderivative_of_max_mem hasMax, Except.error.injEq, eq_comm]
    exact (and_iff_right hasMax).symm
  · obtain ⟨integral, found, -⟩ := exists_shiftsTo hasMax
    rw [found]
    exact iff_of_false nofun fun h => hasMax h.1

/-- A polynomial can be integrated as often as there are degrees above its highest one. -/
theorem exists_integrated_iff {k : Nat} :
    (∃ q, p.integrated k = .ok q) ↔ ∀ d ∈ p.degrees, d.toNat + k ≤ Degree.max.toNat := by
  induction k generalizing p with
  | zero =>
    refine iff_of_true ⟨p, rfl⟩ fun d _ => ?_
    exact Nat.le_of_lt_succ d.toNat_lt
  | succ k ih =>
    rw [integrated]
    by_cases hasMax : Degree.max ∈ p.degrees
    · rw [antiderivative_of_max_mem hasMax]
      refine iff_of_false (fun ⟨_, run⟩ => nomatch run) fun fits => ?_
      exact absurd (fits _ hasMax) (by omega)
    · obtain ⟨integral, found, shift⟩ := exists_shiftsTo hasMax
      rw [found]
      refine (ih (p := integral)).trans ?_
      rw [shift.degrees_eq, List.forall_mem_map]
      refine forall₂_congr fun d stored => ?_
      rw [shift.toNat_succ d stored, Nat.add_assoc, Nat.add_comm 1]

end Shift

/-- Differentiating the antiderivative gives back every entry. -/
theorem derivative_of_antiderivative {p integral : Polynomial ℚ}
    (found : p.antiderivative = .ok integral) : integral.derivative = p := by
  have noMax : Degree.max ∉ p.degrees := by
    intro hasMax
    rw [antiderivative_of_max_mem hasMax] at found
    cases found
  obtain ⟨q, found', terms⟩ := exists_antiderivative noMax
  obtain rfl : q = integral := Except.ok.inj (found'.symm.trans found)
  have back : (q.terms.filter fun t => t.1 ≠ 0).map (fun t => (t.1 - 1,
      Scalar.ofNat t.1.toNat * t.2)) = p.terms := by
    rw [terms, List.filter_eq_self.mpr, List.map_map]
    · refine (List.map_congr_left fun t member => ?_).trans (List.map_id p.terms)
      have next : (t.1 + 1).toNat = t.1.toNat + 1 :=
        toNat_succ fun same => noMax (same ▸ List.mem_map_of_mem member)
      have positive : (t.1.toNat : ℚ) + 1 ≠ 0 := by positivity
      refine Prod.ext (UInt32.add_sub_cancel t.1 1) ?_
      simp only [Function.comp_apply, next, Scalar.ofNat_rat, Scalar.zero_rat, zero_add, id]
      push_cast
      exact mul_div_cancel₀ t.2 positive
    · intro t member
      obtain ⟨s, stored, rfl⟩ := List.mem_map.mp member
      have next : (s.1 + 1).toNat = s.1.toNat + 1 :=
        toNat_succ fun same => noMax (same ▸ List.mem_map_of_mem stored)
      refine decide_eq_true fun wrapped => ?_
      rw [show s.1 + 1 = 0 from wrapped] at next
      exact Nat.succ_ne_zero _ next.symm
  apply eq_of_terms
  rw [derivative, back, terms_ofTerms_of_sorted p.sorted]
  simp

/-- Integration fails on the largest degree only, whatever else is stored. Otherwise it moves every
entry up by one degree, divided by the new one, and on exact numbers the formal derivative moves
them all back. It can be done `k` times if and only if all degrees are at least `k` below the
largest. -/
theorem antiderivative_shifts (p : Polynomial Float) (exact : Polynomial ℚ) :
    (∀ e, p.antiderivative = .error e ↔
      Degree.max ∈ p.degrees ∧ e = .degreeOverflow Degree.max) ∧
    (Degree.max ∉ p.degrees → ∃ integral, p.antiderivative = .ok integral ∧ p.ShiftsTo integral) ∧
    (Degree.max ∉ exact.degrees → ∃ integral, exact.antiderivative = .ok integral ∧
      exact.ShiftsTo integral ∧ integral.derivative = exact) ∧
    ∀ k, (∃ q, p.integrated k = .ok q) ↔ ∀ d ∈ p.degrees, d.toNat + k ≤ Degree.max.toNat := by
  refine ⟨fun e => antiderivative_eq_error_iff, exists_shiftsTo, ?_, fun k => exists_integrated_iff⟩
  intro noMax
  obtain ⟨integral, found, shift⟩ := exists_shiftsTo noMax
  exact ⟨integral, found, shift, derivative_of_antiderivative found⟩

/-- One degree below the largest there is room for one integration and not for two. -/
theorem antiderivative_shifts_once :
    let p : Polynomial Float := ofTerms [(4294967294, 3.0), (0, 1.0)]
    let exact : Polynomial ℚ := ofTerms [(2, 5), (0, 7)]
    Degree.max ∉ p.degrees ∧ Degree.max ∉ exact.degrees ∧
      (∃ integral, p.antiderivative = .ok integral ∧ integral.degrees = [1, Degree.max] ∧
        integral.antiderivative = .error (.degreeOverflow Degree.max)) ∧
      (∃ integral, exact.antiderivative = .ok integral ∧ integral.derivative = exact) ∧
      (∃ q, p.integrated 1 = .ok q) ∧ ¬ ∃ q, p.integrated 2 = .ok q := by
  intro p exact
  have noMax : Degree.max ∉ p.degrees := by decide
  have noMax' : Degree.max ∉ exact.degrees := by decide
  obtain ⟨-, integrates, restores, often⟩ := antiderivative_shifts p exact
  obtain ⟨integral, found, shift⟩ := integrates noMax
  obtain ⟨integral', found', -, back⟩ := restores noMax'
  have stored : p.degrees = [0, 4294967294] := rfl
  have degrees : integral.degrees = [1, Degree.max] := shift.degrees_eq
  refine ⟨noMax, noMax', ⟨integral, found, degrees, ?_⟩, ⟨integral', found', back⟩, ?_, ?_⟩
  · refine (antiderivative_shifts integral exact).1 _ |>.mpr ⟨?_, rfl⟩
    rw [degrees]
    decide
  · refine (often 1).mpr ?_
    rw [stored, List.forall_mem_cons, List.forall_mem_singleton]
    decide
  · intro twice
    exact absurd ((often 2).mp twice 4294967294 (by rw [stored]; decide)) (by decide)

end CurveArea.Polynomial
