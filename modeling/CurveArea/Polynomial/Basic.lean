import CurveArea.Degree
import CurveArea.Scalar

/-!
# Sparse polynomials

A polynomial in one variable is the list of its stored terms, each degree at most once and the
degrees increasing. A degree that is not stored has the coefficient zero, but a stored coefficient
may be zero or negligible too: cancellation leaves its entry in place, and only `pruned` removes
entries. Every entry is written by adding to zero, so no stored coefficient is a negative zero.
-/

namespace CurveArea

/-- A polynomial: its stored terms by increasing degree. -/
structure Polynomial (α : Type) where
  terms : List (Degree × α)
  sorted : terms.Pairwise (fun s t => s.1 < t.1)

namespace Polynomial

variable {α : Type} [Scalar α]

/-- A coefficient that counts as zero in evaluation, display and comparison (`is_negligible`). -/
def isNegligible (coefficient : α) : Bool :=
  Scalar.abs coefficient < (Scalar.tolerance : α)

/-- Adds a coefficient to the entry of a degree in a sorted list of terms. A new entry starts from
zero. -/
def addEntry (degree : Degree) (coefficient : α) : List (Degree × α) → List (Degree × α)
  | [] => [(degree, Scalar.zero + coefficient)]
  | (d, c) :: rest =>
    if degree < d then (degree, Scalar.zero + coefficient) :: (d, c) :: rest
    else if degree = d then (d, c + coefficient) :: rest
    else (d, c) :: addEntry degree coefficient rest

/-- The degrees after an addition are those before and the one added to. -/
theorem mem_addEntry_fst {degree d : Degree} {coefficient : α} {terms : List (Degree × α)}
    (h : d ∈ (addEntry degree coefficient terms).map (·.1)) :
    d = degree ∨ d ∈ terms.map (·.1) := by
  induction terms with
  | nil => simpa [addEntry] using h
  | cons t rest ih =>
    rcases t with ⟨e, c⟩
    simp only [addEntry] at h
    split at h
    · simpa using h
    · split at h
      · exact .inr (by simpa using h)
      · simp only [List.map_cons, List.mem_cons] at h ⊢
        rcases h with h | h
        · exact .inr (.inl h)
        · exact (ih h).imp_right .inr

theorem pairwise_addEntry (degree : Degree) (coefficient : α) {terms : List (Degree × α)}
    (h : terms.Pairwise (fun s t => s.1 < t.1)) :
    (addEntry degree coefficient terms).Pairwise (fun s t => s.1 < t.1) := by
  induction terms with
  | nil => simp [addEntry]
  | cons t rest ih =>
    rcases t with ⟨e, c⟩
    obtain ⟨head, tail⟩ := List.pairwise_cons.mp h
    simp only [addEntry]
    split
    · next below =>
      refine List.pairwise_cons.mpr ⟨fun s hs => ?_, h⟩
      rcases List.mem_cons.mp hs with rfl | hs
      · exact below
      · exact UInt32.lt_trans below (head s hs)
    · next notBelow =>
      split
      · exact List.pairwise_cons.mpr ⟨head, tail⟩
      · next other =>
        refine List.pairwise_cons.mpr ⟨fun s hs => ?_, ih tail⟩
        rcases mem_addEntry_fst (List.mem_map_of_mem hs) with same | old
        · rw [same]
          exact UInt32.lt_of_le_of_ne (UInt32.not_lt.mp notBelow) (Ne.symm other)
        · obtain ⟨u, hu, same⟩ := List.mem_map.mp old
          exact same ▸ head u hu

/-- The polynomial without terms (`Polynomial::new`). -/
def zero : Polynomial α := ⟨[], .nil⟩

/-- Adds `coefficient * x ^ degree` (`Polynomial::add_term`). -/
def addTerm (p : Polynomial α) (degree : Degree) (coefficient : α) : Polynomial α :=
  ⟨addEntry degree coefficient p.terms, pairwise_addEntry degree coefficient p.sorted⟩

/-- The sum of terms, added in the order given (`Polynomial::from_terms`); terms of one degree
accumulate. -/
def ofTerms (terms : List (Degree × α)) : Polynomial α :=
  terms.foldl (fun p term => p.addTerm term.1 term.2) zero

/-- A constant polynomial (`Polynomial::constant`). -/
def constant (value : α) : Polynomial α := zero.addTerm 0 value

/-- The coefficient of a degree, zero if the degree is not stored (`Polynomial::coefficient`). -/
def coefficient (p : Polynomial α) (degree : Degree) : α :=
  (p.terms.lookup degree).getD Scalar.zero

/-- The stored degrees, increasing. -/
def degrees (p : Polynomial α) : List Degree := p.terms.map (·.1)

/-- The number of stored terms (`Polynomial::len`). -/
def size (p : Polynomial α) : Nat := p.terms.length

/-- The terms that count. -/
def significantTerms (p : Polynomial α) : List (Degree × α) :=
  p.terms.filter fun term => !isNegligible term.2

/-- The polynomial without its negligible terms (`Polynomial::pruned`). -/
def pruned (p : Polynomial α) : Polynomial α :=
  ⟨p.significantTerms, p.sorted.filter _⟩

/-- Whether every stored coefficient is negligible (`Polynomial::is_zero`). -/
def isZero (p : Polynomial α) : Bool :=
  p.terms.all fun term => isNegligible term.2

/-- The highest degree whose coefficient counts (`Polynomial::degree`); the zero polynomial has
none. -/
def degree? (p : Polynomial α) : Option Degree :=
  (p.terms.reverse.find? fun term => !isNegligible term.2).map (·.1)

/-- A degree put into an increasing list of degrees, if it is not there yet. -/
def insertDegree (degree : Degree) : List Degree → List Degree
  | [] => [degree]
  | d :: rest =>
    if degree < d then degree :: d :: rest
    else if degree = d then d :: rest
    else d :: insertDegree degree rest

/-- The degrees stored in either polynomial, increasing (`Polynomial::degrees_union`). -/
def degreesUnion (p q : Polynomial α) : List Degree :=
  q.degrees.foldl (fun degrees d => insertDegree d degrees) p.degrees

/-- Equality of the stored terms, the coefficients compared as numbers: a stored zero differs from
an absent degree. -/
instance instBEq : BEq (Polynomial α) where
  beq p q := p.terms == q.terms

end Polynomial

end CurveArea
