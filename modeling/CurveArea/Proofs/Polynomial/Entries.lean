import CurveArea.Polynomial.Calculus
import Mathlib.Data.List.Basic
import Mathlib.Data.List.Sort

/-!
# The entries of a polynomial

How the stored terms relate to the two views of them, the coefficient of a degree and the list of
degrees, and what the operations that rebuild a polynomial store. Terms that come in increasing
degree are stored as they come, each added to zero; the difference and the antiderivative are
rebuilt from such terms, so their entries can be written down. All of this holds for any scalar.
-/

namespace CurveArea.Polynomial

section Degrees

variable {α : Type}

theorem eq_of_terms {p q : Polynomial α} (h : p.terms = q.terms) : p = q := by
  cases p
  cases q
  cases h
  rfl

theorem sorted_degrees (p : Polynomial α) : p.degrees.Pairwise (· < ·) :=
  List.pairwise_map.mpr p.sorted

/-- In a sorted list of terms each entry is found under its degree. -/
theorem lookup_eq_some_of_mem {terms : List (Degree × α)} {d : Degree} {c : α}
    (sorted : terms.Pairwise fun s t => s.1 < t.1) (member : (d, c) ∈ terms) :
    terms.lookup d = some c := by
  induction terms with
  | nil => simp at member
  | cons t rest ih =>
    obtain ⟨above, tail⟩ := List.pairwise_cons.mp sorted
    rcases List.mem_cons.mp member with rfl | later
    · simp
    · have different : (d == t.1) = false := by
        have := UInt32.ne_of_lt (above _ later)
        simpa using Ne.symm this
      rw [List.lookup_cons, different]
      exact ih tail later

theorem lookup_eq_none_of_notMem {terms : List (Degree × α)} {d : Degree}
    (absent : d ∉ terms.map (·.1)) : terms.lookup d = none := by
  rw [List.lookup_eq_none_iff]
  intro t member
  simp only [bne_iff_ne]
  rintro rfl
  exact absent (List.mem_map_of_mem member)

theorem mem_insertDegree {d e : Degree} {degrees : List Degree} :
    e ∈ insertDegree d degrees ↔ e = d ∨ e ∈ degrees := by
  induction degrees with
  | nil => simp [insertDegree]
  | cons f rest ih =>
    rw [insertDegree]
    split
    · simp
    · split
      · next same => simp [same]
      · simp only [List.mem_cons, ih]
        exact or_left_comm

theorem sorted_insertDegree {degrees : List Degree} (d : Degree)
    (sorted : degrees.Pairwise (· < ·)) : (insertDegree d degrees).Pairwise (· < ·) := by
  induction degrees with
  | nil => simp [insertDegree]
  | cons f rest ih =>
    obtain ⟨above, tail⟩ := List.pairwise_cons.mp sorted
    rw [insertDegree]
    split
    · next below =>
      refine List.pairwise_cons.mpr ⟨fun e member => ?_, sorted⟩
      rcases List.mem_cons.mp member with rfl | later
      · exact below
      · exact UInt32.lt_trans below (above e later)
    · next notBelow =>
      split
      · exact sorted
      · next other =>
        refine List.pairwise_cons.mpr ⟨fun e member => ?_, ih tail⟩
        rcases mem_insertDegree.mp member with rfl | later
        · exact UInt32.lt_of_le_of_ne (UInt32.not_lt.mp notBelow) (Ne.symm other)
        · exact above e later

/-- The union holds the degrees of both. -/
theorem mem_degreesUnion {p q : Polynomial α} {d : Degree} :
    d ∈ degreesUnion p q ↔ d ∈ p.degrees ∨ d ∈ q.degrees := by
  have insertAll : ∀ added start : List Degree,
      d ∈ added.foldl (fun degrees e => insertDegree e degrees) start ↔
        d ∈ start ∨ d ∈ added := by
    intro added
    induction added with
    | nil => simp
    | cons e rest ih =>
      intro start
      rw [List.foldl_cons, ih, mem_insertDegree, List.mem_cons]
      tauto
  exact insertAll q.degrees p.degrees

theorem sorted_degreesUnion (p q : Polynomial α) : (degreesUnion p q).Pairwise (· < ·) := by
  have insertAll : ∀ added start : List Degree, start.Pairwise (· < ·) →
      (added.foldl (fun degrees e => insertDegree e degrees) start).Pairwise (· < ·) := by
    intro added
    induction added with
    | nil => exact fun start sorted => sorted
    | cons e rest ih => exact fun start sorted => ih _ (sorted_insertDegree e sorted)
  exact insertAll q.degrees p.degrees p.sorted_degrees

theorem degreesUnion_comm (p q : Polynomial α) : degreesUnion p q = degreesUnion q p := by
  refine List.Pairwise.eq_of_mem_iff (sorted_degreesUnion p q) (sorted_degreesUnion q p) ?_
  intro d
  rw [mem_degreesUnion, mem_degreesUnion, or_comm]

end Degrees

variable {α : Type} [Scalar α]

theorem coefficient_eq_of_mem {p : Polynomial α} {d : Degree} {c : α}
    (member : (d, c) ∈ p.terms) : p.coefficient d = c := by
  rw [coefficient, lookup_eq_some_of_mem p.sorted member, Option.getD_some]

theorem coefficient_eq_zero_of_notMem {p : Polynomial α} {d : Degree} (absent : d ∉ p.degrees) :
    p.coefficient d = Scalar.zero := by
  rw [coefficient, lookup_eq_none_of_notMem absent, Option.getD_none]

theorem terms_eq_map_degrees (p : Polynomial α) :
    p.terms = p.degrees.map fun d => (d, p.coefficient d) := by
  rw [degrees, List.map_map]
  refine (List.map_id p.terms).symm.trans (List.map_congr_left ?_)
  intro t member
  exact Prod.ext rfl (coefficient_eq_of_mem member).symm

/-- The stored degrees and the coefficients are all there is to a polynomial. -/
theorem eq_of_coefficient_eq {p q : Polynomial α} (stored : ∀ d, d ∈ p.degrees ↔ d ∈ q.degrees)
    (same : ∀ d, p.coefficient d = q.coefficient d) : p = q := by
  have degrees : p.degrees = q.degrees :=
    List.Pairwise.eq_of_mem_iff p.sorted_degrees q.sorted_degrees fun d => stored d
  apply eq_of_terms
  rw [terms_eq_map_degrees p, terms_eq_map_degrees q, degrees]
  simp only [same]

theorem map_fst_addEntry (d : Degree) (c : α) (terms : List (Degree × α)) :
    (addEntry d c terms).map (·.1) = insertDegree d (terms.map (·.1)) := by
  induction terms with
  | nil => rfl
  | cons t rest ih =>
    rw [addEntry, List.map_cons, insertDegree]
    split
    · rfl
    · split
      · rfl
      · rw [List.map_cons, ih]

/-- An addition stores its degree and keeps all others. -/
theorem mem_degrees_addTerm {p : Polynomial α} {d e : Degree} {c : α} :
    d ∈ (p.addTerm e c).degrees ↔ d = e ∨ d ∈ p.degrees := by
  rw [degrees, addTerm, map_fst_addEntry, mem_insertDegree]
  rfl

theorem lookup_addEntry_self {terms : List (Degree × α)} {e : Degree} (c : α)
    (sorted : terms.Pairwise fun s t => s.1 < t.1) :
    (addEntry e c terms).lookup e = some ((terms.lookup e).getD Scalar.zero + c) := by
  induction terms with
  | nil => simp [addEntry]
  | cons t rest ih =>
    rcases t with ⟨f, b⟩
    obtain ⟨above, tail⟩ := List.pairwise_cons.mp sorted
    rw [addEntry]
    split
    · next below =>
      have absent : ((f, b) :: rest).lookup e = none := by
        apply lookup_eq_none_of_notMem
        intro member
        obtain ⟨s, stored, rfl⟩ := List.mem_map.mp member
        rcases List.mem_cons.mp stored with rfl | later
        · exact UInt32.lt_irrefl _ below
        · exact UInt32.lt_asymm below (above s later)
      simp [absent]
    · split
      · next same => simp [same]
      · next other =>
        have different : (e == f) = false := by simpa using other
        rw [List.lookup_cons, different, ih tail, List.lookup_cons, different]

theorem lookup_addEntry_of_ne {terms : List (Degree × α)} {d e : Degree} (c : α)
    (other : d ≠ e) : (addEntry e c terms).lookup d = terms.lookup d := by
  have different : (d == e) = false := by simpa using other
  induction terms with
  | nil => simp [addEntry, List.lookup_cons, different]
  | cons t rest ih =>
    rcases t with ⟨f, b⟩
    rw [addEntry]
    split
    · simp [List.lookup_cons, different]
    · split
      · next same =>
        subst same
        simp [List.lookup_cons, different]
      · rw [List.lookup_cons, List.lookup_cons, ih]

/-- An addition changes the coefficient of its degree only. -/
theorem coefficient_addTerm (p : Polynomial α) (e : Degree) (c : α) (d : Degree) :
    (p.addTerm e c).coefficient d =
      if d = e then p.coefficient d + c else p.coefficient d := by
  rw [addTerm, coefficient, coefficient]
  split
  · next same => rw [same, lookup_addEntry_self c p.sorted, Option.getD_some]
  · next other => rw [lookup_addEntry_of_ne c other]

/-- Additions one after another change a coefficient by those of its degree, in their order. -/
theorem coefficient_foldl_addTerm (added : List (Degree × α)) (p : Polynomial α) (d : Degree) :
    (added.foldl (fun p term => p.addTerm term.1 term.2) p).coefficient d =
      (added.filter (·.1 = d)).foldl (fun sum term => sum + term.2) (p.coefficient d) := by
  induction added generalizing p with
  | nil => rfl
  | cons t rest ih =>
    rw [List.foldl_cons, ih, coefficient_addTerm]
    by_cases same : t.1 = d
    · rw [if_pos same.symm, List.filter_cons_of_pos (by simpa using same), List.foldl_cons]
    · rw [if_neg (Ne.symm same), List.filter_cons_of_neg (by simpa using same)]

/-- The coefficients of one degree are added up in their order. -/
theorem coefficient_ofTerms (added : List (Degree × α)) (d : Degree) :
    (ofTerms added).coefficient d =
      (added.filter (·.1 = d)).foldl (fun sum term => sum + term.2) Scalar.zero :=
  coefficient_foldl_addTerm added zero d

theorem mem_degrees_foldl_addTerm {added : List (Degree × α)} {p : Polynomial α} {d : Degree} :
    d ∈ (added.foldl (fun p term => p.addTerm term.1 term.2) p).degrees ↔
      d ∈ p.degrees ∨ ∃ c, (d, c) ∈ added := by
  induction added generalizing p with
  | nil => simp
  | cons t rest ih =>
    have first : (∃ c, (d, c) ∈ t :: rest) ↔ d = t.1 ∨ ∃ c, (d, c) ∈ rest := by
      simp only [List.mem_cons, exists_or, Prod.ext_iff, exists_and_left, exists_eq, and_true]
    rw [List.foldl_cons, ih, mem_degrees_addTerm, first, or_left_comm, or_assoc]

/-- A degree is stored if and only if some term has it. -/
theorem mem_degrees_ofTerms {added : List (Degree × α)} {d : Degree} :
    d ∈ (ofTerms added).degrees ↔ ∃ c, (d, c) ∈ added := by
  have start : d ∉ (zero : Polynomial α).degrees := List.not_mem_nil
  rw [ofTerms, mem_degrees_foldl_addTerm, or_iff_right start]

/-- A degree beyond all stored ones is entered at the end. -/
theorem addEntry_of_forall_lt {terms : List (Degree × α)} {d : Degree} (c : α)
    (beyond : ∀ t ∈ terms, t.1 < d) :
    addEntry d c terms = terms ++ [(d, Scalar.zero + c)] := by
  induction terms with
  | nil => rfl
  | cons t rest ih =>
    have below : t.1 < d := beyond t (by simp)
    rw [addEntry, if_neg (UInt32.lt_asymm below), if_neg (UInt32.ne_of_lt below).symm,
      ih fun s member => beyond s (List.mem_cons_of_mem t member)]
    rfl

private theorem terms_foldl_addTerm {added : List (Degree × α)} {p : Polynomial α}
    (sorted : added.Pairwise fun s t => s.1 < t.1)
    (beyond : ∀ s ∈ p.terms, ∀ t ∈ added, s.1 < t.1) :
    (added.foldl (fun p term => p.addTerm term.1 term.2) p).terms =
      p.terms ++ added.map fun t => (t.1, Scalar.zero + t.2) := by
  induction added generalizing p with
  | nil => simp
  | cons t rest ih =>
    obtain ⟨above, tail⟩ := List.pairwise_cons.mp sorted
    have stored : (p.addTerm t.1 t.2).terms = p.terms ++ [(t.1, Scalar.zero + t.2)] :=
      addEntry_of_forall_lt t.2 fun s member => beyond s member t (by simp)
    rw [List.foldl_cons, ih tail, stored]
    · simp
    · rw [stored]
      intro s member u later
      rcases List.mem_append.mp member with old | new
      · exact beyond s old u (List.mem_cons_of_mem t later)
      · obtain rfl := List.mem_singleton.mp new
        exact above u later

/-- Terms in increasing degree are stored as they are, each added to zero. -/
theorem terms_ofTerms_of_sorted {added : List (Degree × α)}
    (sorted : added.Pairwise fun s t => s.1 < t.1) :
    (ofTerms added).terms = added.map fun t => (t.1, Scalar.zero + t.2) :=
  terms_foldl_addTerm (p := zero) sorted (by simp [zero])

/-- A degree below all stored ones is entered in front. -/
theorem addEntry_of_lt_forall {terms : List (Degree × α)} {d : Degree} (c : α)
    (below : ∀ t ∈ terms, d < t.1) :
    addEntry d c terms = (d, Scalar.zero + c) :: terms := by
  cases terms with
  | nil => rfl
  | cons t rest => rw [addEntry, if_pos (below t (by simp))]

private theorem terms_foldl_addTerm_reverse {added : List (Degree × α)} {p : Polynomial α}
    (sorted : added.Pairwise fun s t => t.1 < s.1)
    (below : ∀ s ∈ p.terms, ∀ t ∈ added, t.1 < s.1) :
    (added.foldl (fun p term => p.addTerm term.1 term.2) p).terms =
      (added.map fun t => (t.1, Scalar.zero + t.2)).reverse ++ p.terms := by
  induction added generalizing p with
  | nil => simp
  | cons t rest ih =>
    obtain ⟨beneath, tail⟩ := List.pairwise_cons.mp sorted
    have stored : (p.addTerm t.1 t.2).terms = (t.1, Scalar.zero + t.2) :: p.terms :=
      addEntry_of_lt_forall t.2 fun s member => below s member t (by simp)
    rw [List.foldl_cons, ih tail, stored]
    · simp
    · rw [stored]
      intro s member u later
      rcases List.mem_cons.mp member with rfl | old
      · exact beneath u later
      · exact below s old u (List.mem_cons_of_mem t later)

/-- Terms in decreasing degree are stored the other way round, each added to zero. -/
theorem terms_ofTerms_of_sorted_reverse {added : List (Degree × α)}
    (sorted : added.Pairwise fun s t => t.1 < s.1) :
    (ofTerms added).terms = (added.map fun t => (t.1, Scalar.zero + t.2)).reverse := by
  have stored := terms_foldl_addTerm_reverse (p := zero) sorted (by simp [zero])
  rwa [show (zero : Polynomial α).terms = [] from rfl, List.append_nil] at stored

/-- The difference has an entry for each degree of the union. -/
theorem terms_difference (p q : Polynomial α) :
    (p.difference q).terms = (degreesUnion p q).map fun d =>
      (d, Scalar.zero + (p.coefficient d - q.coefficient d)) := by
  rw [difference, terms_ofTerms_of_sorted, List.map_map]
  · rfl
  · exact List.pairwise_map.mpr (sorted_degreesUnion p q)

theorem degrees_difference (p q : Polynomial α) :
    (p.difference q).degrees = degreesUnion p q := by
  rw [degrees, terms_difference, List.map_map]
  exact List.map_id _

theorem mem_degrees_difference {p q : Polynomial α} {d : Degree} :
    d ∈ (p.difference q).degrees ↔ d ∈ p.degrees ∨ d ∈ q.degrees := by
  rw [degrees_difference, mem_degreesUnion]

theorem toNat_succ {d : Degree} (h : d ≠ Degree.max) : (d + 1).toNat = d.toNat + 1 := by
  have bound := d.toNat_lt
  have below : d.toNat ≠ 4294967295 := fun same => h (UInt32.toNat_inj.mp same)
  rw [UInt32.toNat_add, UInt32.toNat_one, Nat.mod_eq_of_lt (by omega)]

/-- The integral of one term. -/
def integratedTerm (term : Degree × α) : Degree × α :=
  (term.1 + 1, term.2 / Scalar.ofNat (term.1 + 1).toNat)

private theorem foldlM_antiderivative {terms : List (Degree × α)}
    (noMax : ∀ t ∈ terms, t.1 ≠ Degree.max) (start : Polynomial α) :
    (terms.foldlM (fun integral term =>
      match term.1.succ? with
      | none => .error (.degreeOverflow term.1)
      | some d => .ok (integral.addTerm d (term.2 / Scalar.ofNat d.toNat))) start :
        Except (AreaError α) (Polynomial α)) =
      .ok ((terms.map integratedTerm).foldl (fun p term => p.addTerm term.1 term.2) start) := by
  induction terms generalizing start with
  | nil => rfl
  | cons t rest ih =>
    have hasNext : t.1.succ? = some (t.1 + 1) := if_neg (noMax t (by simp))
    rw [List.foldlM_cons, hasNext]
    exact ih (fun s member => noMax s (List.mem_cons_of_mem t member)) _

/-- Below the largest degree there is an antiderivative, with an entry for each entry. -/
theorem exists_antiderivative {p : Polynomial α} (noMax : Degree.max ∉ p.degrees) :
    ∃ integral : Polynomial α, p.antiderivative = .ok integral ∧
      integral.terms = p.terms.map fun t =>
        (t.1 + 1, Scalar.zero + t.2 / Scalar.ofNat (t.1.toNat + 1)) := by
  have below : ∀ t ∈ p.terms, t.1 ≠ Degree.max := by
    rintro t member same
    exact noMax (same ▸ List.mem_map_of_mem member)
  refine ⟨_, foldlM_antiderivative below zero, ?_⟩
  have sorted : (p.terms.map integratedTerm).Pairwise fun s t => s.1 < t.1 := by
    rw [List.pairwise_map]
    refine p.sorted.imp_of_mem fun hs ht lt => ?_
    have hlt := UInt32.lt_iff_toNat_lt.mp lt
    refine UInt32.lt_iff_toNat_lt.mpr ?_
    simp only [integratedTerm, toNat_succ (below _ hs), toNat_succ (below _ ht)]
    omega
  rw [← ofTerms, terms_ofTerms_of_sorted sorted, List.map_map]
  apply List.map_congr_left
  intro t member
  simp [integratedTerm, toNat_succ (below t member)]

private theorem foldlM_antiderivative_of_max {terms : List (Degree × α)}
    (hasMax : Degree.max ∈ terms.map (·.1)) (start : Polynomial α) :
    (terms.foldlM (fun integral term =>
      match term.1.succ? with
      | none => .error (.degreeOverflow term.1)
      | some d => .ok (integral.addTerm d (term.2 / Scalar.ofNat d.toNat))) start :
        Except (AreaError α) (Polynomial α)) = .error (.degreeOverflow Degree.max) := by
  induction terms generalizing start with
  | nil => cases hasMax
  | cons t rest ih =>
    rw [List.foldlM_cons]
    by_cases last : t.1 = Degree.max
    · have noNext : t.1.succ? = none := if_pos last
      rw [noNext, last]
      rfl
    · have hasNext : t.1.succ? = some (t.1 + 1) := if_neg last
      rw [hasNext]
      exact ih ((List.mem_cons.mp hasMax).resolve_left (Ne.symm last)) _

/-- A stored term of the largest degree is the failure of the antiderivative, whatever its
coefficient and whatever else is stored. -/
theorem antiderivative_of_max_mem {p : Polynomial α} (hasMax : Degree.max ∈ p.degrees) :
    p.antiderivative = .error (.degreeOverflow Degree.max) :=
  foldlM_antiderivative_of_max hasMax zero

/-- A largest degree that cancels is still stored, and fails. -/
theorem areaOver_of_max {p q : Polynomial α} (i : Interval α)
    (hasMax : Degree.max ∈ p.degrees ∨ Degree.max ∈ q.degrees) :
    p.areaOver q i = .error (.degreeOverflow Degree.max) := by
  rw [areaOver, definiteIntegral, antiderivative_of_max_mem (mem_degrees_difference.mpr hasMax)]
  rfl

theorem exists_areaOver {p q : Polynomial α} (i : Interval α)
    (noMax : ¬ (Degree.max ∈ p.degrees ∨ Degree.max ∈ q.degrees)) :
    ∃ area, p.areaOver q i = .ok area := by
  obtain ⟨integral, found, -⟩ := exists_antiderivative (mt mem_degrees_difference.mp noMax)
  rw [areaOver, definiteIntegral, found]
  exact ⟨_, rfl⟩

theorem areaBetween_of_improper (p q : Polynomial α) {a b : α} (improper : ¬ properBounds a b = true) :
    p.areaBetween q a b = .error (.invalidInterval a b) := by
  rw [areaBetween, Interval.between, dif_neg improper]
  rfl

end CurveArea.Polynomial
