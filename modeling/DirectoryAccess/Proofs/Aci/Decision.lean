import DirectoryAccess.Aci.Decision

/-! # Decisions — which tuples settle them

    A tuple counts for a micro operation if it passes six tests, and the operation is
    granted if some tuple counts for it and all that do are grants.  So nothing is granted
    where no tuple counts, and what has been granted stays granted where the same grants
    still count and no further denial does. -/

namespace DirectoryAccess

namespace AccessCheck

variable {c c' : AccessCheck} {op : MicroOperation} {t : AciTuple}

/-- What it takes for a tuple to count for a micro operation. -/
structure Counts (c : AccessCheck) (op : MicroOperation) (t : AciTuple) : Prop where
  operation : t.operations.contains op = true
  requester : c.relatesTo t = true
  target : ∃ item ∈ t.protectedItems, c.covers item = true
  maxValueCount : c.maxValueCountHolds t op = true
  maxImmSub : c.maxImmSubHolds t op = true
  restrictedBy : c.restrictedByHolds t = true

/-- The tests that a tuple has to pass say what it takes to count. -/
theorem applies_iff : c.applies op t = true ↔ c.Counts op t := by
  simp only [applies, Bool.and_eq_true, List.any_eq_true]
  constructor
  · rintro ⟨⟨⟨⟨⟨hop, hrelates⟩, hcovers⟩, hcount⟩, hsub⟩, hrestricted⟩
    exact ⟨hop, hrelates, hcovers, hcount, hsub, hrestricted⟩
  · rintro ⟨hop, hrelates, hcovers, hcount, hsub, hrestricted⟩
    exact ⟨⟨⟨⟨⟨hop, hrelates⟩, hcovers⟩, hcount⟩, hsub⟩, hrestricted⟩

/-- A micro operation is granted if some tuple counts for it and all that do are
    grants. -/
theorem grants_iff (c : AccessCheck) (op : MicroOperation) :
    c.grants op = true ↔ (∃ t ∈ c.tuples, t.grants = true ∧ c.applies op t = true)
      ∧ ∀ t ∈ c.tuples, t.grants = false → ¬ c.applies op t = true := by
  have hall : (c.tuples.filter (c.applies op)).all (·.grants) = true
      ↔ ∀ t ∈ c.tuples, c.applies op t = true → t.grants = true := by
    simp only [List.all_eq_true, List.mem_filter, and_imp]
  have hsome : (!(c.tuples.filter (c.applies op)).isEmpty) = true
      ↔ ∃ t ∈ c.tuples, c.applies op t = true := by
    rw [Bool.not_eq_true', List.isEmpty_eq_false_iff_exists_mem]
    simp only [List.mem_filter]
  show (_ && _) = true ↔ _
  rw [Bool.and_eq_true, hall, hsome]
  constructor
  · rintro ⟨⟨t, ht, happlies⟩, hgrants⟩
    refine ⟨⟨t, ht, hgrants t ht happlies, happlies⟩, fun u hu hdenies happlies => ?_⟩
    rw [hgrants u hu happlies] at hdenies
    cases hdenies
  · rintro ⟨⟨t, ht, -, happlies⟩, hdenies⟩
    refine ⟨⟨t, ht, happlies⟩, fun u hu happlies => ?_⟩
    exact eq_true_of_ne_false fun hfalse => hdenies u hu hfalse happlies

/-- Where one operation is permitted, some tuple that grants it counts. -/
theorem exists_grant (hops : c.operations = [op])
    (h : c.hasPermission = true) : ∃ t ∈ c.tuples, t.grants = true ∧ c.applies op t = true := by
  rw [hasPermission, hops, List.all_cons, List.all_nil, Bool.and_true] at h
  exact ((c.grants_iff op).mp h).1

/-- Nothing may be done where no tuple counts for anything. -/
theorem not_hasPermission_of_none (hops : c.operations ≠ [])
    (h : ∀ op, ∀ t ∈ c.tuples, ¬c.applies op t = true) : c.hasPermission = false := by
  obtain ⟨op, rest, hlist⟩ := List.exists_cons_of_ne_nil hops
  have hdenied : c.grants op = false := by
    rw [← Bool.not_eq_true, grants_iff]
    rintro ⟨⟨t, ht, -, happlies⟩, -⟩
    exact h op t ht happlies
  rw [hasPermission, hlist, List.all_cons, hdenied, Bool.false_and]

/-- What is permitted stays so in another question about the same operations and tuples, if
    the grants that count do there, and the denials that count there do here. -/
theorem hasPermission_mono (hops : c'.operations = c.operations) (htuples : c'.tuples = c.tuples)
    (hgrants : ∀ op t, t.grants = true → c.applies op t = true → c'.applies op t = true)
    (hdenials : ∀ op t, t.grants = false → c'.applies op t = true → c.applies op t = true)
    (h : c.hasPermission = true) : c'.hasPermission = true := by
  rw [hasPermission, List.all_eq_true] at h ⊢
  rw [hops]
  intro op hop
  obtain ⟨⟨t, ht, hgrant, happlies⟩, hnone⟩ := (c.grants_iff op).mp (h op hop)
  rw [grants_iff, htuples]
  exact ⟨⟨t, ht, hgrant, hgrants op t hgrant happlies⟩,
    fun u hu hdenial happlies => hnone u hu hdenial (hdenials op u hdenial happlies)⟩

end AccessCheck

end DirectoryAccess
