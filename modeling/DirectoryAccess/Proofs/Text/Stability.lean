import DirectoryAccess.Proofs.Text.Case

/-! # Stability — what has been lower cased stays as it is

    No row of the table leads to a character that a row is about, and no character is
    lowered to a capital sigma, whose lower case depends on where it stands.  So every
    character of a lower case is its own, and a text lower cased twice is lower cased
    once. -/

namespace DirectoryAccess.Text

-- ── Code points ──────────────────────────────────────────────────────────────────

/-- No character that a row leads to is one that another row is about: they lie apart, or
    the other row is about every second character and skips these. -/
def leadsPast (r q : Nat × Nat × Nat × Nat) : Bool :=
  Nat.blt (r.2.2.2 + (r.2.1 - r.1)) q.1 || Nat.blt q.2.1 r.2.2.2
    || (q.2.2.1 == 2 && (r.2.2.1 == 2 || r.1 == r.2.1) && (r.2.2.2 + q.1) % 2 == 1)

/-- Every row leads past every row, and past the capital I with a dot, which has a lower case
    of its own. -/
theorem lowerCaseRuns_past :
    (lowerCaseRuns.all fun r => ((0x130, 0x130, 2, 0) :: lowerCaseRuns).all (leadsPast r))
      = true := by
  decide +kernel

/-- The capital sigma is in the table, the small one at the end of a word and the dot above
    are not. -/
theorem lowerCaseRun?_marks :
    (lowerCaseRun? ('Σ').toNat).isSome = true ∧ lowerCaseRun? ('ς').toNat = none
      ∧ lowerCaseRun? ('\u0307').toNat = none := by
  decide +kernel

/-- What a row leads to is not among the characters of a row that it leads past. -/
theorem outside_of_leadsPast {first last step target first' last' step' target' n : Nat}
    (h : leadsPast (first, last, step, target) (first', last', step', target') = true)
    (hn : (decide (first ≤ n) && decide (n ≤ last) && (n - first) % step == 0) = true)
    (hfirst : first' ≤ target + (n - first)) (hlast : target + (n - first) ≤ last') :
    (target + (n - first) - first') % step' ≠ 0 := by
  simp only [leadsPast, Bool.or_eq_true, Bool.and_eq_true, Nat.blt_eq, beq_iff_eq] at h
  simp only [Bool.and_eq_true, decide_eq_true_eq, beq_iff_eq] at hn
  rcases h with (hbelow | habove) | ⟨⟨htwo', hspan⟩, hodd⟩
  · omega
  · omega
  · rw [htwo']
    rcases hspan with htwo | hone
    · have heven : (n - first) % 2 = 0 := by
        rw [← htwo]
        exact hn.2
      omega
    · omega

/-- The code point that another is lowered to has no lower case but itself, and is not that
    of the capital I with a dot, unless the other is. -/
theorem lowerCodePoint_stable (n : Nat) :
    lowerCaseRun? (lowerCodePoint n) = none ∧ (lowerCodePoint n = 0x130 → n = 0x130) := by
  rw [lowerCodePoint]
  split
  · next first last step target hrun =>
    have hmem : (first, last, step, target) ∈ lowerCaseRuns := List.mem_of_find?_eq_some hrun
    have hn := List.find?_some hrun
    constructor
    · refine List.find?_eq_none.mpr ?_
      rintro ⟨first', last', step', target'⟩ hmem' hin
      have hpast := List.all_eq_true.mp (List.all_eq_true.mp lowerCaseRuns_past _ hmem) _
        (List.mem_cons_of_mem _ hmem')
      simp only [Bool.and_eq_true, decide_eq_true_eq, beq_iff_eq] at hin
      exact outside_of_leadsPast hpast hn hin.1.1 hin.1.2 hin.2
    · intro hdotted
      have hpast := List.all_eq_true.mp (List.all_eq_true.mp lowerCaseRuns_past _ hmem) _
        (List.mem_cons_self ..)
      refine absurd ?_ (outside_of_leadsPast hpast hn (by omega) (by omega))
      rw [hdotted]
  · next hnone => exact ⟨hnone, id⟩

-- ── Characters ───────────────────────────────────────────────────────────────────

/-- A character that stays as it is wherever it stands. -/
def IsStable (c : Char) : Prop := lowerChar c = [c] ∧ c ≠ 'Σ'

/-- An ASCII character is stable if it is no capital. -/
theorem isStable_of_ascii {c : Char} (hascii : c.toNat < 0x80) (hsmall : isAsciiUpper c = false) :
    IsStable c := by
  constructor
  · have hno : ¬(decide (0x41 ≤ c.toNat) && decide (c.toNat ≤ 0x5a)) = true := by
      rw [← isAsciiUpper, hsmall]
      exact Bool.false_ne_true
    simp only [lowerChar]
    rw [if_pos hascii, if_neg hno]
  · rintro rfl
    exact absurd hascii (by decide)

/-- A character above ASCII is stable if it has no lower case. -/
theorem isStable_of_none {c : Char} (habove : 0x80 ≤ c.toNat) (hdotted : c.toNat ≠ 0x130)
    (hnone : lowerCaseRun? c.toNat = none) : IsStable c := by
  constructor
  · have hsame : lowerCodePoint c.toNat = c.toNat := by
      rw [lowerCodePoint, hnone]
    simp only [lowerChar]
    rw [if_neg (by omega), if_neg (by simpa using hdotted), hsame, Char.ofNat_toNat]
  · rintro rfl
    have hrun := lowerCaseRun?_marks.1
    rw [hnone] at hrun
    cases hrun

/-- The character of a code point that another is lowered to is stable. -/
theorem isStable_ofNat {n : Nat} (habove : 0x80 ≤ n) (hdotted : n ≠ 0x130) :
    IsStable (Char.ofNat (lowerCodePoint n)) := by
  obtain ⟨hnone, hback⟩ := lowerCodePoint_stable n
  by_cases hv : (lowerCodePoint n).isValidChar
  · have hcode : (Char.ofNat (lowerCodePoint n)).toNat = lowerCodePoint n := by
      rw [Char.ofNat, dif_pos hv]
      rfl
    rcases lowerCodePoint_above habove with hhigh | hkelvin
    · refine isStable_of_none ?_ ?_ ?_
      · rwa [hcode]
      · rw [hcode]
        exact fun h => hdotted (hback h)
      · rwa [hcode]
    · rw [hkelvin]
      exact isStable_of_ascii (by decide) (by decide)
  · rw [Char.ofNat, dif_neg hv]
    exact isStable_of_ascii (by decide) (by decide)

/-- The lower case of a character is made of stable ones. -/
theorem isStable_of_mem_lowerChar {c d : Char} (h : d ∈ lowerChar c) : IsStable d := by
  have hsmall := lowerChar_noUpper c d h
  simp only [lowerChar, Bool.and_eq_true, decide_eq_true_eq, beq_iff_eq] at h
  split at h
  · next hascii =>
    refine isStable_of_ascii ?_ hsmall
    split at h
    · next hupper =>
      rw [List.mem_singleton.mp h, toNat_ofNat_of_lt (by omega)]
      omega
    · rw [List.mem_singleton.mp h]
      exact hascii
  · next habove =>
    split at h
    · rcases List.mem_cons.mp h with rfl | h
      · exact isStable_of_ascii (by decide) hsmall
      · rw [List.mem_singleton.mp h]
        exact isStable_of_none (by decide) (by decide) lowerCaseRun?_marks.2.2
    · next hdotted =>
      rw [List.mem_singleton.mp h]
      exact isStable_ofNat (by omega) hdotted

-- ── Texts ────────────────────────────────────────────────────────────────────────

theorem isStable_of_mem_lowerFrom {before cs : List Char} :
    ∀ d ∈ lowerFrom before cs, IsStable d := by
  induction cs generalizing before with
  | nil => exact fun _ hd => by cases hd
  | cons c rest ih =>
      intro d hd
      rw [lowerFrom] at hd
      rcases List.mem_append.mp hd with hd | hd
      · split at hd
        · rw [List.mem_singleton.mp hd]
          exact isStable_of_none (by decide) (by decide) lowerCaseRun?_marks.2.1
        · exact isStable_of_mem_lowerChar hd
      · exact ih d hd

/-- Stable characters stay as they are, whatever stands in front of them. -/
theorem lowerFrom_of_stable {cs : List Char} (h : ∀ c ∈ cs, IsStable c) (before : List Char) :
    lowerFrom before cs = cs := by
  induction cs generalizing before with
  | nil => rfl
  | cons c rest ih =>
      obtain ⟨⟨hlower, hsigma⟩, hrest⟩ := List.forall_mem_cons.mp h
      have hno : (c == 'Σ') = false := beq_eq_false_iff_ne.mpr hsigma
      rw [lowerFrom, hno, Bool.false_and, if_neg Bool.false_ne_true, hlower, ih hrest]
      rfl

/-- A text lower cased twice is lower cased once. -/
theorem lowercase_lowercase (s : String) : lowercase (lowercase s) = lowercase s := by
  rw [lowercase, lowercase, String.toList_ofList,
    lowerFrom_of_stable isStable_of_mem_lowerFrom]

end DirectoryAccess.Text
