import DirectoryAccess.Name.Rdn

/-! # Two lower cases — where a text spells its name plainly

    Names are looked up under their full lower case, but compared with one another
    by their ASCII letters alone.  For a text whose letters above ASCII are all in
    lower case the two agree.  Such a text is PLAIN; for every other one a lookup
    and a comparison speak of different names. -/

namespace DirectoryAccess.Text

/-- A text whose full lower case changes no more than its ASCII capitals. -/
def Plain (s : String) : Prop := lowercase s = asciiLower s

instance (s : String) : Decidable (Plain s) :=
  inferInstanceAs (Decidable (lowercase s = asciiLower s))

-- ── Texts without ASCII capitals ─────────────────────────────────────────────────

theorem asciiLower_of_noUpper {s : String} (h : hasAsciiUpper s = false) :
    asciiLower s = s := by
  have hc : ∀ c ∈ s.toList, asciiLowerChar c = c := by
    intro c hm
    have hu : ¬isAsciiUpper c = true := List.any_eq_false.mp h c hm
    rw [asciiLowerChar, if_neg hu]
  rw [asciiLower, List.map_congr_left hc, List.map_id', String.ofList_toList]

/-- Every row of the table leads above ASCII, but for the one of the Kelvin sign. -/
theorem lowerCaseRuns_above :
    ∀ r ∈ lowerCaseRuns, 0x80 ≤ r.2.2.2 ∨ r.1 = r.2.1 ∧ r.2.2.2 = 0x6b := by
  decide +kernel

theorem lowerCodePoint_above {n : Nat} (h : 0x80 ≤ n) :
    0x80 ≤ lowerCodePoint n ∨ lowerCodePoint n = 0x6b := by
  rw [lowerCodePoint]
  split
  · next first last step target hrun =>
    have hin := List.find?_some hrun
    simp only [Bool.and_eq_true, decide_eq_true_eq] at hin
    rcases lowerCaseRuns_above _ (List.mem_of_find?_eq_some hrun) with habove | ⟨hone, hkelvin⟩
    · exact Or.inl (Nat.le_trans habove (Nat.le_add_right ..))
    · have hone : first = last := hone
      have hkelvin : target = 0x6b := hkelvin
      exact Or.inr (by omega)
  · exact Or.inl h

theorem lowerCodePoint_gt {n : Nat} (h : 0x80 ≤ n) : 0x5a < lowerCodePoint n := by
  have habove := lowerCodePoint_above h
  omega

theorem isAsciiUpper_ofNat {n : Nat} (h : 0x5a < n) : isAsciiUpper (Char.ofNat n) = false := by
  by_cases hv : n.isValidChar
  · have hn : (Char.ofNat n).toNat = n := by
      rw [Char.ofNat, dif_pos hv]
      rfl
    rw [isAsciiUpper, hn, Bool.and_eq_false_iff]
    exact Or.inr (decide_eq_false (by omega))
  · rw [Char.ofNat, dif_neg hv]
    decide

theorem lowerChar_noUpper (c : Char) : ∀ d ∈ lowerChar c, isAsciiUpper d = false := by
  intro d hd
  simp only [lowerChar, Bool.and_eq_true, decide_eq_true_eq] at hd
  split at hd
  · split at hd
    · rw [List.mem_singleton.mp hd]
      exact isAsciiUpper_ofNat (by omega)
    · next hn =>
      rw [List.mem_singleton.mp hd, ← Bool.not_eq_true, isAsciiUpper]
      simpa using hn
  · split at hd
    · rcases List.mem_cons.mp hd with rfl | hd
      · decide
      · rw [List.mem_singleton.mp hd]
        decide
    · rw [List.mem_singleton.mp hd]
      exact isAsciiUpper_ofNat (lowerCodePoint_gt (by omega))

theorem lowerFrom_noUpper (before cs : List Char) :
    ∀ d ∈ lowerFrom before cs, isAsciiUpper d = false := by
  induction cs generalizing before with
  | nil => exact fun _ hd => by cases hd
  | cons c rest ih =>
      intro d hd
      rw [lowerFrom] at hd
      rcases List.mem_append.mp hd with hd | hd
      · split at hd
        · rw [List.mem_singleton.mp hd]
          decide
        · exact lowerChar_noUpper c d hd
      · exact ih (c :: before) d hd

/-- The lower case of a text has no ASCII capitals. -/
theorem lowercase_hasNoUpper (s : String) : hasAsciiUpper (lowercase s) = false := by
  rw [hasAsciiUpper, lowercase, String.toList_ofList, List.any_eq_false]
  intro c hc
  rw [lowerFrom_noUpper [] s.toList c hc]
  decide

-- ── Comparing ────────────────────────────────────────────────────────────────────

/-- Comparison without case sees no more than what is lowered. -/
theorem sameIgnoringAsciiCase_congr {s t : String} (h : asciiLower s = asciiLower t)
    (a : String) : sameIgnoringAsciiCase a s = sameIgnoringAsciiCase a t := by
  rw [sameIgnoringAsciiCase, sameIgnoringAsciiCase, h]

theorem sameIgnoringAsciiCase_self (s : String) : sameIgnoringAsciiCase s s = true :=
  beq_self_eq_true _

/-- A text compares equal to its full lower case exactly if it is plain. -/
theorem sameIgnoringAsciiCase_lowercase (s : String) :
    sameIgnoringAsciiCase s (lowercase s) = true ↔ Plain s := by
  rw [sameIgnoringAsciiCase, beq_iff_eq, asciiLower_of_noUpper (lowercase_hasNoUpper s)]
  exact eq_comm

/-- The full lower case of a plain text has the same ASCII lower case. -/
theorem Plain.asciiLower_eq {s : String} (h : Plain s) :
    asciiLower s = asciiLower (lowercase s) := by
  rw [asciiLower_of_noUpper (lowercase_hasNoUpper s)]
  exact h.symm

/-- A plain text without ASCII capitals is its own lower case. -/
theorem Plain.lowercase_of_noUpper {s : String} (h : Plain s)
    (hu : hasAsciiUpper s = false) : lowercase s = s := by
  rw [show lowercase s = asciiLower s from h, asciiLower_of_noUpper hu]

-- ── Texts that nothing above ASCII is lowered to ─────────────────────────────────

/-- A small letter that no character above ASCII is lowered to.  The Kelvin sign is
    lowered to a `k`. -/
def isOwnLetter (c : Char) : Bool := 0x61 ≤ c.toNat && c.toNat ≤ 0x7a && c.toNat != 0x6b

theorem hasNoUpper_of_own {s : String} (h : s.toList.all isOwnLetter = true) :
    hasAsciiUpper s = false := by
  refine List.any_eq_false.mpr fun c hc => ?_
  have hown := List.all_eq_true.mp h c hc
  simp only [isOwnLetter, Bool.and_eq_true, decide_eq_true_eq, bne_iff_ne] at hown
  simp only [isAsciiUpper, Bool.and_eq_true, decide_eq_true_eq]
  omega

theorem not_isOwnLetter_ofNat {n : Nat} (h : 0x80 ≤ n ∨ n = 0x6b) :
    isOwnLetter (Char.ofNat n) = false := by
  by_cases hv : n.isValidChar
  · have hn : (Char.ofNat n).toNat = n := by
      rw [Char.ofNat, dif_pos hv]
      rfl
    rw [isOwnLetter, hn, ← Bool.not_eq_true]
    simp only [Bool.and_eq_true, decide_eq_true_eq, bne_iff_ne, ne_eq]
    omega
  · rw [Char.ofNat, dif_neg hv]
    decide

/-- What is lowered to such letters is one of them in some case. -/
theorem lowerChar_own {c : Char} (h : ∀ d ∈ lowerChar c, isOwnLetter d = true) :
    lowerChar c = [asciiLowerChar c] := by
  simp only [lowerChar] at h ⊢
  by_cases hascii : c.toNat < 0x80
  · rw [if_pos hascii, asciiLowerChar, isAsciiUpper]
    split <;> rfl
  · rw [if_neg hascii] at h
    split at h
    · have hdot := h '\u0307' (List.mem_cons_of_mem _ (List.mem_singleton_self _))
      exact absurd hdot (by decide)
    · have hown := h _ (List.mem_singleton_self _)
      rw [not_isOwnLetter_ofNat (lowerCodePoint_above (by omega))] at hown
      cases hown

/-- A text that is lowered to such letters is made of them, letter by letter. -/
theorem lowerFrom_own {before cs : List Char}
    (h : ∀ d ∈ lowerFrom before cs, isOwnLetter d = true) :
    lowerFrom before cs = cs.map asciiLowerChar := by
  induction cs generalizing before with
  | nil => rfl
  | cons c rest ih =>
      rw [lowerFrom] at h ⊢
      obtain ⟨hfirst, hrest⟩ := List.forall_mem_append.mp h
      rw [ih hrest]
      split at hfirst
      · exact absurd (hfirst 'ς' (List.mem_singleton_self _)) (by decide)
      · next hsigma =>
        rw [if_neg hsigma, lowerChar_own hfirst, List.singleton_append, List.map_cons]

/-- A text is plain if its lower case is made of letters that nothing above ASCII is
    lowered to. -/
theorem plain_of_own {s : String} (h : (lowercase s).toList.all isOwnLetter = true) : Plain s := by
  rw [lowercase, String.toList_ofList, List.all_eq_true] at h
  rw [Plain, lowercase, lowerFrom_own h, asciiLower]

-- ── ASCII texts ──────────────────────────────────────────────────────────────────

theorem asciiLowerChar_lt (c : Char) : (asciiLowerChar c).toNat < 0x80 ↔ c.toNat < 0x80 := by
  cases h : isAsciiUpper c with
  | false => simp [asciiLowerChar, h]
  | true =>
      have hr : 0x41 ≤ c.toNat ∧ c.toNat ≤ 0x5a := by
        simpa [isAsciiUpper] using h
      rw [asciiLowerChar, if_pos h, toNat_ofNat_of_lt (by omega)]
      omega

/-- Nothing but itself is lowered to a character that is no ASCII letter. -/
theorem asciiLowerChar_eq_iff {d : Char}
    (h : d.toNat < 0x41 ∨ 0x5a < d.toNat ∧ d.toNat < 0x61 ∨ 0x7a < d.toNat) (c : Char) :
    asciiLowerChar c = d ↔ c = d := by
  cases hc : isAsciiUpper c with
  | false => simp [asciiLowerChar, hc]
  | true =>
      have hr : 0x41 ≤ c.toNat ∧ c.toNat ≤ 0x5a := by
        simpa [isAsciiUpper] using hc
      constructor
      · rintro rfl
        rw [asciiLowerChar, if_pos hc, toNat_ofNat_of_lt (by omega)] at h
        omega
      · rintro rfl
        omega

/-- What is no letter is met in lower case exactly where it stood. -/
theorem asciiLowerChar_beq {d : Char}
    (h : d.toNat < 0x41 ∨ 0x5a < d.toNat ∧ d.toNat < 0x61 ∨ 0x7a < d.toNat) (c : Char) :
    (asciiLowerChar c == d) = (c == d) := by
  rw [Bool.eq_iff_iff, beq_iff_eq, beq_iff_eq, asciiLowerChar_eq_iff h]

/-- What differs from an ASCII text in the case of ASCII letters alone is lowered to the
    same text. -/
theorem lowercase_of_same {s t : String} (h : sameIgnoringAsciiCase s t = true)
    (ht : (t.toList.all fun c => decide (c.toNat < 0x80)) = true) :
    lowercase s = asciiLower t := by
  have hlower : asciiLower s = asciiLower t := eq_of_beq h
  have hchars : s.toList.map asciiLowerChar = t.toList.map asciiLowerChar := by
    simpa [asciiLower] using congrArg String.toList hlower
  have hascii : ∀ c ∈ s.toList, c.toNat < 0x80 := by
    intro c hc
    have hmem := List.mem_map_of_mem (f := asciiLowerChar) hc
    rw [hchars] at hmem
    obtain ⟨d, hd, hdc⟩ := List.mem_map.mp hmem
    rw [← asciiLowerChar_lt, ← hdc, asciiLowerChar_lt]
    exact of_decide_eq_true (List.all_eq_true.mp ht d hd)
  rw [← hlower, lowercase, lowerFrom_ascii hascii, asciiLower]

end DirectoryAccess.Text
