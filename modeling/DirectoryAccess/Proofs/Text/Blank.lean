import DirectoryAccess.Proofs.Text.Case

/-! # Blanks — what trimming leaves alone, and lower casing with it

    A text is trimmed if neither its first nor its last character is a blank.  No
    character but a blank is lowered to one, and none is lowered to nothing, so the
    lower case of a trimmed text is trimmed and that of a text is not empty. -/

namespace DirectoryAccess.Text

-- ── Trimming ─────────────────────────────────────────────────────────────────────

/-- A text without blanks is not trimmed. -/
theorem trimChars_of_no_blank {cs : List Char} (h : ∀ c ∈ cs, isBlank c = false) :
    trimChars cs = cs := by
  have hdrop : ∀ l : List Char, (∀ c ∈ l, isBlank c = false) → l.dropWhile isBlank = l := by
    intro l hl
    cases l with
    | nil => rfl
    | cons c rest => rw [List.dropWhile_cons, hl c (List.mem_cons_self ..), if_neg nofun]
  rw [trimChars, trimEndChars, trimStartChars, hdrop cs h, hdrop cs.reverse, List.reverse_reverse]
  intro c hc
  exact h c (List.mem_reverse.mp hc)

/-- A text that starts and ends with characters that are no blanks is not trimmed. -/
theorem trimChars_of_ends {c d : Char} {cs u : List Char} (hc : isBlank c = false)
    (hd : isBlank d = false) (h : c :: cs = u ++ [d]) : trimChars (c :: cs) = c :: cs := by
  rw [trimChars, trimStartChars_cons hc, h, trimEndChars, List.reverse_append,
    List.reverse_singleton, List.singleton_append, List.dropWhile_cons, hd]
  simp

/-- A trimmed text is empty or ends with a character that is no blank. -/
theorem trimChars_ends (cs : List Char) :
    trimChars cs = [] ∨ ∃ u d, trimChars cs = u ++ [d] ∧ isBlank d = false := by
  rcases trimStartChars_eq (trimStartChars cs).reverse with h | ⟨d, u, h, hd⟩
  · left
    rw [trimStartChars] at h
    rw [trimChars, trimEndChars, h]
    rfl
  · right
    refine ⟨u.reverse, d, ?_, hd⟩
    rw [trimStartChars] at h
    rw [trimChars, trimEndChars, h, List.reverse_cons]

/-- Trimming only takes characters away. -/
theorem mem_of_mem_trimChars {c : Char} {cs : List Char} (h : c ∈ trimChars cs) : c ∈ cs := by
  rw [trimChars, trimEndChars, List.mem_reverse] at h
  have h := (List.dropWhile_sublist _).subset h
  rw [List.mem_reverse] at h
  exact (List.dropWhile_sublist _).subset h

theorem mem_of_mem_trim {c : Char} {s : String} (h : c ∈ (trim s).toList) : c ∈ s.toList := by
  rw [trim, String.toList_ofList] at h
  exact mem_of_mem_trimChars h

/-- A trimmed text is empty or starts with a character that is no blank. -/
theorem trimChars_starts (cs : List Char) :
    trimChars cs = [] ∨ ∃ c u, trimChars cs = c :: u ∧ isBlank c = false := by
  rcases trimStartChars_eq cs with h | ⟨c, rest, h, hc⟩
  · left
    rw [trimChars, h]
    rfl
  · right
    obtain ⟨u, hu⟩ := trimEndChars_cons rest hc
    exact ⟨c, u, by rw [trimChars, h, hu], hc⟩

theorem trim_eq_self_iff {s : String} : trim s = s ↔ trimChars s.toList = s.toList := by
  rw [trim, ← String.toList_inj, String.toList_ofList]

-- ── Lower casing ─────────────────────────────────────────────────────────────────

/-- The code points of the blanks. -/
def blankRanges : List (Nat × Nat) :=
  [(0x9, 0xd), (0x20, 0x20), (0x85, 0x85), (0xa0, 0xa0), (0x1680, 0x1680), (0x2000, 0x200a),
    (0x2028, 0x2029), (0x202f, 0x202f), (0x205f, 0x205f), (0x3000, 0x3000)]

/-- Every blank is in one of the ranges. -/
theorem exists_range_of_isBlank {c : Char} (h : isBlank c = true) :
    ∃ b ∈ blankRanges, b.1 ≤ c.toNat ∧ c.toNat ≤ b.2 := by
  simp only [isBlank, Bool.or_eq_true, Bool.and_eq_true, decide_eq_true_eq, beq_iff_eq] at h
  simp only [blankRanges, List.mem_cons, List.not_mem_nil, or_false, or_and_right, exists_or,
    exists_eq_left]
  omega

/-- No row of the table leads to a blank. -/
theorem lowerCaseRuns_apart : (lowerCaseRuns.all fun r => blankRanges.all fun b =>
    Nat.blt (r.2.2.2 + (r.2.1 - r.1)) b.1 || Nat.blt b.2 r.2.2.2) = true := by
  decide +kernel

/-- What is lowered to a blank is one. -/
theorem isBlank_of_lowerCodePoint {c : Char}
    (h : isBlank (Char.ofNat (lowerCodePoint c.toNat)) = true) : isBlank c = true := by
  by_cases hv : (lowerCodePoint c.toNat).isValidChar
  · have hcode : (Char.ofNat (lowerCodePoint c.toNat)).toNat = lowerCodePoint c.toNat := by
      rw [Char.ofNat, dif_pos hv]
      rfl
    cases hrun : lowerCaseRun? c.toNat with
    | none =>
        rw [lowerCodePoint, hrun] at h
        rwa [Char.ofNat_toNat] at h
    | some r =>
        obtain ⟨first, last, step, target⟩ := r
        obtain ⟨b, hb, hlow, hhigh⟩ := exists_range_of_isBlank h
        have hpoint : lowerCodePoint c.toNat = target + (c.toNat - first) := by
          rw [lowerCodePoint, hrun]
        have hin := List.find?_some hrun
        have hapart := List.all_eq_true.mp (List.all_eq_true.mp lowerCaseRuns_apart _
          (List.mem_of_find?_eq_some hrun)) b hb
        simp only [Bool.and_eq_true, decide_eq_true_eq] at hin
        simp only [Bool.or_eq_true, Nat.blt_eq] at hapart
        omega
  · rw [Char.ofNat, dif_neg hv] at h
    exact absurd h (by decide)

/-- A character with a blank in its lower case is a blank. -/
theorem isBlank_of_lowerChar {c d : Char} (hd : d ∈ lowerChar c) (h : isBlank d = true) :
    isBlank c = true := by
  simp only [lowerChar, Bool.and_eq_true, decide_eq_true_eq, beq_iff_eq] at hd
  split at hd
  · split at hd
    · next hupper =>
      have hcode : (Char.ofNat (c.toNat + 0x20)).toNat = c.toNat + 0x20 :=
        toNat_ofNat_of_lt (by omega)
      rw [List.mem_singleton.mp hd] at h
      simp only [isBlank, hcode, Bool.or_eq_true, Bool.and_eq_true, decide_eq_true_eq,
        beq_iff_eq] at h
      omega
    · rwa [List.mem_singleton.mp hd] at h
  · split at hd
    · rcases List.mem_cons.mp hd with rfl | hd
      · exact absurd h (by decide)
      · rw [List.mem_singleton.mp hd] at h
        exact absurd h (by decide)
    · rw [List.mem_singleton.mp hd] at h
      exact isBlank_of_lowerCodePoint h

theorem lowerChar_ne_nil (c : Char) : lowerChar c ≠ [] := by
  simp only [lowerChar]
  split
  · split <;> exact List.cons_ne_nil _ _
  · split <;> exact List.cons_ne_nil _ _

/-- The first character of a text is lowered to at least one, and to no blank unless it is
    one. -/
theorem lowerFrom_cons (before : List Char) (c : Char) (rest : List Char) :
    ∃ piece, lowerFrom before (c :: rest) = piece ++ lowerFrom (c :: before) rest ∧ piece ≠ []
      ∧ (isBlank c = false → ∀ d ∈ piece, isBlank d = false) := by
  refine ⟨_, rfl, ?_, fun hc d hd => ?_⟩
  · split
    · exact List.cons_ne_nil _ _
    · exact lowerChar_ne_nil c
  · split at hd
    · rw [List.mem_singleton.mp hd]
      decide
    · rw [← Bool.not_eq_true] at hc ⊢
      exact mt (isBlank_of_lowerChar hd) hc

/-- The lower case of a text that starts with no blank starts with none. -/
theorem lowerFrom_starts {c : Char} (hc : isBlank c = false) (before rest : List Char) :
    ∃ d u, lowerFrom before (c :: rest) = d :: u ∧ isBlank d = false := by
  obtain ⟨piece, h, hne, hblank⟩ := lowerFrom_cons before c rest
  obtain ⟨d, ds, rfl⟩ := List.exists_cons_of_ne_nil hne
  exact ⟨d, _, h, hblank hc d (List.mem_cons_self ..)⟩

/-- The lower case of a text that ends with no blank ends with none. -/
theorem lowerFrom_ends {c : Char} (hc : isBlank c = false) (before u : List Char) :
    ∃ v d, lowerFrom before (u ++ [c]) = v ++ [d] ∧ isBlank d = false := by
  induction u generalizing before with
  | nil =>
      obtain ⟨piece, h, hne, hblank⟩ := lowerFrom_cons before c []
      refine ⟨piece.dropLast, piece.getLast hne, ?_, hblank hc _ (List.getLast_mem hne)⟩
      rw [List.nil_append, h, lowerFrom, List.append_nil, List.dropLast_concat_getLast]
  | cons x rest ih =>
      obtain ⟨piece, h, -, -⟩ := lowerFrom_cons before x (rest ++ [c])
      obtain ⟨v, d, hv, hd⟩ := ih (x :: before)
      exact ⟨piece ++ v, d, by rw [List.cons_append, h, hv, List.append_assoc], hd⟩

/-- The lower case of a trimmed text is trimmed. -/
theorem trim_lowercase {s : String} (h : trim s = s) : trim (lowercase s) = lowercase s := by
  rw [trim_eq_self_iff] at h ⊢
  rw [lowercase, String.toList_ofList]
  rcases trimChars_starts s.toList with hnil | ⟨c, rest, hstart, hc⟩
  · rw [h] at hnil
    rw [hnil]
    rfl
  · rcases trimChars_ends s.toList with hnil | ⟨u, d, hend, hd⟩
    · rw [hstart] at hnil
      cases hnil
    · rw [h] at hstart hend
      obtain ⟨c', rest', hstart', hc'⟩ := lowerFrom_starts hc [] rest
      obtain ⟨u', d', hend', hd'⟩ := lowerFrom_ends hd [] u
      rw [← hstart] at hstart'
      rw [← hend, hstart'] at hend'
      rw [hstart']
      exact trimChars_of_ends hc' hd' hend'

/-- The lower case of a text that is not empty is not empty. -/
theorem lowercase_ne_empty {s : String} (h : s ≠ "") : lowercase s ≠ "" := by
  intro hempty
  cases hs : s.toList with
  | nil => exact h (String.toList_eq_nil_iff.mp hs)
  | cons c rest =>
      obtain ⟨piece, hpiece, hne, -⟩ := lowerFrom_cons [] c rest
      have hnil := congrArg String.toList hempty
      rw [lowercase, String.toList_ofList, hs, hpiece] at hnil
      exact hne (List.append_eq_nil_iff.mp hnil).1

end DirectoryAccess.Text
