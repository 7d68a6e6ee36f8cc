import DirectoryAccess.Text.Quoted
import Mathlib.Data.List.Basic

/-! # Quoted texts — what can be told from the form in which a text is shown

    The form of a character says which character it is and where the next one starts, and no
    form starts like the closing quote.  So a quoted text, and a list of them, says what it
    was made of and where it ends.  Quoting leaves colons where they are and brings in no
    others, and between the quotes around a text it leaves no quote without a backslash. -/

namespace DirectoryAccess.Text

-- ── Hexadecimal digits ───────────────────────────────────────────────────────────

/-- The digits of a number are digits of numbers below sixteen. -/
theorem hexDigits_all (p : Char → Prop) (hp : ∀ n < 16, p (Nat.digitChar n)) (n : Nat) :
    ∀ d ∈ hexDigits n, p d := by
  induction n using Nat.strongRecOn with
  | _ n ih =>
      intro d hd
      rw [hexDigits, Nat.toDigits_eq_if (by decide)] at hd
      split at hd
      · next hlt =>
        rw [List.mem_singleton.mp hd]
        exact hp n hlt
      · rcases List.mem_append.mp hd with hd | hd
        · exact ih (n / 16) (by omega) d hd
        · rw [List.mem_singleton.mp hd]
          exact hp (n % 16) (Nat.mod_lt n (by decide))

/-- The number that a hexadecimal digit stands for. -/
def digitValue (d : Char) : Nat := if d.toNat < 0x61 then d.toNat - 0x30 else d.toNat - 0x57

/-- The number that hexadecimal digits stand for. -/
def readHex (ds : List Char) : Nat := ds.foldl (fun n d => 16 * n + digitValue d) 0

theorem digitValue_digitChar : ∀ n < 16, digitValue (Nat.digitChar n) = n := by
  decide

/-- A number is read back from its digits. -/
theorem readHex_hexDigits (n : Nat) : readHex (hexDigits n) = n := by
  induction n using Nat.strongRecOn with
  | _ n ih =>
      rw [hexDigits, Nat.toDigits_eq_if (by decide)]
      split
      · next hlt =>
        show 16 * 0 + digitValue (Nat.digitChar n) = n
        rw [digitValue_digitChar n hlt]
        omega
      · have hfront := ih (n / 16) (by omega)
        rw [readHex, hexDigits] at hfront
        rw [readHex, List.foldl_append, hfront, List.foldl_cons, List.foldl_nil,
          digitValue_digitChar _ (Nat.mod_lt n (by decide))]
        exact Nat.div_add_mod n 16

-- ── The forms of a character ─────────────────────────────────────────────────────

/-- The characters that are shown by a backslash and one more, and that one. -/
def escapes : List (Char × Char) :=
  [('\x00', '0'), ('\t', 't'), ('\r', 'r'), ('\n', 'n'), ('"', '"'), ('\\', '\\')]

theorem quoteChar_colon : quoteChar ':' = [':'] := by
  decide +kernel

/-- A character is shown by a backslash and one more character, by its code point, or as
    itself. -/
theorem quoteChar_cases (c : Char) :
    (∃ d, (c, d) ∈ escapes ∧ quoteChar c = ['\\', d])
      ∨ c ≠ ':' ∧ quoteChar c = escapeCodePoint c
      ∨ c ≠ '"' ∧ c ≠ '\\' ∧ quoteChar c = [c] := by
  by_cases hcolon : c = ':'
  · subst hcolon
    exact Or.inr (Or.inr ⟨by decide, by decide, quoteChar_colon⟩)
  by_cases hescape : ∃ d, (c, d) ∈ escapes
  · obtain ⟨d, hd⟩ := hescape
    refine Or.inl ⟨d, hd, ?_⟩
    simp only [escapes, List.mem_cons, Prod.mk.injEq, List.not_mem_nil, or_false] at hd
    rcases hd with ⟨rfl, rfl⟩ | ⟨rfl, rfl⟩ | ⟨rfl, rfl⟩ | ⟨rfl, rfl⟩ | ⟨rfl, rfl⟩ | ⟨rfl, rfl⟩ <;>
      rfl
  · have hother : ∀ e ∈ escapes, (c == e.1) = false := by
      intro e he
      refine beq_eq_false_iff_ne.mpr fun hc => hescape ⟨e.2, ?_⟩
      rw [hc]
      exact he
    simp only [escapes, List.forall_mem_cons, List.not_mem_nil, false_imp_iff, implies_true,
      and_true] at hother
    obtain ⟨h0, ht, hr, hn, hquote, hback⟩ := hother
    have hchar : quoteChar c
        = if attachesToPrevious c || !isPrintable c then escapeCodePoint c else [c] := by
      rw [quoteChar, h0, ht, hr, hn, hquote, hback]
      rfl
    rw [hchar]
    split
    · exact Or.inr (Or.inl ⟨hcolon, rfl⟩)
    · exact Or.inr (Or.inr ⟨ne_of_beq_false hquote, ne_of_beq_false hback, rfl⟩)

-- ── Reading a quoted text ────────────────────────────────────────────────────────

/-- The character that is shown at the front of a quoted text, and what follows it; nothing
    where the text ends. -/
def readChar? : List Char → Option (Char × List Char)
  | '\\' :: 'u' :: '{' :: rest =>
      some (Char.ofNat (readHex (rest.takeWhile (· != '}'))),
        (rest.dropWhile (· != '}')).tail)
  | '\\' :: d :: rest => (escapes.find? fun e => e.2 == d).map fun e => (e.1, rest)
  | '"' :: _ => none
  | c :: rest => some (c, rest)
  | [] => none

/-- What is neither a quote nor a backslash is read as it stands. -/
theorem readChar?_plain {c : Char} (hquote : c ≠ '"') (hback : c ≠ '\\') (rest : List Char) :
    readChar? (c :: rest) = some (c, rest) := by
  simp [readChar?, hback]

/-- An escaped code point is read as its character. -/
theorem readChar?_codePoint (c : Char) (rest : List Char) :
    readChar? (escapeCodePoint c ++ rest) = some (c, rest) := by
  have hdigits : ∀ d ∈ hexDigits c.toNat, (d != '}') = true :=
    hexDigits_all (fun d => (d != '}') = true) (by decide) c.toNat
  have htext : escapeCodePoint c ++ rest
      = '\\' :: 'u' :: '{' :: (hexDigits c.toNat ++ '}' :: rest) := by
    simp [escapeCodePoint]
  rw [htext, readChar?, List.takeWhile_append_of_pos hdigits,
    List.dropWhile_append_of_pos hdigits, List.takeWhile_cons_of_neg (by decide),
    List.dropWhile_cons_of_neg (by decide), List.append_nil, readHex_hexDigits,
    Char.ofNat_toNat]
  rfl

/-- A character is read back from the form in which it is shown. -/
theorem readChar?_quoteChar (c : Char) (rest : List Char) :
    readChar? (quoteChar c ++ rest) = some (c, rest) := by
  rcases quoteChar_cases c with ⟨d, hd, hshown⟩ | ⟨-, hshown⟩ | ⟨hquote, hback, hshown⟩
  · rw [hshown]
    simp only [escapes, List.mem_cons, Prod.mk.injEq, List.not_mem_nil, or_false] at hd
    rcases hd with ⟨rfl, rfl⟩ | ⟨rfl, rfl⟩ | ⟨rfl, rfl⟩ | ⟨rfl, rfl⟩ | ⟨rfl, rfl⟩ | ⟨rfl, rfl⟩ <;>
      rfl
  · rw [hshown]
    exact readChar?_codePoint c rest
  · rw [hshown]
    exact readChar?_plain hquote hback rest

/-- The characters of a text as they stand between the quotes, and what follows. -/
theorem quote_append (s : String) (y : List Char) :
    (quote s).toList ++ y = '"' :: (s.toList.flatMap quoteChar ++ '"' :: y) := by
  simp [quote]

/-- Where the quote ends is told by the text, and so is what stands behind. -/
theorem quoted_append_inj {cs ds x y : List Char}
    (h : cs.flatMap quoteChar ++ '"' :: x = ds.flatMap quoteChar ++ '"' :: y) :
    cs = ds ∧ x = y := by
  induction cs generalizing ds with
  | nil =>
      cases ds with
      | nil => exact ⟨rfl, List.tail_eq_of_cons_eq h⟩
      | cons d ds =>
          rw [List.flatMap_cons, List.append_assoc] at h
          have hread := congrArg readChar? h
          rw [readChar?_quoteChar] at hread
          cases hread
  | cons c cs ih =>
      rw [List.flatMap_cons, List.append_assoc] at h
      have hread := congrArg readChar? h
      rw [readChar?_quoteChar] at hread
      cases ds with
      | nil => cases hread
      | cons d ds =>
          rw [List.flatMap_cons, List.append_assoc, readChar?_quoteChar] at hread
          obtain ⟨rfl, hrest⟩ := Prod.mk.inj (Option.some.inj hread)
          obtain ⟨rfl, hxy⟩ := ih hrest
          exact ⟨rfl, hxy⟩

/-- A quoted text says which text it is and where it ends. -/
theorem quote_append_inj {s t : String} {x y : List Char}
    (h : (quote s).toList ++ x = (quote t).toList ++ y) : s = t ∧ x = y := by
  rw [quote_append, quote_append] at h
  obtain ⟨hst, hxy⟩ := quoted_append_inj (List.tail_eq_of_cons_eq h)
  exact ⟨String.toList_inj.mp hst, hxy⟩

-- ── Lists of texts ───────────────────────────────────────────────────────────────

/-- What is shown of a list after its first text. -/
def furtherItems : List String → List Char
  | [] => [']']
  | s :: rest => ',' :: ' ' :: ((quote s).toList ++ furtherItems rest)

theorem quoteList_nil_append (y : List Char) :
    (quoteList []).toList ++ y = '[' :: ']' :: y := by
  simp [quoteList]

/-- A list is shown from its first item on. -/
theorem quoteList_cons_append (s : String) (rest : List String) (y : List Char) :
    (quoteList (s :: rest)).toList ++ y
      = '[' :: ((quote s).toList ++ (furtherItems rest ++ y)) := by
  have hitems : ∀ s, (String.intercalate ", " ((s :: rest).map quote)).toList ++ [']']
      = (quote s).toList ++ furtherItems rest := by
    induction rest with
    | nil =>
        intro s
        rw [List.map_singleton, String.intercalate_singleton, furtherItems]
    | cons t rest ih =>
        intro s
        have hrest := ih t
        rw [List.map_cons] at hrest
        rw [List.map_cons, List.map_cons, String.intercalate_cons_cons, furtherItems, ← hrest]
        simp
  have hshown : (quoteList (s :: rest)).toList
      = '[' :: ((String.intercalate ", " ((s :: rest).map quote)).toList ++ [']']) := by
    simp [quoteList]
  rw [hshown, hitems, List.cons_append, List.append_assoc]

/-- The further items of a list are told by the text. -/
theorem furtherItems_append_inj {ss ts : List String} {x y : List Char}
    (h : furtherItems ss ++ x = furtherItems ts ++ y) : ss = ts ∧ x = y := by
  induction ss generalizing ts with
  | nil =>
      cases ts with
      | nil => exact ⟨rfl, List.tail_eq_of_cons_eq h⟩
      | cons t ts => exact absurd (List.head_eq_of_cons_eq h) (by decide)
  | cons s ss ih =>
      cases ts with
      | nil => exact absurd (List.head_eq_of_cons_eq h) (by decide)
      | cons t ts =>
          rw [furtherItems, furtherItems, List.cons_append, List.cons_append, List.cons_append,
            List.cons_append, List.append_assoc, List.append_assoc] at h
          obtain ⟨rfl, hrest⟩ :=
            quote_append_inj (List.tail_eq_of_cons_eq (List.tail_eq_of_cons_eq h))
          obtain ⟨rfl, hxy⟩ := ih hrest
          exact ⟨rfl, hxy⟩

/-- A list of quoted texts says which texts they are and where it ends. -/
theorem quoteList_append_inj {ss ts : List String} {x y : List Char}
    (h : (quoteList ss).toList ++ x = (quoteList ts).toList ++ y) : ss = ts ∧ x = y := by
  cases ss with
  | nil =>
      rw [quoteList_nil_append] at h
      cases ts with
      | nil =>
          rw [quoteList_nil_append] at h
          exact ⟨rfl, List.tail_eq_of_cons_eq (List.tail_eq_of_cons_eq h)⟩
      | cons t ts =>
          rw [quoteList_cons_append, quote_append] at h
          exact absurd (List.head_eq_of_cons_eq (List.tail_eq_of_cons_eq h)) (by decide)
  | cons s ss =>
      rw [quoteList_cons_append] at h
      cases ts with
      | nil =>
          rw [quoteList_nil_append, quote_append] at h
          exact absurd (List.head_eq_of_cons_eq (List.tail_eq_of_cons_eq h)) (by decide)
      | cons t ts =>
          rw [quoteList_cons_append] at h
          obtain ⟨rfl, hrest⟩ := quote_append_inj (List.tail_eq_of_cons_eq h)
          obtain ⟨rfl, hxy⟩ := furtherItems_append_inj hrest
          exact ⟨rfl, hxy⟩

-- ── Pairs of colons ──────────────────────────────────────────────────────────────

/-- True if two colons stand side by side. -/
def hasColonPair : List Char → Bool
  | ':' :: ':' :: _ => true
  | _ :: rest => hasColonPair rest
  | [] => false

/-- A character starts a pair of colons only if it is a colon and one follows. -/
theorem hasColonPair_cons {c : Char} {rest : List Char} (h : c ≠ ':' ∨ rest.head? ≠ some ':') :
    hasColonPair (c :: rest) = hasColonPair rest := by
  rw [hasColonPair]
  rintro more rfl rfl
  simp at h

/-- A front without colons has no part in a pair. -/
theorem hasColonPair_append {front : List Char} (h : ∀ c ∈ front, c ≠ ':') (y : List Char) :
    hasColonPair (front ++ y) = hasColonPair y := by
  induction front with
  | nil => rfl
  | cons c rest ih =>
      obtain ⟨hc, hrest⟩ := List.forall_mem_cons.mp h
      rw [List.cons_append, hasColonPair_cons (Or.inl hc), ih hrest]

/-- No colon is shown of a character that is not one. -/
theorem ne_colon_of_mem_quoteChar {c : Char} (hc : c ≠ ':') : ∀ d ∈ quoteChar c, d ≠ ':' := by
  intro d hd
  rcases quoteChar_cases c with ⟨e, he, hshown⟩ | ⟨-, hshown⟩ | ⟨-, -, hshown⟩
  · rw [hshown] at hd
    have hsecond : escapes.all (fun e => e.2 != ':') = true := by decide
    rcases List.mem_cons.mp hd with rfl | hd
    · decide
    · rw [List.mem_singleton.mp hd]
      exact bne_iff_ne.mp (List.all_eq_true.mp hsecond (c, e) he)
  · rw [hshown, escapeCodePoint] at hd
    rcases List.mem_append.mp hd with hd | hd
    · rcases List.mem_append.mp hd with hd | hd
      · simp only [List.mem_cons, List.not_mem_nil, or_false] at hd
        rcases hd with rfl | rfl | rfl <;> decide
      · exact hexDigits_all (· ≠ ':') (by decide) c.toNat d hd
    · rw [List.mem_singleton.mp hd]
      decide
  · rw [hshown] at hd
    rw [List.mem_singleton.mp hd]
    exact hc

theorem quoteChar_ne_nil (c : Char) : quoteChar c ≠ [] := by
  rcases quoteChar_cases c with ⟨d, -, hshown⟩ | ⟨-, hshown⟩ | ⟨-, -, hshown⟩ <;>
    · rw [hshown]
      exact List.cons_ne_nil _ _

/-- Between quotes a colon comes first only if one comes first in the text. -/
theorem head?_quoted_ne_colon {cs : List Char} (h : cs.head? ≠ some ':') (y : List Char) :
    (cs.flatMap quoteChar ++ '"' :: y).head? ≠ some ':' := by
  cases cs with
  | nil => exact fun hq => absurd (Option.some.inj hq) (by decide)
  | cons c cs =>
      have hc : c ≠ ':' := fun hc => h (congrArg some hc)
      obtain ⟨d, ds, hshown⟩ := List.exists_cons_of_ne_nil (quoteChar_ne_nil c)
      have hd : d ≠ ':' := by
        refine ne_colon_of_mem_quoteChar hc d ?_
        rw [hshown]
        exact List.mem_cons_self ..
      rw [List.flatMap_cons, hshown]
      exact fun hhead => hd (Option.some.inj hhead)

/-- A quoted text has its pairs of colons and makes none with what follows. -/
theorem hasColonPair_quoted (cs y : List Char) :
    hasColonPair (cs.flatMap quoteChar ++ '"' :: y) = (hasColonPair cs || hasColonPair y) := by
  induction cs with
  | nil => exact hasColonPair_cons (Or.inl (by decide))
  | cons c cs ih =>
      rw [List.flatMap_cons, List.append_assoc]
      by_cases hc : c = ':'
      · subst hc
        rw [quoteChar_colon, List.singleton_append]
        by_cases hnext : cs.head? = some ':'
        · obtain ⟨cs', rfl⟩ : ∃ cs', cs = ':' :: cs' := List.head?_eq_some_iff.mp hnext
          rw [List.flatMap_cons, quoteChar_colon]
          rfl
        · rw [hasColonPair_cons (Or.inr (head?_quoted_ne_colon hnext y)), ih,
            hasColonPair_cons (Or.inr hnext)]
      · rw [hasColonPair_append (ne_colon_of_mem_quoteChar hc), ih,
          hasColonPair_cons (Or.inl hc)]

/-- The pairs of colons of a quoted text are its own. -/
theorem hasColonPair_quote (s : String) (y : List Char) :
    hasColonPair ((quote s).toList ++ y) = (hasColonPair s.toList || hasColonPair y) := by
  rw [quote_append, hasColonPair_cons (Or.inl (by decide)), hasColonPair_quoted]

/-- The pairs of colons of the further items are those of the texts in them. -/
theorem hasColonPair_furtherItems (ss : List String) (y : List Char) :
    hasColonPair (furtherItems ss ++ y)
      = ((ss.any fun s => hasColonPair s.toList) || hasColonPair y) := by
  induction ss with
  | nil => exact hasColonPair_cons (Or.inl (by decide))
  | cons s rest ih =>
      rw [furtherItems, List.cons_append, List.cons_append, List.append_assoc,
        hasColonPair_cons (Or.inl (by decide)), hasColonPair_cons (Or.inl (by decide)),
        hasColonPair_quote, ih, List.any_cons, Bool.or_assoc]

/-- A list of quoted texts has the pairs of colons of its texts. -/
theorem hasColonPair_quoteList (ss : List String) (y : List Char) :
    hasColonPair ((quoteList ss).toList ++ y)
      = ((ss.any fun s => hasColonPair s.toList) || hasColonPair y) := by
  cases ss with
  | nil =>
      rw [quoteList_nil_append, hasColonPair_cons (Or.inl (by decide)),
        hasColonPair_cons (Or.inl (by decide))]
      rfl
  | cons s rest =>
      rw [quoteList_cons_append, hasColonPair_cons (Or.inl (by decide)), hasColonPair_quote,
        hasColonPair_furtherItems, List.any_cons, Bool.or_assoc]

-- ── Quotes without a backslash ───────────────────────────────────────────────────

/-- True if the number of quotes that no backslash escapes is odd. -/
def oddQuotes : List Char → Bool
  | '\\' :: _ :: rest => oddQuotes rest
  | '"' :: rest => !oddQuotes rest
  | _ :: rest => oddQuotes rest
  | [] => false

/-- What is neither a quote nor a backslash does not count. -/
theorem oddQuotes_cons {c : Char} (hquote : c ≠ '"') (hback : c ≠ '\\') (rest : List Char) :
    oddQuotes (c :: rest) = oddQuotes rest := by
  rw [oddQuotes]
  · rintro d more rfl
    exact absurd rfl hback
  · rintro rfl
    exact absurd rfl hquote

theorem oddQuotes_append {front : List Char} (h : ∀ c ∈ front, c ≠ '"' ∧ c ≠ '\\')
    (y : List Char) : oddQuotes (front ++ y) = oddQuotes y := by
  induction front with
  | nil => rfl
  | cons c rest ih =>
      obtain ⟨⟨hquote, hback⟩, hrest⟩ := List.forall_mem_cons.mp h
      rw [List.cons_append, oddQuotes_cons hquote hback, ih hrest]

/-- The form of a character has no quote that no backslash escapes. -/
theorem oddQuotes_quoteChar (c : Char) (y : List Char) :
    oddQuotes (quoteChar c ++ y) = oddQuotes y := by
  rcases quoteChar_cases c with ⟨d, -, hshown⟩ | ⟨-, hshown⟩ | ⟨hquote, hback, hshown⟩
  · rw [hshown]
    rfl
  · have hfront : ∀ d ∈ '{' :: hexDigits c.toNat ++ ['}'], d ≠ '"' ∧ d ≠ '\\' := by
      intro d hd
      rcases List.mem_append.mp hd with hd | hd
      · rcases List.mem_cons.mp hd with rfl | hd
        · decide
        · exact hexDigits_all (fun d => d ≠ '"' ∧ d ≠ '\\') (by decide) c.toNat d hd
      · rw [List.mem_singleton.mp hd]
        decide
    have htext : escapeCodePoint c ++ y
        = '\\' :: 'u' :: ('{' :: hexDigits c.toNat ++ ['}'] ++ y) := by
      simp [escapeCodePoint]
    rw [hshown, htext, oddQuotes, oddQuotes_append hfront]
  · rw [hshown]
    exact oddQuotes_cons hquote hback y

theorem oddQuotes_quoted (cs y : List Char) :
    oddQuotes (cs.flatMap quoteChar ++ '"' :: y) = !oddQuotes y := by
  induction cs with
  | nil => rfl
  | cons c cs ih => rw [List.flatMap_cons, List.append_assoc, oddQuotes_quoteChar, ih]

end DirectoryAccess.Text
