import DirectoryAccess.Grammar
import DirectoryAccess.Name.Rdn
import Mathlib.Computability.Language

/-! # Taking — which texts a rule reads, and as what

    A rule of a grammar is a function; what may be written is a LANGUAGE, a set of
    texts.  A rule TAKES a language as a value if it reads each text of the language
    to its end and makes that value of it, whatever stands behind, as long as no word
    goes on there.  Sequences of rules take products of languages, and an ordered
    choice takes what one alternative takes and all earlier ones refuse. -/

namespace DirectoryAccess

namespace Grammar

-- ── Languages ────────────────────────────────────────────────────────────────────

/-- Exactly the given text. -/
def word (cs : List Char) : Language Char := {cs}

/-- Any run of blanks, tabs and line ends, also an empty one. -/
def blanks : Language Char := {t | ∀ c ∈ t, isSpacing c = true}

/-- A comma with blanks around it. -/
def aComma : Language Char := blanks * word [','] * blanks

/-- One text of each language of a list, each behind a comma. -/
def afterCommas : List (Language Char) → Language Char
  | [] => 1
  | L :: Ls => aComma * L * afterCommas Ls

/-- One text of each language of a list, with commas between. -/
def separated : List (Language Char) → Language Char
  | [] => 1
  | L :: Ls => L * afterCommas Ls

/-- A text between braces, with blanks around it. -/
def inBraces (L : Language Char) : Language Char :=
  word ['{'] * blanks * L * blanks * word ['}']

-- ── How texts start ──────────────────────────────────────────────────────────────

/-- No run of a class of characters goes on in a text: the text is at its end, or its
    first character does not belong to the class. -/
def Stops (inClass : Char → Bool) (rest : List Char) : Prop :=
  ∀ c ∈ rest.head?, inClass c = false

/-- A run stops in front of a character that is not of its class. -/
theorem stops_cons {inClass : Char → Bool} {c : Char} (h : inClass c = false) (u : List Char) :
    Stops inClass (c :: u) := by
  intro d hd
  rw [← Option.some.inj hd]
  exact h

/-- Where a run of a class stops, one of a narrower class does. -/
theorem Stops.mono {p q : Char → Bool} {rest : List Char} (h : Stops q rest)
    (hpq : ∀ c, p c = true → q c = true) : Stops p rest := by
  intro c hc
  rw [← Bool.not_eq_true]
  intro hp
  exact Bool.false_ne_true ((h c hc).symm.trans (hpq c hp))

/-- Every text of a language starts with a character that is not of a class. -/
def StartsOff (inClass : Char → Bool) (L : Language Char) : Prop :=
  ∀ t ∈ L, ∃ c u, t = c :: u ∧ inClass c = false

namespace StartsOff

variable {inClass : Char → Bool} {L M : Language Char}

/-- In front of what starts off, a run stops. -/
theorem stops (h : StartsOff inClass L) {t : List Char} (ht : t ∈ L) (rest : List Char) :
    Stops inClass (t ++ rest) := by
  obtain ⟨c, u, rfl, hc⟩ := h t ht
  exact stops_cons hc _

theorem mul (h : StartsOff inClass L) : StartsOff inClass (L * M) := by
  rintro _ ⟨t, ht, u, -, rfl⟩
  obtain ⟨c, t', rfl, hc⟩ := h t ht
  exact ⟨c, t' ++ u, rfl, hc⟩

/-- A text starts with its first character. -/
theorem word {cs : List Char} (h : (cs.head?.any fun c => !inClass c) = true) :
    StartsOff inClass (word cs) := by
  rintro t rfl
  cases t with
  | nil => cases h
  | cons c u => exact ⟨c, u, rfl, Bool.not_eq_true' _ ▸ h⟩

/-- There may be no blanks in front of a text, and then the text itself starts. -/
theorem blanks_mul (hb : ∀ c, isSpacing c = true → inClass c = false)
    (h : StartsOff inClass M) : StartsOff inClass (blanks * M) := by
  rintro _ ⟨b, hblank, u, hu, rfl⟩
  cases b with
  | nil => exact h u hu
  | cons c b => exact ⟨c, b ++ u, rfl, hb c (hblank c (List.mem_cons_self ..))⟩

theorem inBraces (h : inClass '{' = false) (L : Language Char) :
    StartsOff inClass (inBraces L) := by
  simp only [Grammar.inBraces, mul_assoc]
  exact (StartsOff.word (by simp [h])).mul

end StartsOff

/-- Every text of a language starts with a character that is no blank. -/
abbrev Solid (L : Language Char) : Prop := StartsOff isSpacing L

/-- A character that words are made of. -/
def isWordChar (c : Char) : Bool :=
  isLetter c || isDigit c || c == '-' || c == ';' || c == '.'

/-- A text in which no word goes on. -/
abbrev Parted (rest : List Char) : Prop := Stops isWordChar rest

/-- Every text of a language starts with a character that parts words. -/
abbrev Parting (L : Language Char) : Prop := StartsOff isWordChar L

theorem isWordChar_of_isSpacing {c : Char} (h : isSpacing c = true) : isWordChar c = false := by
  simp only [isSpacing, Bool.or_eq_true, beq_iff_eq] at h
  rcases h with ((rfl | rfl) | rfl) | rfl <;> rfl

theorem parting_blanks_mul {M : Language Char} (h : Parting M) : Parting (blanks * M) :=
  .blanks_mul (fun _ => isWordChar_of_isSpacing) h

theorem parting_aComma : Parting aComma :=
  (parting_blanks_mul (.word rfl)).mul

-- ── Reading one text ─────────────────────────────────────────────────────────────

namespace Rule

/-- The rule reads `t` to its end as `a` where `rest` stands behind. -/
def Reads {α : Type} (r : Rule α) (t rest : List Char) (a : α) : Prop :=
  ∀ before, ∃ far, r ⟨before, t ++ rest⟩ = .taken a ⟨before + t.length, rest⟩ far

/-- The rule is refused in front of a text. -/
def Refuses {α : Type} (r : Rule α) (text : List Char) : Prop :=
  ∀ before, ∃ far, r ⟨before, text⟩ = .refused far

variable {α β γ : Type}

/-- It does not matter how a sequence of rules is grouped. -/
theorem bind_assoc (r : Rule α) (f : α → Rule β) (g : β → Rule γ) :
    r >>= f >>= g = r >>= fun a => f a >>= g := by
  funext place
  show Rule.bind (Rule.bind r f) g place = Rule.bind r (fun a => Rule.bind (f a) g) place
  simp only [Rule.bind]
  cases r place with
  | refused far => rfl
  | taken a next far =>
      dsimp only
      cases f a next with
      | refused far' => rfl
      | taken b last far' =>
          simp only [Outcome.since]
          cases g b last with
          | taken c end' far'' => simp only [Nat.max_assoc]
          | refused far'' => simp only [Nat.max_assoc]

/-- A rule that takes nothing changes nothing. -/
theorem pure_bind (a : α) (f : α → Rule β) : Pure.pure a >>= f = f a := by
  funext place
  show (f a place).since 0 = f a place
  cases f a place with
  | taken b next far => rw [Outcome.since, Nat.zero_max]
  | refused far => rw [Outcome.since, Nat.zero_max]

theorem reads_pure (a : α) (rest : List Char) : (Pure.pure a : Rule α).Reads [] rest a :=
  fun _ => ⟨0, rfl⟩

/-- A sequence reads one text behind the other. -/
theorem Reads.bind {r : Rule α} {f : α → Rule β} {t u rest : List Char} {a : α} {b : β}
    (hr : r.Reads t (u ++ rest) a) (hf : (f a).Reads u rest b) :
    (r >>= f).Reads (t ++ u) rest b := by
  intro before
  obtain ⟨far, hr⟩ := hr before
  obtain ⟨far', hf⟩ := hf (before + t.length)
  refine ⟨max far far', ?_⟩
  show Rule.bind r f _ = _
  rw [Rule.bind, List.append_assoc, hr]
  dsimp only
  rw [hf, Outcome.since, List.length_append, Nat.add_assoc]

/-- A rule reads what it read if only its value is changed at the end. -/
theorem Reads.map {r : Rule α} (f : α → β) {t rest : List Char} {a : α} (hr : r.Reads t rest a) :
    (r >>= fun x => Pure.pure (f x)).Reads t rest (f a) := by
  have h := Reads.bind (f := fun x => Pure.pure (f x)) (u := []) hr (reads_pure (f a) rest)
  rwa [List.append_nil] at h

/-- What the first of two rules reads is read. -/
theorem Reads.orElse_left {r s : Rule α} {t rest : List Char} {a : α} (h : r.Reads t rest a) :
    (r <|> s).Reads t rest a := by
  intro before
  obtain ⟨far, h⟩ := h before
  refine ⟨far, ?_⟩
  show Rule.orElse r (fun _ => s) _ = _
  rw [Rule.orElse, h]

/-- What the second of two rules reads is read where the first refuses. -/
theorem Reads.orElse_right {r s : Rule α} {t rest : List Char} {a : α}
    (hr : r.Refuses (t ++ rest)) (h : s.Reads t rest a) : (r <|> s).Reads t rest a := by
  intro before
  obtain ⟨far, hr⟩ := hr before
  obtain ⟨far', h⟩ := h before
  refine ⟨max far far', ?_⟩
  show Rule.orElse r (fun _ => s) _ = _
  rw [Rule.orElse, hr]
  dsimp only
  rw [h, Outcome.since]

/-- What passes a check is read as what it was checked to be. -/
theorem Reads.checked {r : Rule α} {check : α → Option β} {t rest : List Char} {a : α} {b : β}
    (h : r.Reads t rest a) (hb : check a = some b) :
    (Grammar.checked r check).Reads t rest b := by
  intro before
  obtain ⟨far, h⟩ := h before
  refine ⟨far, ?_⟩
  rw [Grammar.checked, h]
  dsimp only
  rw [hb]

/-- A sequence is refused where its first rule is. -/
theorem Refuses.bind {r : Rule α} {f : α → Rule β} {text : List Char} (h : r.Refuses text) :
    (r >>= f).Refuses text := by
  intro before
  obtain ⟨far, h⟩ := h before
  refine ⟨far, ?_⟩
  show Rule.bind r f _ = _
  rw [Rule.bind, h]

/-- A sequence is refused where its second rule is, behind what the first reads. -/
theorem Refuses.bind_right {r : Rule α} {f : α → Rule β} {t rest : List Char} {a : α}
    (hr : r.Reads t rest a) (hf : (f a).Refuses rest) : (r >>= f).Refuses (t ++ rest) := by
  intro before
  obtain ⟨far, hr⟩ := hr before
  obtain ⟨far', hf⟩ := hf (before + t.length)
  refine ⟨max far far', ?_⟩
  show Rule.bind r f _ = _
  rw [Rule.bind, hr]
  dsimp only
  rw [hf, Outcome.since]

-- ── Literals and runs ────────────────────────────────────────────────────────────

theorem behind_append (w rest : List Char) : behind? w (w ++ rest) = some rest := by
  induction w with
  | nil => rfl
  | cons c cs ih => rw [List.cons_append, behind?, beq_self_eq_true, if_pos rfl, ih]

theorem reads_literal (w rest : List Char) : (literal w).Reads w rest () := by
  intro before
  refine ⟨0, ?_⟩
  rw [literal, behind_append]

/-- True if a word cannot be found where another stands: at some place they differ, or
    the first goes on where the second `ends`, no word going on behind it. -/
def misses (ends : Bool) : List Char → List Char → Bool
  | [], _ => false
  | c :: _, [] => ends && isWordChar c
  | c :: cs, d :: ds => c != d || misses ends cs ds

/-- A literal is refused where another text stands that it misses. -/
theorem refuses_of_misses {ends : Bool} {w v rest : List Char} (h : misses ends w v = true)
    (hrest : ends = true → Parted rest) : (literal w).Refuses (v ++ rest) := by
  have hnone : behind? w (v ++ rest) = none := by
    induction w generalizing v with
    | nil => cases h
    | cons c cs ih =>
        cases v with
        | nil =>
            rw [misses, Bool.and_eq_true] at h
            cases rest with
            | nil => rfl
            | cons d ds =>
                have hne : c ≠ d := by
                  rintro rfl
                  rw [hrest h.1 c rfl] at h
                  cases h.2
                rw [List.nil_append, behind?, beq_eq_false_iff_ne.mpr hne]
                rfl
        | cons d ds =>
            rw [List.cons_append, behind?]
            by_cases he : c = d
            · rw [misses, he, bne_self_eq_false, Bool.false_or] at h
              rw [he, beq_self_eq_true, if_pos rfl, ih h]
            · rw [beq_eq_false_iff_ne.mpr he]
              rfl
  intro before
  refine ⟨before, ?_⟩
  rw [literal, hnone]

/-- A run ends where its class does. -/
theorem takeWhile_front {p : Char → Bool} {t rest : List Char} (ht : ∀ c ∈ t, p c = true)
    (hrest : Stops p rest) :
    (t ++ rest).takeWhile p = t ∧ (t ++ rest).dropWhile p = rest := by
  have hend : rest.takeWhile p = [] ∧ rest.dropWhile p = rest := by
    cases rest with
    | nil => exact ⟨rfl, rfl⟩
    | cons c cs =>
        have hc : p c = false := hrest c rfl
        rw [List.takeWhile_cons, List.dropWhile_cons, hc]
        exact ⟨rfl, rfl⟩
  rw [List.takeWhile_append_of_pos ht, List.dropWhile_append_of_pos ht, hend.1, hend.2,
    List.append_nil]
  exact ⟨rfl, rfl⟩

/-- A run is read up to where it stops, also an empty one. -/
theorem reads_run {p : Char → Bool} {t rest : List Char} (ht : ∀ c ∈ t, p c = true)
    (hrest : Stops p rest) : (run p).Reads t rest t := by
  intro before
  refine ⟨before + t.length, ?_⟩
  obtain ⟨htake, hdrop⟩ := takeWhile_front ht hrest
  simp only [run, htake, hdrop]

/-- A run that must not be empty is read if it is not. -/
theorem reads_run1 {p : Char → Bool} {t rest : List Char} (hne : t ≠ [])
    (ht : ∀ c ∈ t, p c = true) (hrest : Stops p rest) : (run1 p).Reads t rest t := by
  intro before
  obtain ⟨far, hrun⟩ := reads_run ht hrest before
  refine ⟨far, ?_⟩
  rw [run1, hrun]
  cases t with
  | nil => exact absurd rfl hne
  | cons c cs => rfl

/-- A single character of a class is read. -/
theorem reads_oneOf {p : Char → Bool} {c : Char} (h : p c = true) (rest : List Char) :
    (oneOf p).Reads [c] rest c := by
  intro before
  refine ⟨0, ?_⟩
  show (if p c = true then _ else _) = _
  rw [if_pos h]
  rfl

/-- What is read up to a class has nothing of it. -/
theorem reads_upTo {p : Char → Bool} {t rest : List Char} (ht : ∀ c ∈ t, p c = false)
    (hrest : Stops (fun c => !p c) rest) : (upTo p).Reads t rest t := by
  intro before
  obtain ⟨htake, hdrop⟩ :=
    takeWhile_front (p := fun c => !p c) (fun c hc => by rw [ht c hc]; rfl) hrest
  refine ⟨if rest.isEmpty then before + t.length else 0, ?_⟩
  simp only [upTo, htake, hdrop]

/-- All blanks are read, and no more. -/
theorem reads_spacing {t rest : List Char} (ht : t ∈ blanks) (hrest : Stops isSpacing rest) :
    spacing.Reads t rest () := by
  intro before
  obtain ⟨htake, hdrop⟩ := takeWhile_front ht hrest
  exact ⟨0, by simp only [spacing, htake, hdrop]⟩

-- ── Taking a language ────────────────────────────────────────────────────────────

variable {L M : Language Char} {a : α} {b : β} {r s : Rule α}

/-- The rule reads every text of a language as `a` where no word goes on behind it. -/
def Takes (r : Rule α) (L : Language Char) (a : α) : Prop :=
  ∀ t ∈ L, ∀ rest, Parted rest → r.Reads t rest a

/-- A sequence takes a product of languages, if the second parts words. -/
theorem Takes.bind {f : α → Rule β} (hr : r.Takes L a) (hM : Parting M)
    (hf : (f a).Takes M b) : (r >>= f).Takes (L * M) b := by
  rintro _ ⟨t, ht, u, hu, rfl⟩ rest hrest
  exact .bind (hr t ht _ (hM.stops hu rest)) (hf u hu rest hrest)

theorem Takes.map (f : α → β) (hr : r.Takes L a) :
    (r >>= fun x => Pure.pure (f x)).Takes L (f a) :=
  fun t ht rest hrest => (hr t ht rest hrest).map f

/-- A literal needs nothing of what stands behind it. -/
theorem Takes.literal {w : List Char} {f : Unit → Rule β} (hf : (f ()).Takes M b) :
    (literal w >>= f).Takes (word w * M) b := by
  rintro _ ⟨_, rfl, u, hu, rfl⟩ rest hrest
  exact .bind (reads_literal _ _) (hf u hu rest hrest)

/-- Blanks are read to their end, as what stands behind them starts with none. -/
theorem Takes.spacing {f : Unit → Rule β} (hM : Solid M) (hf : (f ()).Takes M b) :
    (spacing >>= f).Takes (blanks * M) b := by
  rintro _ ⟨t, ht, u, hu, rfl⟩ rest hrest
  exact .bind (reads_spacing ht (hM.stops hu rest)) (hf u hu rest hrest)

/-- A comma is taken with the blanks around it, in front of something solid. -/
theorem Takes.comma {f : Unit → Rule β} (hM : Solid M) (hf : (f ()).Takes M b) :
    (comma >>= f).Takes (aComma * M) b := by
  rw [Grammar.comma, bind_assoc, aComma, mul_assoc, mul_assoc]
  refine .spacing (StartsOff.word rfl).mul ?_
  rw [bind_assoc]
  exact .literal (.spacing hM hf)

/-- What passes a check is taken as what it was checked to be. -/
theorem Takes.checked {check : α → Option β} (hr : r.Takes L a) (hb : check a = some b) :
    (checked r check).Takes L b :=
  fun t ht rest hrest => (hr t ht rest hrest).checked hb

/-- An optional part that is there. -/
theorem Takes.optional_some {f : Option α → Rule β} (h : (r >>= fun a => f (some a)).Takes L b) :
    (optional r >>= f).Takes L b := by
  intro t ht rest hrest before
  obtain ⟨far, h⟩ := h t ht rest hrest before
  refine ⟨far, ?_⟩
  change Rule.bind r _ _ = _ at h
  change Rule.bind (optional r) f _ = _
  rw [← h, Rule.bind, Rule.bind, optional]
  cases hr : r ⟨before, t ++ rest⟩ with
  | taken a next far' => rfl
  | refused far' =>
      rw [Rule.bind, hr] at h
      cases h

/-- An optional part that starts with a word is not there where another word stands. -/
theorem Takes.optional_none {w v : List Char} {g : Unit → Rule α} {f : Option α → Rule β}
    (hw : misses false w v = true) (h : (f none).Takes (word v * M) b) :
    (optional (Grammar.literal w >>= g) >>= f).Takes (word v * M) b := by
  intro t ht rest hrest
  have hrefused : (Grammar.literal w >>= g).Refuses (t ++ rest) := by
    obtain ⟨_, rfl, u, -, rfl⟩ := ht
    rw [List.append_assoc]
    exact .bind (refuses_of_misses hw nofun)
  have hnone : (optional (Grammar.literal w >>= g)).Reads [] (t ++ rest) none := by
    intro before
    obtain ⟨far, hfar⟩ := hrefused before
    refine ⟨far, ?_⟩
    rw [List.nil_append, optional, hfar]
    rfl
  exact .bind hnone (h t ht rest hrest)

/-- An alternative that is tried first. -/
theorem Takes.first (h : r.Takes L a) : (r <|> s).Takes L a :=
  fun t ht rest hrest => (h t ht rest hrest).orElse_left

/-- An alternative that starts with a word is passed over where another stands. -/
theorem Takes.skip {w v : List Char} {f : Unit → Rule α} (hw : misses false w v = true)
    (hs : s.Takes (word v * M) a) : ((Grammar.literal w >>= f) <|> s).Takes (word v * M) a := by
  intro t ht rest hrest
  refine .orElse_right (Refuses.bind ?_) (hs t ht rest hrest)
  obtain ⟨_, rfl, u, -, rfl⟩ := ht
  rw [List.append_assoc]
  exact refuses_of_misses hw nofun

/-- An alternative that starts with a word is passed over where another stands alone, be
    this the front part of the word. -/
theorem Takes.skip_word {w v : List Char} {f : Unit → Rule α} (hw : misses true w v = true)
    (hs : s.Takes (word v) a) : ((Grammar.literal w >>= f) <|> s).Takes (word v) a := by
  intro t ht rest hrest
  refine .orElse_right (Refuses.bind ?_) (hs t ht rest hrest)
  obtain rfl := ht
  exact refuses_of_misses hw fun _ => hrest

-- ── Braces and lists ─────────────────────────────────────────────────────────────

/-- Behind the opening brace, what stands between braces is read to the closing one. -/
theorem reads_behind_brace {t b c rest : List Char}
    (hr : r.Reads t (c ++ '}' :: rest) a) (ht : Stops isSpacing (t ++ c ++ '}' :: rest))
    (hb : b ∈ blanks) (hc : c ∈ blanks) :
    (spacing >>= fun _ => r >>= fun a => spacing >>= fun _ => literal ['}'] >>= fun _ =>
      Pure.pure a).Reads (b ++ (t ++ (c ++ ['}']))) rest a := by
  have hend : (literal ['}'] >>= fun _ => Pure.pure a).Reads ['}'] rest a :=
    (reads_literal _ _).map fun _ => a
  refine .bind (reads_spacing hb ?_) (.bind (a := a) ?_ (.bind (a := ()) ?_ hend))
  · simpa using ht
  · simpa using hr
  · exact reads_spacing hc (stops_cons rfl rest)

/-- Braces take what stands between them. -/
theorem Takes.braced (hL : Solid L) (hr : r.Takes L a) : (braced r).Takes (inBraces L) a := by
  intro t ht rest _
  simp only [inBraces, mul_assoc] at ht
  obtain ⟨_, rfl, _, ⟨b, hb, _, ⟨x, hx, _, ⟨b', hb', _, rfl, rfl⟩, rfl⟩, rfl⟩, rfl⟩ := ht
  refine .bind (reads_literal _ _) (reads_behind_brace ?_ ?_ hb hb')
  · have hbrace : Parting (blanks * word ['}']) := parting_blanks_mul (.word rfl)
    have := hr x hx _ (hbrace.stops ⟨b', hb', _, rfl, rfl⟩ rest)
    simpa using this
  · rw [List.append_assoc]
    exact hL.stops hx _

/-- A text whose next character but for blanks is a closing brace. -/
def Closed (rest : List Char) : Prop := ∃ t ∈ blanks, ∃ u, rest = t ++ '}' :: u

theorem Closed.parted {rest : List Char} (h : Closed rest) : Parted rest := by
  obtain ⟨t, ht, u, rfl⟩ := h
  have hbrace : Parting (blanks * word ['}']) := parting_blanks_mul (.word rfl)
  rw [← List.singleton_append, ← List.append_assoc]
  exact hbrace.stops ⟨t, ht, ['}'], rfl, rfl⟩ u

/-- There is no comma in front of a closing brace. -/
theorem Closed.refuses_comma {rest : List Char} (h : Closed rest) (f : Unit → Rule α) :
    (comma >>= f).Refuses rest := by
  obtain ⟨t, ht, u, rfl⟩ := h
  rw [comma, bind_assoc]
  refine .bind_right (reads_spacing ht (stops_cons rfl u)) ?_
  rw [bind_assoc]
  have hmisses : misses false [','] ['}'] = true := rfl
  exact .bind (refuses_of_misses hmisses nofun)

/-- A comma parts words, and so does whatever follows where there is none. -/
theorem parted_afterCommas {Ls : List (Language Char)} {t rest : List Char}
    (ht : t ∈ afterCommas Ls) (hrest : Parted rest) : Parted (t ++ rest) := by
  cases Ls with
  | nil =>
      obtain rfl := ht
      exact hrest
  | cons L Ls =>
      have hcomma : Parting (aComma * L * afterCommas Ls) := parting_aComma.mul.mul
      exact hcomma.stops ht rest

/-- There are at least as many characters as commas. -/
theorem length_le_of_afterCommas {Ls : List (Language Char)} {t : List Char}
    (ht : t ∈ afterCommas Ls) : Ls.length ≤ t.length := by
  induction Ls generalizing t with
  | nil => exact Nat.zero_le _
  | cons L Ls ih =>
      obtain ⟨_, ⟨c, hc, x, -, rfl⟩, u, hu, rfl⟩ := ht
      obtain ⟨d, c', rfl, -⟩ := parting_aComma c hc
      have := ih hu
      simp only [List.length_append, List.length_cons]
      omega

variable {spell : α → Language Char} {as : List α}

/-- Behind the first element of a list, the others are read up to the closing brace. -/
theorem reads_commaBefore (hsolid : ∀ a ∈ as, Solid (spell a))
    (htakes : ∀ a ∈ as, r.Takes (spell a) a) {bound : Nat} (hbound : as.length < bound)
    {t rest : List Char} (ht : t ∈ afterCommas (as.map spell)) (hrest : Closed rest) :
    (commaBefore r bound).Reads t rest as := by
  induction as generalizing bound t with
  | nil =>
      obtain rfl := ht
      obtain ⟨bound, rfl⟩ := Nat.exists_eq_add_one_of_ne_zero (Nat.ne_zero_of_lt hbound)
      intro before
      obtain ⟨far, hcomma⟩ := hrest.refuses_comma (fun _ => r) before
      change Rule.bind comma (fun _ => r) _ = _ at hcomma
      refine ⟨far, ?_⟩
      simp only [commaBefore, List.nil_append, hcomma]
      rfl
  | cons a as ih =>
      obtain ⟨x, hx, u, hu, rfl⟩ := ht
      obtain ⟨bound, rfl⟩ := Nat.exists_eq_add_one_of_ne_zero (Nat.ne_zero_of_lt hbound)
      rw [List.forall_mem_cons] at hsolid htakes
      have hfirst : (comma >>= fun _ => r).Takes (aComma * spell a) a :=
        .comma hsolid.1 htakes.1
      have hothers : (commaBefore r bound).Reads u rest as :=
        ih hsolid.2 htakes.2 (Nat.lt_of_succ_lt_succ hbound) hu
      intro before
      obtain ⟨far, hfirst⟩ := hfirst x hx (u ++ rest) (parted_afterCommas hu hrest.parted) before
      obtain ⟨far', hothers⟩ := hothers (before + x.length)
      change Rule.bind comma (fun _ => r) _ = _ at hfirst
      refine ⟨max far far', ?_⟩
      simp only [commaBefore, List.append_assoc, hfirst, hothers, List.length_append,
        Nat.add_assoc]

/-- The elements of a list are read up to the closing brace. -/
theorem reads_commaSeparated {a : α} (hsolid : ∀ b ∈ a :: as, Solid (spell b))
    (htakes : ∀ b ∈ a :: as, r.Takes (spell b) b) {t rest : List Char}
    (ht : t ∈ separated ((a :: as).map spell)) (hrest : Closed rest) :
    (commaSeparated r).Reads t rest (a :: as) := by
  obtain ⟨x, hx, u, hu, rfl⟩ := ht
  rw [List.forall_mem_cons] at hsolid htakes
  have hbound : as.length < (u ++ rest).length + 1 := by
    have := length_le_of_afterCommas hu
    rw [List.length_map] at this
    rw [List.length_append]
    omega
  have hothers := reads_commaBefore hsolid.2 htakes.2 hbound hu hrest
  intro before
  obtain ⟨far, hfirst⟩ := htakes.1 x hx (u ++ rest) (parted_afterCommas hu hrest.parted) before
  obtain ⟨far', hothers⟩ := hothers (before + x.length)
  refine ⟨max far far', ?_⟩
  rw [commaSeparated, List.append_assoc, hfirst]
  dsimp only
  rw [hothers, List.length_append, Nat.add_assoc]

/-- A rule that is refused in front of a closing brace. -/
def StopsAtBrace (r : Rule α) : Prop := ∀ u, r.Refuses ('}' :: u)

/-- In front of a closing brace an empty list is read. -/
theorem reads_commaSeparated_nil (hstop : r.StopsAtBrace) (u : List Char) :
    (commaSeparated r).Reads [] ('}' :: u) [] := by
  intro before
  obtain ⟨far, hr⟩ := hstop u before
  refine ⟨far, ?_⟩
  rw [commaSeparated, List.nil_append, hr]
  rfl

/-- A braced list takes one text for each element, with commas between. -/
theorem Takes.list (hstop : r.StopsAtBrace) (hsolid : ∀ a ∈ as, Solid (spell a))
    (htakes : ∀ a ∈ as, r.Takes (spell a) a) :
    (Grammar.braced (commaSeparated r)).Takes (inBraces (separated (as.map spell))) as := by
  intro t ht rest _
  simp only [inBraces, mul_assoc] at ht
  obtain ⟨_, rfl, _, ⟨b, hb, _, ⟨x, hx, _, ⟨b', hb', _, rfl, rfl⟩, rfl⟩, rfl⟩, rfl⟩ := ht
  refine .bind (reads_literal _ _) ?_
  cases as with
  | nil =>
      obtain rfl := hx
      -- without elements the first run of blanks takes the second one as well
      have hblanks : b ++ b' ∈ blanks := List.forall_mem_append.mpr ⟨hb, hb'⟩
      have := reads_behind_brace (t := []) (c := []) (reads_commaSeparated_nil hstop rest)
        (stops_cons rfl rest) hblanks nofun
      simpa using this
  | cons a as =>
      have hx' : x ∈ spell a * afterCommas (as.map spell) := hx
      refine reads_behind_brace ?_ ?_ hb hb'
      · exact reads_commaSeparated hsolid htakes hx ⟨b', hb', rest, rfl⟩
      · rw [List.append_assoc]
        exact (hsolid a (List.mem_cons_self ..)).mul.stops hx' _

end Rule

end Grammar

end DirectoryAccess
