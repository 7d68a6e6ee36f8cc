import DirectoryAccess.Error.Basic
import DirectoryAccess.Proofs.Text.Quoted

/-! # The text of an error — what is shown of it and what is lost

    The description of an error says which error it is.  Of the description only what
    follows the last pair of colons is shown, and the only colons in it are those of the
    texts the error is about.  An error is therefore shown whole exactly if none of its texts
    has such a pair.  What is left of another one starts inside of a quoted text, so it is
    never the description of an error, but it is what is left of other errors too. -/

namespace DirectoryAccess

namespace OperationError

open Text (hasColonPair oddQuotes quoteChar quote quoteList furtherItems)

-- ── What follows the last pair of colons ─────────────────────────────────────────

/-- Without a pair of colons everything is kept. -/
theorem afterLastPair_whole {l : List Char} (h : hasColonPair l = false) (piece : List Char) :
    afterLastPair piece l = piece.reverse ++ l := by
  fun_induction afterLastPair piece l with
  | case1 piece rest ih => cases h
  | case2 piece c rest hno ih =>
      rw [hasColonPair] at h
      · rw [ih h, List.reverse_cons, List.append_assoc, List.singleton_append]
      · exact hno
  | case3 piece => exact (List.append_nil _).symm

/-- With a pair of colons it does not matter what was read before. -/
theorem afterLastPair_congr {l : List Char} (h : hasColonPair l = true)
    (piece piece' : List Char) : afterLastPair piece l = afterLastPair piece' l := by
  fun_induction hasColonPair l generalizing piece piece' with
  | case1 rest => rfl
  | case2 c rest hno ih =>
      rw [afterLastPair, afterLastPair]
      · exact ih h _ _
      · exact hno
      · exact hno
  | case3 => cases h

/-- A character that starts no pair of colons is cut off with the pair behind it. -/
theorem afterLastPair_cons {c : Char} {rest : List Char} (h : hasColonPair rest = true)
    (hc : c ≠ ':' ∨ rest.head? ≠ some ':') :
    afterLastPair [] (c :: rest) = afterLastPair [] rest := by
  rw [afterLastPair]
  · exact afterLastPair_congr h [c] []
  · rintro more rfl rfl
    simp at hc

/-- A text without colons is cut off with the pair behind it. -/
theorem afterLastPair_append {front y : List Char} (hfront : ∀ c ∈ front, c ≠ ':')
    (h : hasColonPair y = true) : afterLastPair [] (front ++ y) = afterLastPair [] y := by
  induction front with
  | nil => rfl
  | cons c rest ih =>
      obtain ⟨hc, hrest⟩ := List.forall_mem_cons.mp hfront
      have hpair : hasColonPair (rest ++ y) = true := by
        rw [Text.hasColonPair_append hrest, h]
      rw [List.cons_append, afterLastPair_cons hpair (Or.inl hc), ih hrest]

/-- What is kept is no longer than what was there. -/
theorem length_afterLastPair_le (piece l : List Char) :
    (afterLastPair piece l).length ≤ piece.length + l.length := by
  fun_induction afterLastPair piece l with
  | case1 piece rest ih => exact Nat.le_trans ih (by simp; omega)
  | case2 piece c rest hno ih => exact Nat.le_trans ih (by simp; omega)
  | case3 piece => simp

/-- With a pair of colons something is lost. -/
theorem length_afterLastPair_lt {l : List Char} (h : hasColonPair l = true) :
    (afterLastPair [] l).length < l.length := by
  fun_induction hasColonPair l with
  | case1 rest =>
      have hle := length_afterLastPair_le [] rest
      rw [afterLastPair]
      simp only [List.length_nil, List.length_cons] at hle ⊢
      omega
  | case2 c rest hno ih =>
      rw [afterLastPair, afterLastPair_congr h [c] []]
      · exact Nat.lt_succ_of_lt (ih h)
      · exact hno
  | case3 => cases h

-- ── Texts of which no part is a whole one ────────────────────────────────────────

/-- A text whose quotes pair up, but not in what is left of it when it is cut after a pair
    of colons. -/
structure CutInside (l : List Char) : Prop where
  even : oddQuotes l = false
  cut : hasColonPair l = true → oddQuotes (afterLastPair [] l) = true

/-- A character that stands around the quoted texts. -/
def isFraming (c : Char) : Bool := c != ':' && c != '"' && c != '\\'

theorem isFraming_iff (c : Char) : isFraming c = true ↔ c ≠ ':' ∧ c ≠ '"' ∧ c ≠ '\\' := by
  simp [isFraming, and_assoc]

theorem ne_colon_of_all {l : List Char} (h : l.all (· != ':') = true) : ∀ c ∈ l, c ≠ ':' :=
  fun c hc => bne_iff_ne.mp (List.all_eq_true.mp h c hc)

theorem cutInside_nil : CutInside [] := ⟨rfl, fun h => by cases h⟩

/-- Framing characters in front change nothing about how the quotes pair up. -/
theorem CutInside.frame {y : List Char} (h : CutInside y) {front : List Char}
    (hfront : front.all isFraming = true) : CutInside (front ++ y) := by
  have hframe : ∀ c ∈ front, c ≠ ':' ∧ c ≠ '"' ∧ c ≠ '\\' := fun c hc =>
    (isFraming_iff c).mp (List.all_eq_true.mp hfront c hc)
  have hcolon : ∀ c ∈ front, c ≠ ':' := fun c hc => (hframe c hc).1
  constructor
  · rw [Text.oddQuotes_append (fun c hc => (hframe c hc).2), h.even]
  · intro hpair
    rw [Text.hasColonPair_append hcolon] at hpair
    rw [afterLastPair_append hcolon hpair, h.cut hpair]

theorem CutInside.cons {y : List Char} (h : CutInside y) {c : Char} (hc : isFraming c = true) :
    CutInside (c :: y) :=
  h.frame (List.all_eq_true.mpr fun _ hd => List.mem_singleton.mp hd ▸ hc)

/-- The form of a character is read over where no pair of colons starts with it. -/
theorem afterLastPair_quoteChar {c : Char} {cs y : List Char}
    (hc : c ≠ ':' ∨ cs.head? ≠ some ':')
    (hpair : hasColonPair (cs.flatMap quoteChar ++ '"' :: y) = true) :
    afterLastPair [] (quoteChar c ++ (cs.flatMap quoteChar ++ '"' :: y))
      = afterLastPair [] (cs.flatMap quoteChar ++ '"' :: y) := by
  by_cases hcolon : c = ':'
  · subst hcolon
    have hnext := Text.head?_quoted_ne_colon (hc.resolve_left (not_not_intro rfl)) y
    rw [Text.quoteChar_colon, List.singleton_append, afterLastPair_cons hpair (Or.inr hnext)]
  · exact afterLastPair_append (Text.ne_colon_of_mem_quoteChar hcolon) hpair

/-- What is left of a quoted text and what follows it, from inside of it, has a quote too
    many.  The induction is on the number of characters, since a pair takes two of them. -/
theorem CutInside.quoted {y : List Char} (h : CutInside y) {cs : List Char}
    (hpair : hasColonPair (cs.flatMap quoteChar ++ '"' :: y) = true) :
    oddQuotes (afterLastPair [] (cs.flatMap quoteChar ++ '"' :: y)) = true := by
  induction hn : cs.length using Nat.strongRecOn generalizing cs with
  | _ n ih =>
      subst hn
      cases cs with
      | nil =>
          have hy : hasColonPair y = true := by
            rwa [Text.hasColonPair_quoted] at hpair
          have hquote : afterLastPair [] ('"' :: y) = afterLastPair [] y :=
            afterLastPair_cons hy (Or.inl (by decide))
          rw [List.flatMap_nil, List.nil_append, hquote, h.cut hy]
      | cons c cs =>
          by_cases hstart : c = ':' ∧ cs.head? = some ':'
          · obtain ⟨rfl, hnext⟩ := hstart
            obtain ⟨more, rfl⟩ : ∃ more, cs = ':' :: more := List.head?_eq_some_iff.mp hnext
            have hcut : afterLastPair []
                  ((':' :: ':' :: more).flatMap quoteChar ++ '"' :: y)
                = afterLastPair [] (more.flatMap quoteChar ++ '"' :: y) := by
              rw [List.flatMap_cons, List.flatMap_cons, Text.quoteChar_colon]
              rfl
            rw [hcut]
            cases hmore : hasColonPair (more.flatMap quoteChar ++ '"' :: y) with
            | true => exact ih more.length (by simp only [List.length_cons]; omega) hmore rfl
            | false =>
                rw [afterLastPair_whole hmore, List.reverse_nil, List.nil_append,
                  Text.oddQuotes_quoted, h.even]
                rfl
          · have hc : c ≠ ':' ∨ cs.head? ≠ some ':' := not_and_or.mp hstart
            rw [Text.hasColonPair_quoted, Text.hasColonPair_cons hc,
              ← Text.hasColonPair_quoted] at hpair
            rw [List.flatMap_cons, List.append_assoc, afterLastPair_quoteChar hc hpair]
            exact ih cs.length (Nat.lt_succ_self _) hpair rfl

/-- A quoted text in front brings its own pair of quotes, and a cut inside of it leaves one.
    -/
theorem CutInside.quote {y : List Char} (h : CutInside y) (s : String) :
    CutInside ((quote s).toList ++ y) := by
  rw [Text.quote_append]
  constructor
  · rw [oddQuotes, Text.oddQuotes_quoted, h.even]
    rfl
  · intro hpair
    rw [Text.hasColonPair_cons (Or.inl (by decide))] at hpair
    rw [afterLastPair_cons hpair (Or.inl (by decide)), h.quoted hpair]

theorem CutInside.furtherItems {y : List Char} (h : CutInside y) (ss : List String) :
    CutInside (furtherItems ss ++ y) := by
  induction ss with
  | nil => exact h.cons (by decide)
  | cons s rest ih =>
      rw [Text.furtherItems, List.cons_append, List.cons_append, List.append_assoc]
      exact ((ih.quote s).cons (by decide)).cons (by decide)

theorem CutInside.quoteList {y : List Char} (h : CutInside y) (ss : List String) :
    CutInside ((quoteList ss).toList ++ y) := by
  cases ss with
  | nil =>
      rw [Text.quoteList_nil_append]
      exact (h.cons (by decide)).cons (by decide)
  | cons s rest =>
      rw [Text.quoteList_cons_append]
      exact ((h.furtherItems rest).quote s).cons (by decide)

-- ── Descriptions ─────────────────────────────────────────────────────────────────

/-- What is between parentheses, with them. -/
def parens (l : List Char) : List Char := '(' :: (l ++ [')'])

theorem parens_inj {l l' : List Char} (h : parens l = parens l') : l = l' :=
  List.append_cancel_right (List.tail_eq_of_cons_eq h)

theorem parens_quote_inj {t t' : String}
    (h : parens (quote t).toList = parens (quote t').toList) : t = t' :=
  (Text.quote_append_inj (congrArg (· ++ []) (parens_inj h))).1

theorem parens_quoteList_inj {ts ts' : List String}
    (h : parens (quoteList ts).toList = parens (quoteList ts').toList) : ts = ts' :=
  (Text.quoteList_append_inj (congrArg (· ++ []) (parens_inj h))).1

theorem toList_parens (n s : String) :
    (n ++ "(" ++ s ++ ")").toList = n.toList ++ parens s.toList := by
  simp [parens]

/-- What a description starts with: a name, in which nothing opens or quotes. -/
def IsName (n : List Char) : Prop := ∀ c ∈ n, isFraming c = true ∧ c ≠ '('

/-- Letters make a name. -/
theorem isName_of_letters {n : List Char} (h : n.all Char.isAlpha = true) : IsName n := by
  intro c hc
  have hletter := List.all_eq_true.mp h c hc
  have hother : ∀ d : Char, d.isAlpha = false → c ≠ d := by
    rintro d hd rfl
    rw [hletter] at hd
    cases hd
  exact ⟨(isFraming_iff c).mpr ⟨hother _ rfl, hother _ rfl, hother _ rfl⟩, hother _ rfl⟩

theorem IsName.ne_colon {n : List Char} (h : IsName n) : ∀ c ∈ n, c ≠ ':' := fun c hc =>
  ((isFraming_iff c).mp (h c hc).1).1

theorem IsName.ne_paren {n : List Char} (h : IsName n) : ∀ c ∈ n, c ≠ '(' := fun c hc =>
  (h c hc).2

theorem CutInside.name {y : List Char} (h : CutInside y) {n : List Char} (hn : IsName n) :
    CutInside (n ++ y) :=
  h.frame (List.all_eq_true.mpr fun c hc => (hn c hc).1)

/-- What stands in a description after the name: nothing, or something in parentheses. -/
def IsPayload (p : List Char) : Prop := p = [] ∨ ∃ l, p = parens l

theorem cutInside_parens {l y : List Char} (h : CutInside (l ++ ')' :: y)) :
    CutInside (parens l ++ y) := by
  have hshown : parens l ++ y = '(' :: (l ++ ')' :: y) := by
    simp [parens]
  rw [hshown]
  exact h.cons (by decide)

/-- An opening parenthesis is no part of a pair of colons. -/
theorem hasColonPair_parens (l y : List Char) :
    hasColonPair (parens l ++ y) = hasColonPair (l ++ ')' :: y) := by
  have hshown : parens l ++ y = '(' :: (l ++ ')' :: y) := by
    simp [parens]
  rw [hshown, Text.hasColonPair_cons (Or.inl (by decide))]

theorem hasColonPair_close (y : List Char) : hasColonPair (')' :: y) = hasColonPair y :=
  Text.hasColonPair_cons (Or.inl (by decide))

/-- True if some text has a pair of colons. -/
def anyPaired (ts : List String) : Bool := ts.any fun t => hasColonPair t.toList

theorem anyPaired_singleton (t : String) : anyPaired [t] = hasColonPair t.toList := by
  simp [anyPaired]

/-- A name ends where its payload starts. -/
theorem name_payload_inj {n n' p p' : List Char} (hn : IsName n) (hn' : IsName n')
    (hp : IsPayload p) (hp' : IsPayload p') (h : n ++ p = n' ++ p') : n = n' ∧ p = p' := by
  have hfront : ∀ {n p : List Char}, IsName n → IsPayload p →
      (n ++ p).takeWhile (· != '(') = n := by
    intro n p hn hp
    rw [List.takeWhile_append_of_pos fun c hc => bne_iff_ne.mpr (hn.ne_paren c hc)]
    rcases hp with rfl | ⟨l, rfl⟩
    · exact List.append_nil n
    · rw [parens, List.takeWhile_cons_of_neg (by decide), List.append_nil]
  have hname : n = n' := by
    rw [← hfront hn hp, h, hfront hn' hp']
  subst hname
  exact ⟨rfl, List.append_cancel_left h⟩

end OperationError

namespace SchemaError

open OperationError (parens parens_quote_inj parens_quoteList_inj toList_parens IsName
  IsPayload CutInside anyPaired)
open Text (hasColonPair quote quoteList)

/-- The texts that a violation is about. -/
def texts : SchemaError → List String
  | noClassFound => []
  | missingMustAttribute names => names
  | invalidAttribute a | invalidAttributeSyntax a | noSuchAttribute a => [a]

/-- What stands after the name in the description of a violation. -/
def payload : SchemaError → List Char
  | noClassFound => []
  | missingMustAttribute names => parens (quoteList names).toList
  | invalidAttribute a | invalidAttributeSyntax a | noSuchAttribute a => parens (quote a).toList

theorem describe_eq (v : SchemaError) : v.describe.toList = v.name.toList ++ v.payload := by
  cases v with
  | noClassFound => exact (List.append_nil _).symm
  | missingMustAttribute names => exact toList_parens "MissingMustAttribute" (quoteList names)
  | invalidAttribute a => exact toList_parens "InvalidAttribute" (quote a)
  | invalidAttributeSyntax a => exact toList_parens "InvalidAttributeSyntax" (quote a)
  | noSuchAttribute a => exact toList_parens "NoSuchAttribute" (quote a)

/-- The description of missing attributes, with the first of them on its own. -/
theorem describe_missingMustAttribute (s : String) (rest : List String) :
    (missingMustAttribute (s :: rest)).describe.toList
      = ("MissingMustAttribute".toList ++ ['(', '['])
          ++ ((quote s).toList ++ (Text.furtherItems rest ++ [')'])) := by
  rw [describe_eq, name, payload, parens, Text.quoteList_cons_append]
  simp only [List.append_assoc, List.cons_append, List.nil_append]

theorem isName (v : SchemaError) : IsName v.name.toList := by
  apply OperationError.isName_of_letters
  cases v <;> simp only [name] <;> decide +kernel

theorem isPayload (v : SchemaError) : IsPayload v.payload := by
  cases v with
  | noClassFound => exact Or.inl rfl
  | _ => exact Or.inr ⟨_, rfl⟩

/-- A violation is told by its name and its payload. -/
theorem eq_of_payload {v v' : SchemaError} (hname : v.name = v'.name)
    (hpayload : v.payload = v'.payload) : v = v' := by
  cases v <;> cases v' <;> try exact absurd hname (by simp only [name]; decide)
  case noClassFound.noClassFound => rfl
  case missingMustAttribute.missingMustAttribute => exact congrArg _ (parens_quoteList_inj hpayload)
  case invalidAttribute.invalidAttribute => exact congrArg _ (parens_quote_inj hpayload)
  case invalidAttributeSyntax.invalidAttributeSyntax => exact congrArg _ (parens_quote_inj hpayload)
  case noSuchAttribute.noSuchAttribute => exact congrArg _ (parens_quote_inj hpayload)

/-- A violation is told by its description. -/
theorem describe_injective {v v' : SchemaError} (h : v.describe = v'.describe) : v = v' := by
  have hchars : v.name.toList ++ v.payload = v'.name.toList ++ v'.payload := by
    rw [← describe_eq, ← describe_eq, h]
  obtain ⟨hname, hpayload⟩ := OperationError.name_payload_inj v.isName v'.isName
    v.isPayload v'.isPayload hchars
  exact eq_of_payload (String.toList_inj.mp hname) hpayload

/-- The payload of a violation brings quotes in pairs. -/
theorem cutInside_payload (v : SchemaError) {y : List Char} (h : CutInside y) :
    CutInside (v.payload ++ y) := by
  have hclose : CutInside (')' :: y) := h.cons (by decide)
  cases v with
  | noClassFound => exact h
  | missingMustAttribute names => exact OperationError.cutInside_parens (hclose.quoteList names)
  | invalidAttribute a | invalidAttributeSyntax a | noSuchAttribute a =>
      exact OperationError.cutInside_parens (hclose.quote a)

/-- The description of a violation has the pairs of colons of its texts. -/
theorem hasColonPair_payload (v : SchemaError) (y : List Char) :
    hasColonPair (v.payload ++ y) = (anyPaired v.texts || hasColonPair y) := by
  cases v with
  | noClassFound => rfl
  | missingMustAttribute names =>
      rw [payload, OperationError.hasColonPair_parens, Text.hasColonPair_quoteList,
        OperationError.hasColonPair_close, texts, anyPaired]
  | invalidAttribute a | invalidAttributeSyntax a | noSuchAttribute a =>
      rw [payload, OperationError.hasColonPair_parens, Text.hasColonPair_quote,
        OperationError.hasColonPair_close, texts, OperationError.anyPaired_singleton]

theorem cutInside_describe (v : SchemaError) {y : List Char} (h : CutInside y) :
    CutInside (v.describe.toList ++ y) := by
  rw [describe_eq, List.append_assoc]
  exact (v.cutInside_payload h).name v.isName

/-- The only pairs of colons in the description of a violation are those of its texts. -/
theorem hasColonPair_describe (v : SchemaError) (y : List Char) :
    hasColonPair (v.describe.toList ++ y) = (anyPaired v.texts || hasColonPair y) := by
  rw [describe_eq, List.append_assoc, Text.hasColonPair_append v.isName.ne_colon,
    hasColonPair_payload]

end SchemaError

namespace OperationError

open Text (hasColonPair oddQuotes quote)

/-- The texts that an error is about. -/
def texts : OperationError → List String
  | schemaViolation v => v.texts
  | invalidDn t | invalidAttribute t | aciParseError t | backend t | invalidConfig t => [t]
  | _ => []

/-- What stands after the name in the description of an error. -/
def payload : OperationError → List Char
  | schemaViolation v => parens v.describe.toList
  | invalidDn t | invalidAttribute t | aciParseError t | backend t | invalidConfig t =>
      parens (quote t).toList
  | _ => []

theorem describe_eq (e : OperationError) : e.describe.toList = e.name.toList ++ e.payload := by
  cases e with
  | schemaViolation v => exact toList_parens "SchemaViolation" v.describe
  | invalidDn t => exact toList_parens "InvalidDn" (quote t)
  | invalidAttribute t => exact toList_parens "InvalidAttribute" (quote t)
  | aciParseError t => exact toList_parens "AciParseError" (quote t)
  | backend t => exact toList_parens "Backend" (quote t)
  | invalidConfig t => exact toList_parens "InvalidConfig" (quote t)
  | _ => exact (List.append_nil _).symm

theorem isName (e : OperationError) : IsName e.name.toList := by
  apply isName_of_letters
  cases e <;> simp only [name] <;> decide +kernel

theorem isPayload (e : OperationError) : IsPayload e.payload := by
  cases e with
  | schemaViolation v => exact Or.inr ⟨_, rfl⟩
  | invalidDn t | invalidAttribute t | aciParseError t | backend t | invalidConfig t =>
      exact Or.inr ⟨_, rfl⟩
  | _ => exact Or.inl rfl

/-- The quotes of a description pair up, but not in what is left of it after a cut. -/
theorem cutInside_describe (e : OperationError) : CutInside e.describe.toList := by
  have hclose : CutInside [')'] := cutInside_nil.cons (by decide)
  have hpayload : CutInside e.payload := by
    rw [← List.append_nil e.payload]
    cases e with
    | schemaViolation v => exact cutInside_parens (v.cutInside_describe hclose)
    | invalidDn t | invalidAttribute t | aciParseError t | backend t | invalidConfig t =>
        exact cutInside_parens (hclose.quote t)
    | _ => exact cutInside_nil
  rw [describe_eq]
  exact hpayload.name e.isName

/-- The only pairs of colons in a description are those of the texts. -/
theorem hasColonPair_describe (e : OperationError) :
    hasColonPair e.describe.toList = anyPaired e.texts := by
  have hclose : hasColonPair [')'] = false := rfl
  rw [describe_eq, Text.hasColonPair_append e.isName.ne_colon, ← List.append_nil e.payload]
  cases e with
  | schemaViolation v =>
      rw [payload, hasColonPair_parens, v.hasColonPair_describe, hclose, Bool.or_false, texts]
  | invalidDn t | invalidAttribute t | aciParseError t | backend t | invalidConfig t =>
      rw [payload, hasColonPair_parens, Text.hasColonPair_quote, hclose, Bool.or_false, texts,
        anyPaired_singleton]
  | _ => rfl

/-- An error is told by its name and its payload. -/
theorem eq_of_payload {e e' : OperationError} (hname : e.name = e'.name)
    (hpayload : e.payload = e'.payload) : e = e' := by
  cases e <;> cases e' <;>
    first | rfl | exact absurd hname (by simp only [name]; decide) | skip
  case schemaViolation.schemaViolation =>
    exact congrArg _ (SchemaError.describe_injective (String.toList_inj.mp (parens_inj hpayload)))
  case invalidDn.invalidDn => exact congrArg _ (parens_quote_inj hpayload)
  case invalidAttribute.invalidAttribute => exact congrArg _ (parens_quote_inj hpayload)
  case aciParseError.aciParseError => exact congrArg _ (parens_quote_inj hpayload)
  case backend.backend => exact congrArg _ (parens_quote_inj hpayload)
  case invalidConfig.invalidConfig => exact congrArg _ (parens_quote_inj hpayload)

/-- An error is told by its description. -/
theorem describe_injective {e e' : OperationError} (h : e.describe = e'.describe) : e = e' := by
  have hchars : e.name.toList ++ e.payload = e'.name.toList ++ e'.payload := by
    rw [← describe_eq, ← describe_eq, h]
  obtain ⟨hname, hpayload⟩ := name_payload_inj e.isName e'.isName e.isPayload e'.isPayload hchars
  exact eq_of_payload (String.toList_inj.mp hname) hpayload

-- ── What is shown ────────────────────────────────────────────────────────────────

/-- No text that the error is about has a pair of colons. -/
def Unpaired (e : OperationError) : Prop := ∀ t ∈ e.texts, hasColonPair t.toList = false

instance (e : OperationError) : Decidable e.Unpaired :=
  inferInstanceAs (Decidable (∀ t ∈ e.texts, hasColonPair t.toList = false))

theorem unpaired_of_texts_eq_nil {e : OperationError} (h : e.texts = []) : e.Unpaired := by
  rw [Unpaired, h]
  exact List.forall_mem_nil _

/-- No text of an error has a pair of colons exactly if its description has none. -/
theorem unpaired_iff (e : OperationError) :
    e.Unpaired ↔ hasColonPair e.describe.toList = false := by
  rw [hasColonPair_describe, anyPaired, List.any_eq_false, Unpaired]
  simp only [Bool.not_eq_true]

theorem not_unpaired_iff (e : OperationError) :
    ¬e.Unpaired ↔ hasColonPair e.describe.toList = true := by
  rw [unpaired_iff, Bool.not_eq_false]

/-- What is shown of the description of an error. -/
def shown (e : OperationError) : String := String.ofList (afterLastPair [] e.describe.toList)

/-- The message of an error as it follows the description. -/
def explanation (e : OperationError) : String :=
  match e.message with
  | some m => " - " ++ m
  | none => ""

/-- What is shown of the description comes first, and then the message. -/
theorem display_eq (e : OperationError) : e.display = e.shown ++ e.explanation := by
  rw [display, explanation]
  cases e.message with
  | none => exact (String.append_empty).symm
  | some m => exact String.append_assoc ..

theorem display_of_none {e : OperationError} (h : e.message = none) : e.display = e.shown := by
  rw [display_eq, explanation, h]
  exact String.append_empty

/-- The description is shown as a whole exactly if no text of the error has a pair of
    colons. -/
theorem shown_eq_describe_iff (e : OperationError) : e.shown = e.describe ↔ e.Unpaired := by
  constructor
  · intro h
    by_contra hpaired
    have hlost := length_afterLastPair_lt ((not_unpaired_iff e).mp hpaired)
    have hkept := congrArg (fun s : String => s.toList.length) h
    rw [shown, String.toList_ofList] at hkept
    omega
  · intro h
    rw [shown, afterLastPair_whole ((unpaired_iff e).mp h), List.reverse_nil, List.nil_append,
      String.ofList_toList]

/-- What is shown of an error of which a part is lost has a quote too many for a
    description. -/
theorem shown_ne_describe {e e' : OperationError} (h : ¬e'.Unpaired) :
    e'.shown ≠ e.describe := by
  intro hsame
  have hodd := e'.cutInside_describe.cut ((not_unpaired_iff e').mp h)
  have heven := e.cutInside_describe.even
  rw [← hsame, shown, String.toList_ofList, hodd] at heven
  cases heven

/-- Errors whose descriptions differ only in front of a pair of colons are shown alike. -/
theorem shown_eq_of_fronts {e e' : OperationError} {front front' rest : List Char}
    (he : e.describe.toList = front ++ rest) (he' : e'.describe.toList = front' ++ rest)
    (hfront : ∀ c ∈ front, c ≠ ':') (hfront' : ∀ c ∈ front', c ≠ ':')
    (h : ¬e.Unpaired) : e'.shown = e.shown := by
  have hpair := (not_unpaired_iff e).mp h
  rw [he, Text.hasColonPair_append hfront] at hpair
  rw [shown, shown, he, he', afterLastPair_append hfront hpair,
    afterLastPair_append hfront' hpair]

/-- Errors with the same payload are shown alike if their names are cut off. -/
theorem shown_eq_of_payload {e e' : OperationError} (hpayload : e'.payload = e.payload)
    (h : ¬e.Unpaired) : e'.shown = e.shown :=
  shown_eq_of_fronts e.describe_eq (hpayload ▸ e'.describe_eq) e.isName.ne_colon
    e'.isName.ne_colon h

/-- Violations whose descriptions differ only in front of a pair of colons are shown alike.
    -/
theorem shown_eq_of_violation {v v' : SchemaError} {front front' rest : List Char}
    (hv : v.describe.toList = front ++ rest) (hv' : v'.describe.toList = front' ++ rest)
    (hfront : ∀ c ∈ front, c ≠ ':') (hfront' : ∀ c ∈ front', c ≠ ':')
    (h : ¬(schemaViolation v).Unpaired) :
    (schemaViolation v').shown = (schemaViolation v).shown := by
  have hopen : ∀ {front : List Char}, (∀ c ∈ front, c ≠ ':') →
      ∀ c ∈ "SchemaViolation".toList ++ '(' :: front, c ≠ ':' := by
    intro front hfront c hc
    rcases List.mem_append.mp hc with hc | hc
    · exact (schemaViolation v).isName.ne_colon c hc
    · rcases List.mem_cons.mp hc with rfl | hc
      · decide
      · exact hfront c hc
  have hshown : ∀ {v : SchemaError} {front : List Char}, v.describe.toList = front ++ rest →
      (schemaViolation v).describe.toList
        = ("SchemaViolation".toList ++ '(' :: front) ++ (rest ++ [')']) := by
    intro v front hv
    rw [describe_eq, name, payload, parens, hv]
    simp only [List.append_assoc, List.cons_append]
  exact shown_eq_of_fronts (hshown hv) (hshown hv') (hopen hfront) (hopen hfront') h

/-- Of a violation of which a part is lost the same is left as of another one. -/
theorem exists_violation_alike {v : SchemaError} (h : ¬(schemaViolation v).Unpaired) :
    ∃ v', v' ≠ v ∧ (schemaViolation v').shown = (schemaViolation v).shown := by
  have hpayload : ∀ v' : SchemaError, v'.payload = v.payload →
      (schemaViolation v').shown = (schemaViolation v).shown := fun v' hp =>
    shown_eq_of_violation v.describe_eq (hp ▸ v'.describe_eq) v.isName.ne_colon v'.isName.ne_colon h
  cases v with
  | noClassFound => exact absurd (unpaired_of_texts_eq_nil rfl) h
  | missingMustAttribute names =>
      cases names with
      | nil => exact absurd (unpaired_of_texts_eq_nil rfl) h
      | cons s rest =>
          -- one more name in front of the others is cut off with them
          have hmore : (SchemaError.missingMustAttribute ("" :: s :: rest)).describe.toList
              = ("MissingMustAttribute".toList ++ ['(', '[', '"', '"', ',', ' '])
                  ++ ((quote s).toList ++ (Text.furtherItems rest ++ [')'])) := by
            rw [SchemaError.describe_missingMustAttribute, Text.quote_append, Text.furtherItems]
            simp
          exact ⟨.missingMustAttribute ("" :: s :: rest), by simp,
            shown_eq_of_violation (SchemaError.describe_missingMustAttribute s rest) hmore
              (ne_colon_of_all (by decide +kernel)) (ne_colon_of_all (by decide +kernel)) h⟩
  | invalidAttribute a => exact ⟨.noSuchAttribute a, by simp, hpayload _ rfl⟩
  | invalidAttributeSyntax a | noSuchAttribute a =>
      exact ⟨.invalidAttribute a, by simp, hpayload _ rfl⟩

/-- Of an error without a message of which a part is lost the same is shown as of another
    one. -/
theorem exists_shown_alike {e : OperationError} (hmessage : e.message = none)
    (h : ¬e.Unpaired) : ∃ e', e'.message = none ∧ e'.shown = e.shown ∧ e' ≠ e := by
  cases e with
  | schemaViolation v =>
      obtain ⟨v', hne, halike⟩ := exists_violation_alike h
      exact ⟨schemaViolation v', rfl, halike, fun hsame => hne (schemaViolation.inj hsame)⟩
  | invalidDn t => exact ⟨invalidAttribute t, rfl, shown_eq_of_payload rfl h, by simp⟩
  | invalidAttribute t | aciParseError t | backend t =>
      exact ⟨invalidDn t, rfl, shown_eq_of_payload rfl h, by simp⟩
  | invalidConfig t => cases hmessage
  | _ => exact absurd (unpaired_of_texts_eq_nil rfl) h

/-- **WHAT THE TEXT OF AN ERROR LOSES**: the text is the whole description, followed by the
    message if there is one, exactly if no text that the error is about has a pair of colons.
    For an error without a message that is also the exact condition for no other such error
    to have the same text. -/
theorem display_whole_iff (e : OperationError) :
    (e.display = e.describe ++ e.explanation ↔ e.Unpaired)
      ∧ (e.message = none →
        ((∀ e', e'.message = none → e'.display = e.display → e' = e) ↔ e.Unpaired)) := by
  constructor
  · rw [display_eq, String.append_left_inj, shown_eq_describe_iff]
  · intro hmessage
    rw [display_of_none hmessage]
    constructor
    · intro honly
      by_contra h
      obtain ⟨e', hmessage', halike, hne⟩ := exists_shown_alike hmessage h
      exact hne (honly e' hmessage' ((display_of_none hmessage').trans halike))
    · intro h e' hmessage' halike
      rw [display_of_none hmessage', (shown_eq_describe_iff e).mpr h] at halike
      by_cases h' : e'.Unpaired
      · rw [(shown_eq_describe_iff e').mpr h'] at halike
        exact describe_injective halike
      · exact absurd halike (shown_ne_describe h')

/-- The text of an error about a name without colons is its whole description, and no other
    error without a message has that text. -/
theorem plain_dn_shown_whole :
    (invalidDn "cn").Unpaired
      ∧ (invalidDn "cn").display = "InvalidDn(\"cn\")"
      ∧ ∀ e', e'.message = none → e'.display = (invalidDn "cn").display → e' = invalidDn "cn" := by
  have hplain : (invalidDn "cn").Unpaired := by decide +kernel
  obtain ⟨hwhole, honly⟩ := display_whole_iff (invalidDn "cn")
  refine ⟨hplain, ?_, (honly rfl).mpr hplain⟩
  rw [hwhole.mpr hplain]
  decide +kernel

/-- Of a name with a pair of colons only the end is shown, and the same is shown of another
    error about it. -/
theorem paired_dn_cut :
    (invalidDn "a::b").message = none
      ∧ (invalidDn "a::b").describe = "InvalidDn(\"a::b\")"
      ∧ (invalidDn "a::b").display = "b\")"
      ∧ (invalidAttribute "a::b").display = (invalidDn "a::b").display
      ∧ invalidAttribute "a::b" ≠ invalidDn "a::b" :=
  ⟨rfl, by decide +kernel, by decide +kernel, by decide +kernel, by simp⟩

end OperationError

end DirectoryAccess
