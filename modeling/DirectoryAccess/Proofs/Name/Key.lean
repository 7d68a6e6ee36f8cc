import DirectoryAccess.Name.Dn

/-! # Keys of names — the components by which names are compared

    Names are compared by one text, but stand above and below each other component
    by component.  The KEY of a name is the list of its components as they are
    compared.  Since every special character of a value is escaped, the text can be
    split again, so names have the same text exactly if they have the same key; and
    a name is within another exactly if its key ends in the other's. -/

namespace DirectoryAccess

namespace Rdn

-- ── Reading back what was written ────────────────────────────────────────────────

/-- Text in which every comma has a backslash before it, and every backslash a
    character after it. -/
inductive Quoted : List Char → Prop
  | nil : Quoted []
  | plain {c : Char} {cs : List Char} : c ≠ ',' → c ≠ '\\' → Quoted cs → Quoted (c :: cs)
  | pair {c : Char} {cs : List Char} : Quoted cs → Quoted ('\\' :: c :: cs)

theorem ne_of_not_special {c : Char} (h : special.contains c = false) :
    c ≠ ',' ∧ c ≠ '\\' := by
  constructor
  · rintro rfl
    exact absurd h (by decide)
  · rintro rfl
    exact absurd h (by decide)

/-- Characters are escaped one by one. -/
theorem escape_cons (c : Char) (cs : List Char) :
    escape (c :: cs) = (if special.contains c then ['\\', c] else [c]) ++ escape cs := rfl

/-- An escaped value is quoted. -/
theorem quoted_escape (value : List Char) : Quoted (escape value) := by
  induction value with
  | nil => exact .nil
  | cons c rest ih =>
      rw [escape_cons]
      cases hc : special.contains c with
      | true => exact .pair ih
      | false =>
          obtain ⟨h1, h2⟩ := ne_of_not_special hc
          exact .plain h1 h2 ih

/-- What is no backslash is read as it stands. -/
theorem unescape_plain {c : Char} (h : c ≠ '\\') (cs : List Char) :
    divide?.unescape? (c :: cs) = (divide?.unescape? cs).map (c :: ·) := by
  simp [divide?.unescape?, h]

/-- Reading an escaped value gives the value. -/
theorem unescape_escape (value : List Char) :
    divide?.unescape? (escape value) = some value := by
  induction value with
  | nil => rfl
  | cons c rest ih =>
      rw [escape_cons]
      cases hc : special.contains c with
      | true =>
          show divide?.unescape? ('\\' :: c :: escape rest) = _
          rw [divide?.unescape?, ih]
          rfl
      | false =>
          show divide?.unescape? (c :: escape rest) = _
          rw [unescape_plain (ne_of_not_special hc).2, ih]
          rfl

/-- A character that may stand in an attribute type. -/
def isTypeChar (c : Char) : Bool := isLetter c || isDigit c || c == '-' || c == '.'

/-- The characters of an attribute type are letters, digits, hyphens and dots. -/
theorem typeChars {cs : List Char} (h : isAttributeType cs = true) :
    ∀ c ∈ cs, isTypeChar c = true := by
  cases cs with
  | nil => exact fun _ hc => by cases hc
  | cons a rest =>
      simp only [isAttributeType] at h
      intro c hc
      by_cases ha : isLetter a = true
      · rw [if_pos ha, List.all_eq_true] at h
        rcases List.mem_cons.mp hc with rfl | hr
        · simp [isTypeChar, ha]
        · have := h c hr
          simp only [isTypeChar]
          grind
      · rw [if_neg ha, Bool.and_eq_true, List.all_eq_true] at h
        rcases List.mem_cons.mp hc with rfl | hr
        · simp [isTypeChar, h.1]
        · have := h.2 c hr
          simp only [isTypeChar]
          grind

theorem ne_of_typeChar {c : Char} (h : isTypeChar c = true) :
    c ≠ ',' ∧ c ≠ '\\' ∧ c ≠ '=' := by
  refine ⟨?_, ?_, ?_⟩
  · rintro rfl
    exact absurd h (by decide)
  · rintro rfl
    exact absurd h (by decide)
  · rintro rfl
    exact absurd h (by decide)

/-- Up to the equals sign characters belong to the type. -/
theorem divide_plain {c : Char} (he : c ≠ '=') (hb : c ≠ '\\') (cs : List Char) :
    divide? (c :: cs) = (divide? cs).map fun (attr, value) => (c :: attr, value) := by
  rw [divide?]
  · exact he
  · exact hb

/-- A written component is divided into its type and its value. -/
theorem divide_render {attr : List Char} (h : ∀ c ∈ attr, isTypeChar c = true)
    (value : List Char) : divide? (attr ++ '=' :: escape value) = some (attr, value) := by
  induction attr with
  | nil =>
      rw [List.nil_append, divide?, unescape_escape]
      rfl
  | cons c rest ih =>
      obtain ⟨-, hb, he⟩ := ne_of_typeChar (h c (List.mem_cons_self ..))
      rw [List.cons_append, divide_plain he hb,
        ih fun d hd => h d (List.mem_cons_of_mem _ hd)]
      rfl

/-- Quoted text with only type characters in front is quoted. -/
theorem quoted_render {attr : List Char} (h : ∀ c ∈ attr, isTypeChar c = true)
    (value : List Char) : Quoted (attr ++ '=' :: escape value) := by
  induction attr with
  | nil => exact .plain (by decide) (by decide) (quoted_escape value)
  | cons c rest ih =>
      obtain ⟨hc, hb, -⟩ := ne_of_typeChar (h c (List.mem_cons_self ..))
      exact .plain hc hb (ih fun d hd => h d (List.mem_cons_of_mem _ hd))

/-- Up to a comma characters belong to the first part. -/
theorem splitParts_plain {c : Char} (hc : c ≠ ',') (hb : c ≠ '\\') (cs : List Char) :
    splitParts? (c :: cs) = (splitParts? cs).map (splitParts?.extendFirst [c]) := by
  rw [splitParts?]
  · intro h _
    exact hb h
  · intro _ _ h _
    exact hb h
  · exact hc

/-- Quoted text belongs to the first part of what follows it. -/
theorem splitParts_append {p rest q : List Char} {qs : List (List Char)} (hp : Quoted p)
    (hrest : splitParts? rest = some (q :: qs)) :
    splitParts? (p ++ rest) = some ((p ++ q) :: qs) := by
  induction hp with
  | nil => exact hrest
  | plain hc hb _ ih =>
      rw [List.cons_append, splitParts_plain hc hb, ih]
      rfl
  | pair _ ih =>
      rw [List.cons_append, List.cons_append, splitParts?, ih]
      rfl

/-- The text of a component has no equals sign that would divide it elsewhere. -/
theorem norm_toList (r : Rdn) : r.norm.toList = r.attr.toList ++ '=' :: escape r.normValue.toList :=
  String.toList_ofList

theorem quoted_norm (r : Rdn) : Quoted r.norm.toList := by
  rw [norm_toList]
  exact quoted_render (typeChars r.attr_type) _

/-- A component as it is compared. -/
def key (r : Rdn) : String × String := (r.attr, r.normValue)

/-- Components with the same text are the same. -/
theorem key_of_norm {r s : Rdn} (h : r.norm.toList = s.norm.toList) : r.key = s.key := by
  have hr := divide_render (typeChars r.attr_type) r.normValue.toList
  have hs := divide_render (typeChars s.attr_type) s.normValue.toList
  rw [← norm_toList] at hr hs
  rw [h, hs] at hr
  obtain ⟨hattr, hvalue⟩ := Prod.mk.inj (Option.some.inj hr)
  rw [key, key, String.toList_inj.mp hattr, String.toList_inj.mp hvalue]

/-- Components are the same if they have the same key. -/
theorem same_iff (r s : Rdn) : r.same s = true ↔ r.key = s.key := by
  rw [same, Bool.and_eq_true, beq_iff_eq, beq_iff_eq, key, key, Prod.mk.injEq]

end Rdn

namespace Dn

/-- The components of a name as they are compared. -/
def key (d : Dn) : List (String × String) := d.rdns.map Rdn.key

/-- Quoted texts with commas between are split again at these commas. -/
theorem splitParts_intercalate {s : String} {ss : List String}
    (h : ∀ x ∈ s :: ss, Rdn.Quoted x.toList) :
    Rdn.splitParts? (String.intercalate "," (s :: ss)).toList
      = some ((s :: ss).map String.toList) := by
  induction ss generalizing s with
  | nil =>
      have hone : Rdn.splitParts? (s.toList ++ []) = some [s.toList ++ []] :=
        Rdn.splitParts_append (h s (List.mem_cons_self ..)) rfl
      rw [List.append_nil] at hone
      rw [String.intercalate_singleton, hone]
      rfl
  | cons x rest ih =>
      obtain ⟨hs, hrest⟩ := List.forall_mem_cons.mp h
      have hmore : Rdn.splitParts? (',' :: (String.intercalate "," (x :: rest)).toList)
          = some ([] :: (x :: rest).map String.toList) := by
        rw [Rdn.splitParts?, ih hrest]
        rfl
      have htext : (String.intercalate "," (s :: x :: rest)).toList
          = s.toList ++ ',' :: (String.intercalate "," (x :: rest)).toList := by
        rw [String.intercalate_cons_cons]
        simp
      rw [htext, Rdn.splitParts_append hs hmore, List.append_nil]
      rfl

/-- The text of a name is split into the texts of its components. -/
theorem splitParts_norm (r : Rdn) (rs : List Rdn) :
    Rdn.splitParts? (norm ⟨r :: rs⟩).toList
      = some ((r :: rs).map fun r => r.norm.toList) := by
  have hquoted : ∀ x ∈ r.norm :: rs.map Rdn.norm, Rdn.Quoted x.toList := by
    rw [← List.map_cons, List.forall_mem_map]
    exact fun r _ => r.quoted_norm
  rw [norm, List.map_cons, splitParts_intercalate hquoted, ← List.map_cons, List.map_map]
  rfl

/-- Components with the same normalised texts have the same keys. -/
theorem map_key_of_map_norm {rs ss : List Rdn}
    (h : rs.map (fun r => r.norm.toList) = ss.map fun r => r.norm.toList) :
    rs.map Rdn.key = ss.map Rdn.key := by
  induction rs generalizing ss with
  | nil =>
      rw [List.map_nil, eq_comm, List.map_eq_nil_iff] at h
      rw [h]
  | cons r rest ih =>
      cases ss with
      | nil => cases h
      | cons s more =>
          rw [List.map_cons, List.map_cons, List.cons.injEq] at h
          rw [List.map_cons, List.map_cons, Rdn.key_of_norm h.1, ih h.2]

/-- Names with the same text have the same key. -/
theorem key_of_norm {a b : Dn} (h : a.norm = b.norm) : a.key = b.key := by
  obtain ⟨as⟩ := a
  obtain ⟨bs⟩ := b
  have hsplit : ∀ (r : Rdn) (rs : List Rdn),
      Rdn.splitParts? (norm ⟨r :: rs⟩).toList ≠ some [[]] := by
    intro r rs
    rw [splitParts_norm]
    simp [Rdn.norm_toList]
  cases as with
  | nil =>
      cases bs with
      | nil => rfl
      | cons s ss =>
          refine absurd ?_ (hsplit s ss)
          rw [← h]
          rfl
  | cons r rs =>
      cases bs with
      | nil =>
          refine absurd ?_ (hsplit r rs)
          rw [h]
          rfl
      | cons s ss =>
          have hparts : (r :: rs).map (fun r => r.norm.toList)
              = (s :: ss).map fun r => r.norm.toList := by
            have := splitParts_norm r rs
            rw [h, splitParts_norm s ss] at this
            exact (Option.some.inj this).symm
          exact map_key_of_map_norm hparts

/-- Names with the same key have the same text. -/
theorem norm_of_key {a b : Dn} (h : a.key = b.key) : a.norm = b.norm := by
  have htext : ∀ d : Dn, d.norm
      = String.intercalate "," (d.key.map fun c => String.ofList (Rdn.render c.1 c.2)) := by
    intro d
    rw [norm, key, List.map_map]
    rfl
  rw [htext a, htext b, h]

/-- Names are the same exactly if they have the same key. -/
theorem same_iff (a b : Dn) : a.same b = true ↔ a.key = b.key := by
  rw [same, beq_iff_eq]
  exact ⟨key_of_norm, norm_of_key⟩

/-- Names that compare equal are those that have the same key. -/
theorem compare_eq_iff (a b : Dn) : compare a b = .eq ↔ a.key = b.key := by
  show compare a.norm b.norm = .eq ↔ _
  rw [Std.LawfulEqCmp.compare_eq_iff_eq]
  exact ⟨key_of_norm, norm_of_key⟩

-- ── Above and below ──────────────────────────────────────────────────────────────

/-- Lists of components are compared equal exactly if their keys are the same. -/
theorem sameComponents_iff (rs ss : List Rdn) :
    sameComponents rs ss = true ↔ rs.map Rdn.key = ss.map Rdn.key := by
  induction rs generalizing ss with
  | nil => cases ss <;> simp [sameComponents]
  | cons r rest ih =>
      cases ss with
      | nil => simp [sameComponents]
      | cons s more =>
          rw [sameComponents, Bool.and_eq_true, Rdn.same_iff, ih, List.map_cons, List.map_cons,
            List.cons.injEq]

theorem length_key (d : Dn) : d.key.length = d.depth := List.length_map ..

/-- A name is within another exactly if its key ends in the other's. -/
theorem isWithin_iff (d base : Dn) : d.isWithin base = true ↔ base.key <:+ d.key := by
  rw [isWithin, Bool.and_eq_true, decide_eq_true_iff, endsWith, sameComponents_iff,
    List.map_drop, ← length_key, ← length_key]
  constructor
  · rintro ⟨-, h⟩
    have h : d.key.drop (d.key.length - base.key.length) = base.key := h
    rw [← h]
    exact List.drop_suffix _ _
  · intro h
    exact ⟨h.length_le, (List.suffix_iff_eq_drop.mp h).symm⟩

theorem isWithin_of_key {d base : Dn} (h : d.key = base.key) : d.isWithin base = true :=
  (isWithin_iff d base).mpr ⟨[], h.symm⟩

/-- A name is strictly below another exactly if it is within it and not the same. -/
theorem isDescendantOf_iff (d base : Dn) :
    d.isDescendantOf base = true ↔ base.key <:+ d.key ∧ base.key ≠ d.key := by
  rw [isDescendantOf, Bool.and_eq_true, decide_eq_true_iff]
  have hwithin : d.isWithin base = true ↔ _ := isWithin_iff d base
  rw [isWithin, Bool.and_eq_true, decide_eq_true_iff] at hwithin
  rw [← hwithin, ← length_key, ← length_key]
  constructor
  · rintro ⟨hlt, hends⟩
    refine ⟨⟨Nat.le_of_lt hlt, hends⟩, ?_⟩
    intro he
    rw [he] at hlt
    exact Nat.lt_irrefl _ hlt
  · rintro ⟨⟨hle, hends⟩, hne⟩
    refine ⟨Nat.lt_of_le_of_ne hle ?_, hends⟩
    intro he
    refine hne ((hwithin.mp ⟨?_, hends⟩).eq_of_length he)
    rw [← length_key, ← length_key]
    exact hle

theorem key_child (d : Dn) (r : Rdn) : (d.child r).key = r.key :: d.key := rfl

theorem eq_child_of_parent {d p : Dn} (h : d.parent? = some p) : ∃ r, d = p.child r := by
  obtain ⟨rdns⟩ := d
  cases rdns with
  | nil => cases h
  | cons r rest =>
      cases h
      exact ⟨r, rfl⟩

/-- The parents of two spellings are spellings of one name. -/
theorem parent_congr {x y p : Dn} (h : x.key = y.key) (hp : y.parent? = some p) :
    ∃ q, x.parent? = some q ∧ q.key = p.key := by
  obtain ⟨r, rfl⟩ := eq_child_of_parent hp
  obtain ⟨rdns⟩ := x
  cases rdns with
  | nil => cases h
  | cons s rest => exact ⟨⟨rest⟩, rfl, (List.cons.inj h).2⟩

/-- A child has one component in front of the key of its parent. -/
theorem isChildOf_iff (d base : Dn) : d.isChildOf base = true ↔ ∃ c, d.key = c :: base.key := by
  obtain ⟨rdns⟩ := d
  cases rdns with
  | nil => simp [isChildOf, parent?, key]
  | cons r rest =>
      show (⟨rest⟩ : Dn).same base = true ↔ _
      rw [same_iff]
      constructor
      · intro h
        exact ⟨r.key, congrArg (List.cons r.key) h⟩
      · rintro ⟨c, h⟩
        exact (List.cons.inj h).2

theorem isRoot_iff (d : Dn) : d.isRoot = true ↔ d.key = [] := by
  rw [isRoot, List.isEmpty_iff, key, List.map_eq_nil_iff]

theorem isRoot_congr {x y : Dn} (h : x.key = y.key) : x.isRoot = y.isRoot := by
  rw [Bool.eq_iff_iff, isRoot_iff, isRoot_iff, h]

-- ── Rebasing ─────────────────────────────────────────────────────────────────────

/-- A name that is not within another is not rebased from it. -/
theorem rebase_of_not_within {d old : Dn} (h : d.isWithin old = false) (new : Dn) :
    d.rebase? old new = none := by
  rw [rebase?, relativeTo?, h]
  rfl

/-- A name within another keeps its place when it is rebased: what stood before the
    old key stands before the new one. -/
theorem rebase_of_within {d old : Dn} {rel : List (String × String)}
    (h : d.key = rel ++ old.key) (new : Dn) :
    ∃ r, d.rebase? old new = some r ∧ r.key = rel ++ new.key := by
  have hw : d.isWithin old = true := (isWithin_iff d old).mpr ⟨rel, h.symm⟩
  refine ⟨⟨d.rdns.take (d.depth - old.depth) ++ new.rdns⟩, ?_, ?_⟩
  · rw [rebase?, relativeTo?, if_pos hw]
    rfl
  · have hlen : d.depth - old.depth = rel.length := by
      rw [← length_key, ← length_key, h, List.length_append]
      omega
    show (d.rdns.take (d.depth - old.depth) ++ new.rdns).map Rdn.key = _
    rw [List.map_append, List.map_take, hlen]
    show d.key.take rel.length ++ new.key = _
    rw [h, List.take_left]

end Dn

end DirectoryAccess
