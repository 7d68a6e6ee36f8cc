import DirectoryAccess.Filter
import DirectoryAccess.Proofs.Entry.Alike
import DirectoryAccess.Proofs.Entry.Rules

/-! # Looking up by any spelling — what is read under the name it was written under

    Everything that writes an attribute lowers its name.  What reads one lowers the name
    only if an ASCII capital stands in it, and else takes it as it is.  The two speak of the
    same attribute where the spelling has such a capital or is its own lower case, which
    every ASCII spelling has or is.  Under any other spelling nothing is read, whatever has
    been written. -/

namespace DirectoryAccess

-- ── Spellings ────────────────────────────────────────────────────────────────────

namespace Text

/-- A text that is made of letters that nothing above ASCII is lowered to is its own lower
    case. -/
theorem lowercase_of_own {s : String} (h : s.toList.all isOwnLetter = true) :
    lowercase s = s := by
  have hstable : ∀ c ∈ s.toList, IsStable c := by
    intro c hc
    have hown := List.all_eq_true.mp h c hc
    have hupper : isAsciiUpper c = false := by
      rw [← Bool.not_eq_true]
      exact List.any_eq_false.mp (hasNoUpper_of_own h) c hc
    simp only [isOwnLetter, Bool.and_eq_true, decide_eq_true_eq] at hown
    exact isStable_of_ascii (by omega) hupper
  rw [lowercase, lowerFrom_of_stable hstable, String.ofList_toList]

end Text

namespace Attribute

/-- A spelling that is read under its lower case. -/
def ReadLower (attr : String) : Prop :=
  Text.hasAsciiUpper attr = true ∨ Text.lowercase attr = attr

instance (attr : String) : Decidable (ReadLower attr) :=
  inferInstanceAs (Decidable (_ ∨ _))

/-- An attribute is read in lower case exactly if that is the name it is read as. -/
theorem readLower_iff (attr : String) : ReadLower attr ↔ readAs attr = Text.lowercase attr := by
  rw [ReadLower, readAs]
  cases Text.hasAsciiUpper attr with
  | true => simp
  | false => simp [eq_comm]

theorem readLower_lowercase (attr : String) : ReadLower (Text.lowercase attr) :=
  Or.inr (Text.lowercase_lowercase attr)

/-- A plain spelling is read under its lower case. -/
theorem readLower_of_plain {attr : String} (h : Text.Plain attr) : ReadLower attr := by
  cases hupper : Text.hasAsciiUpper attr with
  | true => exact Or.inl hupper
  | false => exact Or.inr (h.lowercase_of_noUpper hupper)

/-- An ASCII spelling is read under its lower case. -/
theorem readLower_of_ascii {attr : String} (h : ∀ c ∈ attr.toList, c.toNat < 0x80) :
    ReadLower attr := by
  refine readLower_of_plain ?_
  rw [Text.Plain, Text.lowercase, lowerFrom_ascii h, Text.asciiLower]

/-- No attribute of the server is written with a letter that something above ASCII is
    lowered to. -/
theorem operational_own : ∀ a ∈ operational, a.toList.all Text.isOwnLetter = true := by
  decide

/-- A name without ASCII capitals is one of the server's exactly if its lower case is. -/
theorem operational_contains_lowercase {attr : String} (h : Text.hasAsciiUpper attr = false) :
    operational.contains (Text.lowercase attr) = operational.contains attr := by
  rw [Bool.eq_iff_iff, List.contains_iff_mem, List.contains_iff_mem]
  constructor
  · intro hmem
    have hplain := Text.plain_of_own (operational_own _ hmem)
    rwa [hplain.lowercase_of_noUpper h] at hmem
  · intro hmem
    rwa [Text.lowercase_of_own (operational_own _ hmem)]

/-- Whether the server maintains an attribute does not depend on how its name is spelt. -/
theorem isUser_lowercase (attr : String) : isUser (Text.lowercase attr) = isUser attr := by
  rw [isUser, Text.lowercase_hasNoUpper, if_neg Bool.false_ne_true, isUser]
  cases h : Text.hasAsciiUpper attr with
  | true => rw [if_pos rfl]
  | false => rw [if_neg Bool.false_ne_true, operational_contains_lowercase h]

end Attribute

-- ── Reading and writing ──────────────────────────────────────────────────────────

namespace Attributes

variable {attrs : Attributes} {attr : String}

/-- What is held after a set of values has been put under a name: nothing if it is
    empty. -/
def heldSet? (vs : ValueSet) : Option ValueSet := if vs.isEmpty then none else some vs

/-- What has been put under an attribute is held there, if it is not empty. -/
theorem get?_put_self (attrs : Attributes) (attr : String) (vs : ValueSet) :
    (attrs.put attr vs).get? attr = heldSet? vs := by
  rw [put, heldSet?]
  split
  · exact attrs.get?_erase_self attr
  · exact attrs.get?_insert_self attr vs

/-- Adding one value inserts it, as it is held, into those there are. -/
theorem get?_addValues_singleton (attrs : Attributes) (attr v : String) :
    (attrs.addValues attr [v]).get? attr
      = some ((attrs.valuesAt attr).insert (heldValue attr v)) := by
  have hput : attrs.addValues attr [v]
      = attrs.put attr ((attrs.valuesAt attr).insert (heldValue attr v)) := rfl
  rw [hput, get?_put_self, heldSet?, OrdSet.isEmpty_insert, if_neg Bool.false_ne_true]

/-- Removing a value leaves those that differ from it by more than case. -/
theorem get?_removeValue_self (attrs : Attributes) (attr v : String) :
    (attrs.removeValue attr v).1.get? attr
      = heldSet? ((attrs.valuesAt attr).filter fun w => !Text.sameIgnoringAsciiCase w v) := by
  rw [removeValue, valuesAt]
  split
  · next hnone =>
    rw [hnone]
    rfl
  · next vs hsome =>
    rw [get?_put_self, hsome]
    rfl

/-- An attribute that is read in lower case is found where it is written. -/
theorem values?_of_readLower (attrs : Attributes) (h : Attribute.ReadLower attr) :
    attrs.values? attr = attrs.get? (Text.lowercase attr) := by
  rw [values?_eq, (Attribute.readLower_iff attr).mp h]

/-- Under a spelling that is not read under its lower case nothing is read, since no name
    is held that is not its own lower case. -/
theorem RulesKept.values?_eq_none (h : attrs.RulesKept) (hattr : ¬Attribute.ReadLower attr) :
    attrs.values? attr = none := by
  rw [Attribute.ReadLower, not_or, Bool.not_eq_true] at hattr
  rw [values?_of_noUpper attrs hattr.1, Option.eq_none_iff_forall_ne_some]
  intro vs hget
  exact hattr.2 (h.lower attr vs hget)

end Attributes

namespace Entry

/-- Under a spelling an entry shows what is held under the lower case of it. -/
structure ReadsHeld (e : Entry) (attr : String) : Prop where
  values : e.values? attr = e.attrs.get? (Text.lowercase attr)
  has : e.has attr = e.attrs.contains (Text.lowercase attr)
  holds : ∀ v, e.holds attr v
    = (e.attrs.valuesAt (Text.lowercase attr)).any fun w => Text.sameIgnoringAsciiCase w v
  count : e.valueCount attr = (e.attrs.valuesAt (Text.lowercase attr)).size

/-- Under a spelling an entry shows what was written to it under the same spelling. -/
structure ReadsWritten (e : Entry) (attr : String) : Prop where
  added : ∀ v, (e.addAva attr v).values? attr
    = some ((e.attrs.valuesAt (Text.lowercase attr)).insert
        (Attributes.heldValue (Text.lowercase attr) v))
  set : ∀ vs, (e.setAva attr vs).values? attr
    = Attributes.heldSet?
        (OrdSet.ofList (vs.map (Attributes.heldValue (Text.lowercase attr))))
  removed : ∀ v, (e.removeAva attr v).values? attr
    = Attributes.heldSet? ((e.attrs.valuesAt (Text.lowercase attr)).filter
        fun w => !Text.sameIgnoringAsciiCase w v)
  purged : (e.purgeAva attr).values? attr = none

variable {attr : String}

theorem values?_of_readLower (e : Entry) (h : Attribute.ReadLower attr) :
    e.values? attr = e.attrs.get? (Text.lowercase attr) :=
  e.attrs.values?_of_readLower h

/-- All reads of an attribute that is read in lower case tell what is held in lower case. -/
theorem readsHeld_of_readLower (e : Entry) (h : Attribute.ReadLower attr) :
    e.ReadsHeld attr := by
  have hvalues := e.values?_of_readLower h
  have hattrs : e.attrs.values? attr = e.attrs.get? (Text.lowercase attr) := hvalues
  constructor
  · exact hvalues
  · rw [has, hvalues]
    rfl
  · intro v
    rw [holds, Attributes.holds, hattrs, Attributes.valuesAt]
    cases e.attrs.get? (Text.lowercase attr) <;> rfl
  · rw [valueCount, hvalues, Attributes.valuesAt]
    cases e.attrs.get? (Text.lowercase attr) <;> rfl

/-- What has been written under an attribute that is read in lower case is read. -/
theorem readsWritten_of_readLower (e : Entry) (h : Attribute.ReadLower attr) :
    e.ReadsWritten attr := by
  constructor
  · intro v
    rw [values?_of_readLower _ h]
    exact Attributes.get?_addValues_singleton ..
  · intro vs
    rw [values?_of_readLower _ h]
    exact Attributes.get?_put_self ..
  · intro v
    rw [values?_of_readLower _ h]
    exact Attributes.get?_removeValue_self ..
  · rw [values?_of_readLower _ h]
    exact OrdMap.get?_erase_self ..

/-- Under a name that is not read in lower case no entry that is built has anything. -/
theorem Built.values?_eq_none {e : Entry} (he : e.Built) (h : ¬Attribute.ReadLower attr) :
    e.values? attr = none :=
  he.rulesKept.values?_eq_none h

/-- A value that is added under a spelling is read under it only if the spelling is read
    under its lower case. -/
theorem readLower_of_addAva {e : Entry} (he : e.Built) {v : String}
    (h : (e.addAva attr v).values? attr ≠ none) : Attribute.ReadLower attr := by
  refine Decidable.by_contra fun hattr => h ?_
  exact (he.edited (.addAva attr v)).values?_eq_none hattr

end Entry

-- ── Filters ──────────────────────────────────────────────────────────────────────

namespace Filter

mutual

/-- The names a condition asks for, as they are spelt in it. -/
def names : Filter → List String
  | equality attr _ => [attr]
  | presence attr => [attr]
  | conjunction fs => namesAll fs
  | disjunction fs => namesAll fs
  | negation f => names f

/-- The names that a list of conditions asks for. -/
def namesAll : List Filter → List String
  | [] => []
  | f :: fs => names f ++ namesAll fs

end

mutual

/-- The same condition with all names in lower case. -/
def lowered : Filter → Filter
  | equality attr value => holding attr value
  | presence attr => having attr
  | conjunction fs => conjunction (loweredAll fs)
  | disjunction fs => disjunction (loweredAll fs)
  | negation f => negation (lowered f)

/-- The same conditions with all names in lower case. -/
def loweredAll : List Filter → List Filter
  | [] => []
  | f :: fs => lowered f :: loweredAll fs

end

variable {e : Entry}

mutual

/-- A condition whose names are read under their lower case is met as it is when they are
    in lower case. -/
theorem isMetBy_lowered :
    ∀ {f : Filter}, (∀ a ∈ f.names, Attribute.ReadLower a) →
      f.lowered.isMetBy e = f.isMetBy e
  | equality attr value, h => by
      have hread := e.readsHeld_of_readLower (h attr (List.mem_singleton_self attr))
      have hlower := e.readsHeld_of_readLower (Attribute.readLower_lowercase attr)
      rw [lowered, holding, isMetBy, isMetBy, hread.holds, hlower.holds,
        Text.lowercase_lowercase]
  | presence attr, h => by
      have hread := e.readsHeld_of_readLower (h attr (List.mem_singleton_self attr))
      have hlower := e.readsHeld_of_readLower (Attribute.readLower_lowercase attr)
      rw [lowered, having, isMetBy, isMetBy, hread.has, hlower.has, Text.lowercase_lowercase]
  | conjunction _, h => (allMetBy_lowered h).1
  | disjunction _, h => (allMetBy_lowered h).2
  | negation _, h => congrArg (!·) (isMetBy_lowered h)

/-- All filters of a list are met alike in lower case, and so are some of them. -/
theorem allMetBy_lowered :
    ∀ {fs : List Filter}, (∀ a ∈ namesAll fs, Attribute.ReadLower a) →
      allMetBy e (loweredAll fs) = allMetBy e fs
        ∧ someMetBy e (loweredAll fs) = someMetBy e fs
  | [], _ => ⟨rfl, rfl⟩
  | f :: fs, h => by
      rw [namesAll, List.forall_mem_append] at h
      rw [loweredAll, allMetBy, allMetBy, someMetBy, someMetBy, isMetBy_lowered h.1,
        (allMetBy_lowered h.2).1, (allMetBy_lowered h.2).2]
      exact ⟨rfl, rfl⟩

end

end Filter

-- ── All spellings ────────────────────────────────────────────────────────────────

/-- **WHAT IS READ UNDER A SPELLING**: the spellings of a set are all read under their lower
    case exactly if every entry that has been made shows under each of them what is held
    under its lower case and what was written under it, and meets every filter with such
    names as it meets the filter with its names in lower case.  Every ASCII spelling is read
    so, and under a spelling that is not no such entry shows anything.  Whether the server
    maintains an attribute is decided alike for a spelling and its lower case. -/
theorem spellings_read_as_written_iff (spelt : String → Prop) :
    ((∀ a, spelt a → Attribute.ReadLower a)
        ↔ ∀ e : Entry, e.Built →
          (∀ a, spelt a → e.ReadsHeld a ∧ e.ReadsWritten a)
            ∧ ∀ f : Filter, (∀ a ∈ f.names, spelt a) → f.isMetBy e = f.lowered.isMetBy e)
      ∧ (∀ a, (∀ c ∈ a.toList, c.toNat < 0x80) → Attribute.ReadLower a)
      ∧ (∀ a, ¬Attribute.ReadLower a → ∀ e : Entry, e.Built → e.values? a = none)
      ∧ ∀ a, Attribute.isUser a = Attribute.isUser (Text.lowercase a) := by
  refine ⟨⟨fun h e _ => ⟨fun a ha => ?_, fun f hf => ?_⟩, fun h a ha => ?_⟩,
    fun a => Attribute.readLower_of_ascii, fun a ha e he => he.values?_eq_none ha,
    fun a => (Attribute.isUser_lowercase a).symm⟩
  · exact ⟨e.readsHeld_of_readLower (h a ha), e.readsWritten_of_readLower (h a ha)⟩
  · exact (Filter.isMetBy_lowered fun a ha => h a (hf a ha)).symm
  · -- a value added to an entry without attributes shows whether the spelling is read
    have hroot : (Entry.named Dn.root).Built := .named Dn.root
    have hwritten := ((h _ hroot).1 a ha).2
    refine Entry.readLower_of_addAva (v := "") hroot ?_
    rw [hwritten.added]
    exact Option.some_ne_none _

/-- An entry to which a value is added under a spelling. -/
def oneValueUnder (attr : String) : Entry := (Entry.named Dn.root).addAva attr "x"

theorem built_oneValueUnder (attr : String) : (oneValueUnder attr).Built :=
  (Entry.Built.named Dn.root).edited (.addAva attr "x")

/-- One ASCII capital is enough for a value to be read under the spelling it was added
    under. -/
theorem capital_spelling_read :
    Attribute.ReadLower "ÉTÉ"
      ∧ (oneValueUnder "ÉTÉ").ReadsHeld "ÉTÉ"
      ∧ (oneValueUnder "ÉTÉ").valueCount "ÉTÉ" = 1
      ∧ (oneValueUnder "ÉTÉ").valueCount "été" = 1 := by
  have hread : Attribute.ReadLower "ÉTÉ" := by decide +kernel
  obtain ⟨hspellings, -⟩ := spellings_read_as_written_iff fun a => a = "ÉTÉ"
  obtain ⟨hshown, -⟩ :=
    hspellings.mp (fun a ha => ha ▸ hread) (oneValueUnder "ÉTÉ") (built_oneValueUnder "ÉTÉ")
  exact ⟨hread, (hshown "ÉTÉ" rfl).1, by decide +kernel, by decide +kernel⟩

/-- A value added under an accented capital is held under the small letter, where it is
    read, but it is not read under the spelling it was added under. -/
theorem accented_spelling_not_read :
    (oneValueUnder "É").Built
      ∧ (oneValueUnder "É").attrs.get? (Text.lowercase "É") = some (OrdSet.ofList ["x"])
      ∧ (oneValueUnder "É").values? "É" = none
      ∧ (oneValueUnder "É").has "É" = false
      ∧ (Filter.equality "É" "x").isMetBy (oneValueUnder "É") = false
      ∧ (Filter.equality "é" "x").isMetBy (oneValueUnder "É") = true :=
  ⟨built_oneValueUnder "É", by decide +kernel, by decide +kernel,
    by decide +kernel, by decide +kernel, by decide +kernel⟩

end DirectoryAccess
