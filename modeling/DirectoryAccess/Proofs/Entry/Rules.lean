import DirectoryAccess.Entry.Ldif
import DirectoryAccess.Proofs.Entry.Attributes
import DirectoryAccess.Proofs.Text.Blank
import DirectoryAccess.Proofs.Text.Stability

/-! # Rules for entries — what every entry holds, whatever has been done to it

    Attribute names are held in lower case, no attribute is held without a value, and
    object classes are held in lower case and without blanks around them.  Everything that
    changes what is held does so in three ways: it takes a name away, it takes values away
    and the name with the last of them, or it puts values under a name in the form in which
    they are held.  So the rules are kept by every operation, also by one that is refused
    when it has done a part of its work.  Nor do the operations keep more: what follows the
    rules can be made by them. -/

namespace DirectoryAccess

namespace Attributes

-- ── Values as they are held ──────────────────────────────────────────────────────

/-- Classes are held trimmed and in lower case. -/
theorem heldValue_objectClass (v : String) :
    heldValue Attribute.objectClass v = Text.lowercase (Text.trim v) := by
  rw [heldValue, beq_self_eq_true, if_pos rfl]

/-- All other values are held as they are. -/
theorem heldValue_of_ne {attr : String} (h : attr ≠ Attribute.objectClass) (v : String) :
    heldValue attr v = v := by
  rw [heldValue, beq_eq_false_iff_ne.mpr h, if_neg Bool.false_ne_true]

/-- A value that is held is not changed when it is put there again. -/
theorem heldValue_heldValue (attr v : String) :
    heldValue attr (heldValue attr v) = heldValue attr v := by
  by_cases h : attr = Attribute.objectClass
  · rw [h, heldValue_objectClass, heldValue_objectClass,
      Text.trim_lowercase (Text.trim_trim v), Text.lowercase_lowercase]
  · rw [heldValue_of_ne h]

-- ── The rules ────────────────────────────────────────────────────────────────────

/-- What may be held under a name. -/
structure MayHold (attr : String) (vs : ValueSet) : Prop where
  lower : Text.lowercase attr = attr
  nonempty : vs.isEmpty = false
  values : ∀ v ∈ vs.toList, heldValue attr v = v

/-- The rules: no attribute is held without a value, every name is its own lower case, and
    every object class is its own lower case without blanks around it. -/
structure RulesKept (attrs : Attributes) : Prop where
  nonempty : ∀ a vs, attrs.get? a = some vs → vs.isEmpty = false
  lower : ∀ a vs, attrs.get? a = some vs → Text.lowercase a = a
  classes : ∀ vs, attrs.get? Attribute.objectClass = some vs →
    ∀ v ∈ vs.toList, Text.lowercase (Text.trim v) = v

/-- The rules are about each attribute by itself. -/
theorem rulesKept_iff (attrs : Attributes) :
    attrs.RulesKept ↔ ∀ a vs, attrs.get? a = some vs → MayHold a vs := by
  constructor
  · intro h a vs hget
    refine ⟨h.lower a vs hget, h.nonempty a vs hget, fun v hv => ?_⟩
    by_cases ha : a = Attribute.objectClass
    · subst ha
      rw [heldValue_objectClass]
      exact h.classes vs hget v hv
    · exact heldValue_of_ne ha v
  · intro h
    refine ⟨fun a vs hget => (h a vs hget).nonempty, fun a vs hget => (h a vs hget).lower, ?_⟩
    intro vs hget v hv
    rw [← heldValue_objectClass]
    exact (h _ vs hget).values v hv

/-- What is found under an attribute is what it may hold. -/
theorem RulesKept.mayHold {attrs : Attributes} (h : attrs.RulesKept) {a : String}
    {vs : ValueSet} (hget : attrs.get? a = some vs) : MayHold a vs :=
  (rulesKept_iff attrs).mp h a vs hget

theorem rulesKept_empty : RulesKept OrdMap.empty :=
  (rulesKept_iff _).mpr nofun

-- ── What keeps them ──────────────────────────────────────────────────────────────

/-- Taking a name away keeps the rules. -/
theorem RulesKept.erase {attrs : Attributes} (h : attrs.RulesKept) (attr : String) :
    RulesKept (attrs.erase attr) := by
  refine (rulesKept_iff _).mpr fun a vs hget => h.mayHold ?_
  rw [OrdMap.get?_erase] at hget
  split at hget
  · cases hget
  · exact hget

/-- Putting values under a name in lower case keeps the rules if they are in the form in
    which they are held. -/
theorem RulesKept.put {attrs : Attributes} (h : attrs.RulesKept) {attr : String}
    {vs : ValueSet} (hlower : Text.lowercase attr = attr)
    (hvalues : ∀ v ∈ vs.toList, heldValue attr v = v) : RulesKept (attrs.put attr vs) := by
  rw [Attributes.put]
  split
  · exact h.erase attr
  · next hempty =>
    refine (rulesKept_iff _).mpr fun a ws hget => ?_
    rw [OrdMap.get?_insert] at hget
    split at hget
    · next ha =>
      rw [Std.LawfulEqCmp.eq_of_compare ha, ← Option.some.inj hget]
      exact ⟨hlower, Bool.not_eq_true _ ▸ hempty, hvalues⟩
    · exact h.mayHold hget

/-- The values that a name held before are in the form in which they are held. -/
theorem RulesKept.held {attrs : Attributes} (h : attrs.RulesKept) {attr v : String}
    (hv : v ∈ ((attrs.get? attr).getD OrdSet.empty).toList) : heldValue attr v = v := by
  cases hget : attrs.get? attr with
  | none =>
      rw [hget] at hv
      cases hv
  | some vs =>
      rw [hget] at hv
      exact (h.mayHold hget).values v hv

/-- What has been made ready to be held is held as it is. -/
theorem heldValue_of_mem_map {attr v : String} {values : List String}
    (h : v ∈ values.map (heldValue attr)) : heldValue attr v = v := by
  obtain ⟨w, -, rfl⟩ := List.mem_map.mp h
  exact heldValue_heldValue attr w

/-- Adding values keeps the rules. -/
theorem RulesKept.addValues {attrs : Attributes} (h : attrs.RulesKept) {attr : String}
    (hlower : Text.lowercase attr = attr) (values : List String) :
    RulesKept (attrs.addValues attr values) := by
  refine h.put hlower fun v hv => ?_
  rcases OrdSet.mem_insertAll hv with hnew | hold
  · exact heldValue_of_mem_map hnew
  · exact h.held hold

/-- Replacing the values of an attribute keeps the rules. -/
theorem RulesKept.replaceValues {attrs : Attributes} (h : attrs.RulesKept) {attr : String}
    (hlower : Text.lowercase attr = attr) (values : List String) :
    RulesKept (attrs.replaceValues attr values) :=
  h.put hlower fun _ hv => heldValue_of_mem_map (OrdSet.mem_of_mem_ofList hv)

/-- Removing a value keeps the rules. -/
theorem RulesKept.removeValue {attrs : Attributes} (h : attrs.RulesKept) (attr value : String) :
    RulesKept (attrs.removeValue attr value).1 := by
  rw [Attributes.removeValue]
  split
  · exact h
  · next vs hget =>
    have hheld := h.mayHold hget
    exact h.put hheld.lower fun v hv => hheld.values v (List.mem_filter.mp hv).1

/-- Removing values one after the other keeps the rules wherever it stops. -/
theorem RulesKept.removeEach {attrs : Attributes} (h : attrs.RulesKept) (attr : String)
    (values : List String) : RulesKept (Attributes.removeEach attr values attrs).1 := by
  induction values generalizing attrs with
  | nil => exact h
  | cons v rest ih =>
      have hstep := h.removeValue attr v
      rw [Attributes.removeEach]
      split
      · next kept hkept =>
        rw [hkept] at hstep
        exact ih hstep
      · next kept hkept =>
        rw [hkept] at hstep
        exact hstep

/-- Removing several values keeps the rules. -/
theorem RulesKept.foldl_removeValue {attrs : Attributes} (h : attrs.RulesKept) (attr : String)
    (values : List String) :
    RulesKept (values.foldl (fun as v => (as.removeValue attr v).1) attrs) := by
  induction values generalizing attrs with
  | nil => exact h
  | cons v rest ih => exact ih (h.removeValue attr v)

/-- A modification that goes through in any case keeps the rules. -/
theorem RulesKept.project {attrs : Attributes} (h : attrs.RulesKept) (m : Modification) :
    RulesKept (attrs.project m) := by
  cases m with
  | add attr vs => exact h.addValues (Text.lowercase_lowercase attr) vs
  | remove attr vs =>
      cases vs with
      | nil => exact h.erase _
      | cons v rest => exact h.foldl_removeValue _ (v :: rest)
  | replace attr vs => exact h.replaceValues (Text.lowercase_lowercase attr) vs

/-- A modification keeps the rules, also if it is refused on the way. -/
theorem RulesKept.modify {attrs : Attributes} (h : attrs.RulesKept) (m : Modification) :
    RulesKept (attrs.modify m).1 := by
  cases m with
  | add attr vs =>
      cases vs with
      | nil => exact h
      | cons v rest => exact h.addValues (Text.lowercase_lowercase attr) (v :: rest)
  | remove attr vs =>
      cases vs with
      | nil =>
          rw [Attributes.modify]
          split
          · exact h.erase _
          · exact h
      | cons v rest => exact h.removeEach _ (v :: rest)
  | replace attr vs => exact h.replaceValues (Text.lowercase_lowercase attr) vs

/-- Leaving out what a test does not allow keeps the rules. -/
theorem RulesKept.reduce {attrs : Attributes} (h : attrs.RulesKept)
    (allow : String → Option String → Bool) : RulesKept (attrs.reduce allow) := by
  refine (rulesKept_iff _).mpr fun a kept hget => ?_
  rw [Attributes.reduce, OrdMap.get?_filterMap] at hget
  obtain ⟨vs, hvs, hkept⟩ := Option.bind_eq_some_iff.mp hget
  have hheld := h.mayHold hvs
  split at hkept
  · simp only at hkept
    split at hkept
    · cases hkept
    · next hempty =>
      rw [← Option.some.inj hkept]
      exact ⟨hheld.lower, Bool.not_eq_true _ ▸ hempty,
        fun v hv => hheld.values v (List.mem_filter.mp hv).1⟩
  · cases hkept

end Attributes

-- ── Entries that have been made ──────────────────────────────────────────────────

/-- One way in which an entry, or a projection of one, is made from another. -/
inductive EntryEdit where
  | addAva (attr value : String)
  | removeAva (attr value : String)
  | purgeAva (attr : String)
  | setAva (attr : String) (values : List String)
  | withDn (dn : Dn)
  /-- What a modification leaves that may be refused on the way. -/
  | modify (m : Modification)
  /-- What a modification leaves that goes through in any case. -/
  | project (m : Modification)
  | reduce (allow : String → Option String → Bool)
  | select (names : Option (List String))

namespace Entry

/-- The entry that is made. -/
def edited (e : Entry) : EntryEdit → Entry
  | .addAva attr value => e.addAva attr value
  | .removeAva attr value => e.removeAva attr value
  | .purgeAva attr => e.purgeAva attr
  | .setAva attr values => e.setAva attr values
  | .withDn dn => e.withDn dn
  | .modify m => (e.modify m).1
  | .project m => e.project m
  | .reduce allow => e.reduce allow
  | .select names => e.select names

/-- An entry that has been made of a name or of a record, and of what was made of that. -/
inductive Built : Entry → Prop where
  | named (dn : Dn) : Built (named dn)
  | ofLdif {text : String} {e : Entry} : Entry.ofLdif text = .ok e → Built e
  | edited {e : Entry} (edit : EntryEdit) : Built e → Built (e.edited edit)

/-- Whatever is made of an entry that follows the rules follows them. -/
theorem rulesKept_edited {e : Entry} (h : e.attrs.RulesKept) (edit : EntryEdit) :
    (e.edited edit).attrs.RulesKept := by
  cases edit with
  | addAva attr value => exact h.addValues (Text.lowercase_lowercase attr) [value]
  | removeAva attr value => exact h.removeValue _ value
  | purgeAva attr => exact h.erase _
  | setAva attr values => exact h.replaceValues (Text.lowercase_lowercase attr) values
  | withDn dn => exact h
  | modify m => exact h.modify m
  | project m => exact h.project m
  | reduce allow => exact h.reduce allow
  | select names =>
      cases names with
      | none => exact h
      | some names =>
          exact h.reduce fun attr _ => names.any fun n => Text.sameIgnoringAsciiCase n attr

/-- What was made of the value of a computation was made of a value that it gave. -/
theorem exists_of_bind_ok {ε α β : Type} {x : Except ε α} {f : α → Except ε β} {b : β}
    (h : x >>= f = .ok b) : ∃ a, x = .ok a ∧ f a = .ok b := by
  cases x with
  | error err => cases h
  | ok a => exact ⟨a, rfl, h⟩

/-- Adding the lines of a record one after the other keeps the rules. -/
theorem rulesKept_addLines {e e' : Entry} (h : e.attrs.RulesKept) {ls : List (List Char)}
    (hadd : Ldif.addLines e ls = .ok e') : e'.attrs.RulesKept := by
  induction ls generalizing e with
  | nil =>
      rw [← Except.ok.inj hadd]
      exact h
  | cons line rest ih =>
      obtain ⟨⟨attr, value⟩, -, hrest⟩ := exists_of_bind_ok hadd
      exact ih (rulesKept_edited h (.addAva attr value)) hrest

/-- An entry that is read of a record follows the rules. -/
theorem rulesKept_ofLdif {text : String} {e : Entry} (h : Entry.ofLdif text = .ok e) :
    e.attrs.RulesKept := by
  obtain ⟨lines, -, h⟩ := exists_of_bind_ok h
  cases lines with
  | nil => cases h
  | cons first rest =>
      obtain ⟨⟨attr, value⟩, -, h⟩ := exists_of_bind_ok h
      dsimp only at h
      split at h
      · obtain ⟨dn, -, hadd⟩ := exists_of_bind_ok h
        exact rulesKept_addLines (e := named dn) Attributes.rulesKept_empty hadd
      · cases h

/-- What has been made of a name or a record follows the rules. -/
theorem Built.rulesKept {e : Entry} (h : e.Built) : e.attrs.RulesKept := by
  induction h with
  | named dn => exact Attributes.rulesKept_empty
  | ofLdif h => exact rulesKept_ofLdif h
  | edited edit _ ih => exact rulesKept_edited ih edit

/-- Setting an attribute to values that may be held under its name puts them there. -/
theorem setAva_of_mayHold (e : Entry) {attr : String} {vs : ValueSet}
    (h : Attributes.MayHold attr vs) :
    e.setAva attr vs.toList = { e with attrs := e.attrs.insert attr vs } := by
  have hvalues : vs.toList.map (Attributes.heldValue attr) = vs.toList := by
    rw [List.map_congr_left h.values, List.map_id']
  have hset : OrdSet.ofList vs.toList = vs := OrdSet.ofList_eq fun _ => Iff.rfl
  rw [setAva, h.lower, Attributes.replaceValues, hvalues, hset, Attributes.put, h.nonempty,
    if_neg Bool.false_ne_true]

/-- What may be held can be put into an entry, attribute by attribute. -/
theorem Built.insertAll {dn : Dn} {attrs : Attributes} (h : Built ⟨dn, attrs⟩)
    {held : List (String × ValueSet)} (hheld : ∀ a ∈ held, Attributes.MayHold a.1 a.2) :
    Built ⟨dn, attrs.insertAll held⟩ := by
  induction held generalizing attrs with
  | nil => exact h
  | cons a rest ih =>
      obtain ⟨ha, hrest⟩ := List.forall_mem_cons.mp hheld
      have hset : Built (setAva ⟨dn, attrs⟩ a.1 a.2.toList) := h.edited (.setAva a.1 a.2.toList)
      rw [setAva_of_mayHold _ ha] at hset
      exact ih hset hrest

/-- **THE RULES HOLD ALWAYS**, and nothing else does: the entries and projections that can be
    made of a name or a record, by any sequence of operations, are exactly those in which no
    attribute is held without a value, every name is its own lower case and every object
    class is its own lower case without blanks around it. -/
theorem built_iff_rulesKept (e : Entry) : e.Built ↔ e.attrs.RulesKept := by
  refine ⟨Built.rulesKept, fun h => ?_⟩
  have hheld : ∀ a ∈ e.attrs.entries, Attributes.MayHold a.1 a.2 := fun a ha =>
    h.mayHold (OrdMap.get?_of_mem e.attrs ha)
  have hbuilt := (Built.named e.dn).insertAll hheld
  rw [OrdMap.insertAll_entries] at hbuilt
  exact hbuilt

end Entry

end DirectoryAccess
