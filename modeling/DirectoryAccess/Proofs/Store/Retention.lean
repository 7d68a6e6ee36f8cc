import DirectoryAccess.Proofs.Entry.Alike
import DirectoryAccess.Proofs.Entry.Rules
import DirectoryAccess.Proofs.Store.Projection

/-! # Retention — modifications that take nothing of an attribute away

    A list of modifications RETAINS an attribute of an entry if none of its values is ever
    missing along the list, and the attribute is never there if the entry does not have
    it.  Nothing that storage could object to is then about these values: it says the same
    of the list for two entries that are alike but for the attribute, if the list retains
    it in both. -/

namespace DirectoryAccess

namespace Attributes

/-- A value that a modification leaves in a set is left in every set that holds it. -/
theorem contains_valuesAfter {values values' : ValueSet} {v : String}
    (h : values.contains v = true → values'.contains v = true) (m : Modification)
    (hv : (valuesAfter values m).contains v = true) :
    (valuesAfter values' m).contains v = true := by
  cases m with
  | add attr vs =>
      rw [valuesAfter, OrdSet.contains_insertAll] at hv ⊢
      exact hv.imp_right h
  | remove attr vs =>
      cases vs with
      | nil => cases hv
      | cons u rest =>
          rw [OrdSet.contains_iff_mem, OrdSet.contains_iff_mem] at h
          rw [valuesAfter, OrdSet.contains_iff_mem, mem_foldl_filter] at hv ⊢
          · exact ⟨h hv.1, hv.2⟩
          · exact List.cons_ne_nil u rest
          · exact List.cons_ne_nil u rest
  | replace attr vs => exact hv

/-- Storage refuses to remove values for one reason only. -/
theorem removeEach_cases (attr : String) (values : List String) (attrs : Attributes) :
    (removeEach attr values attrs).2 = .ok ()
      ∨ (removeEach attr values attrs).2 = .error (.schemaViolation (.noSuchAttribute attr)) := by
  induction values generalizing attrs with
  | nil => exact Or.inl rfl
  | cons v rest ih =>
      rw [removeEach]
      split
      · exact ih _
      · exact Or.inr rfl

/-- What storage says of a modification is decided by whether it accepts it. -/
theorem modify_eq_of_accepts {attrs attrs' : Attributes} {m : Modification}
    (h : attrs.Accepts m ↔ attrs'.Accepts m) : (attrs.modify m).2 = (attrs'.modify m).2 := by
  rw [← modify_ok_iff, ← modify_ok_iff] at h
  have hrefused : ∃ cause, ∀ attrs : Attributes,
      (attrs.modify m).2 = .ok () ∨ (attrs.modify m).2 = .error cause := by
    cases m with
    | add attr values =>
        cases values with
        | nil => exact ⟨_, fun _ => Or.inr rfl⟩
        | cons v rest => exact ⟨.accessDenied, fun _ => Or.inl rfl⟩
    | remove attr values =>
        refine ⟨.schemaViolation (.noSuchAttribute (Text.lowercase attr)), fun attrs => ?_⟩
        cases values with
        | nil =>
            rw [modify]
            split
            · exact Or.inl rfl
            · exact Or.inr rfl
        | cons v rest => exact removeEach_cases _ (v :: rest) attrs
    | replace attr values => exact ⟨.accessDenied, fun _ => Or.inl rfl⟩
  obtain ⟨cause, hcause⟩ := hrefused
  rcases hcause attrs with hok | herror
  · rw [hok, h.mp hok]
  · rcases hcause attrs' with hok' | herror'
    · rw [hok', h.mpr hok']
    · rw [herror, herror']

end Attributes

namespace Entry

variable {a : String} {e e' view view' : Entry}

/-- A modification of another attribute leaves the values as they are. -/
theorem valuesAt_project_of_ne {m : Modification} (hm : Text.lowercase m.attr ≠ a) (e : Entry) :
    (e.project m).valuesAt a = e.valuesAt a :=
  congrArg (·.getD OrdSet.empty) (Attributes.get?_project_of_ne e.attrs m (Ne.symm hm))

-- ── Retaining an attribute ───────────────────────────────────────────────────────

/-- What has become of an entry holds each of its values of an attribute, and holds none
    if the entry does not. -/
structure Retains (a : String) (e view : Entry) : Prop where
  kept : ∀ v, (e.valuesAt a).contains v = true → (view.valuesAt a).contains v = true
  absent : (e.valuesAt a).isEmpty = true → (view.valuesAt a).isEmpty = true

theorem Retains.refl (a : String) (e : Entry) : Retains a e e := ⟨fun _ => id, id⟩

/-- Retaining does not look beyond the values of the attribute. -/
theorem Retains.congr {post : Entry} (h : e.Retains a view)
    (hsame : post.valuesAt a = view.valuesAt a) : e.Retains a post := by
  refine ⟨fun v hv => ?_, fun hnone => ?_⟩
  · rw [hsame]
    exact h.kept v hv
  · rw [hsame]
    exact h.absent hnone

/-- Neither does the first value come nor the last one go. -/
theorem Retains.isEmpty_iff (h : e.Retains a view) :
    (view.valuesAt a).isEmpty = true ↔ (e.valuesAt a).isEmpty = true := by
  refine ⟨fun hnone => ?_, h.absent⟩
  rw [← Bool.not_eq_false]
  intro hsome
  obtain ⟨v, hv⟩ := List.isEmpty_eq_false_iff_exists_mem.mp hsome
  have hheld := h.kept v ((OrdSet.contains_iff_mem _ v).mpr hv)
  rw [OrdSet.eq_empty_of_isEmpty hnone] at hheld
  cases hheld

/-- Each of a list of modifications leaves a projection that retains an attribute of the
    entry. -/
def RetainedBy (a : String) (e : Entry) : Entry → List Modification → Prop
  | _, [] => True
  | view, m :: rest => e.Retains a (view.project m) ∧ RetainedBy a e (view.project m) rest

/-- What a projection of an entry holds of an attribute is of the entry, or is in another
    projection as well. -/
def GainsWithin (a : String) (e view view' : Entry) : Prop :=
  ∀ v, (view.valuesAt a).contains v = true →
    (e.valuesAt a).contains v = true ∨ (view'.valuesAt a).contains v = true

/-- What two views gain stays within each other under a further modification. -/
theorem GainsWithin.project (h : GainsWithin a e view view') (ha : a ≠ Attribute.objectClass)
    (m : Modification) : GainsWithin a e (view.project m) (view'.project m) := by
  intro v hv
  by_cases hheld : (e.valuesAt a).contains v = true
  · exact Or.inl hheld
  have hcommon : (view.valuesAt a).contains v = true → (view'.valuesAt a).contains v = true :=
    fun hview => (h v hview).resolve_left hheld
  by_cases hm : Text.lowercase m.attr = a
  · have hafter : ∀ u : Entry, (u.project m).valuesAt a = Attributes.valuesAfter (u.valuesAt a) m :=
      fun u => Attributes.valuesAt_project u.attrs hm ha
    rw [hafter] at hv ⊢
    exact Or.inr (Attributes.contains_valuesAfter hcommon m hv)
  · rw [valuesAt_project_of_ne hm] at hv ⊢
    exact Or.inr (hcommon hv)

/-- Where no attribute is held without a value, an attribute that is there has one. -/
theorem exists_value_of_contains (hrules : e.attrs.RulesKept) (h : e.attrs.contains a = true) :
    (e.valuesAt a).isEmpty = false := by
  obtain ⟨vs, hvs⟩ := Option.isSome_iff_exists.mp h
  show ((e.attrs.get? a).getD OrdSet.empty).isEmpty = false
  rw [hvs]
  exact hrules.nonempty a vs hvs

/-- What storage accepts of an entry whose attribute is retained is about values that have
    come to it, so it accepts it wherever these are. -/
theorem Retains.accepts (hview : e.Retains a view) (hrules : view.attrs.RulesKept)
    (hgains : GainsWithin a e view view') (ha : a ≠ Attribute.objectClass) {m : Modification}
    (hm : Text.lowercase m.attr = a) (hpost : e.Retains a (view.project m))
    (h : view.attrs.Accepts m) : view'.attrs.Accepts m := by
  cases m with
  | add attr vs => exact h
  | remove attr vs =>
      have hname : Text.lowercase attr = a := hm
      have hafter : (view.project (.remove attr vs)).valuesAt a
          = Attributes.valuesAfter (view.valuesAt a) (.remove attr vs) :=
        Attributes.valuesAt_project view.attrs hm ha
      cases vs with
      | nil =>
          -- nothing is left, so nothing was held at the start, nor since
          have hnone : (view.valuesAt a).isEmpty = true := by
            rw [hview.isEmpty_iff, ← hpost.isEmpty_iff, hafter]
            rfl
          have hthere : view.attrs.contains (Text.lowercase attr) = true := h
          rw [hname] at hthere
          rw [exists_value_of_contains hrules hthere] at hnone
          cases hnone
      | cons r rest =>
          obtain ⟨hheld, hdistinct⟩ := h
          refine ⟨fun w hw => ?_, hdistinct⟩
          have hread := Text.lowercase_hasNoUpper attr
          obtain ⟨u, hu, hsame⟩ := (Attributes.holds_iff _ hread w).mp (hheld w hw)
          rw [hname] at hu
          refine (Attributes.holds_iff _ hread w).mpr ⟨u, ?_, hsame⟩
          rw [hname]
          have hcontained := (OrdSet.contains_iff_mem _ u).mpr hu
          refine (OrdSet.contains_iff_mem _ u).mp ((hgains u hcontained).resolve_left ?_)
          -- a value of the entry would be gone with this removal
          intro hown
          have hleft := hpost.kept u hown
          rw [hafter, Attributes.valuesAfter, OrdSet.contains_iff_mem,
            Attributes.mem_foldl_filter] at hleft
          · rw [hleft.2 w hw] at hsame
            cases hsame
          · exact List.cons_ne_nil r rest
  | replace attr vs => trivial

-- ── Two entries side by side ─────────────────────────────────────────────────────

/-- Two projections, each of which retains an attribute of its entry, are alike but for the
    attribute, and what has come to it is in both. -/
structure Abreast (a : String) (e e' view view' : Entry) : Prop where
  alike : view.AlikeBut a view'
  rules : view.attrs.RulesKept
  rules' : view'.attrs.RulesKept
  gains : GainsWithin a e view view'
  gains' : GainsWithin a e' view' view
  retained : e.Retains a view
  retained' : e'.Retains a view'

/-- Entries that are alike start abreast. -/
theorem Abreast.start (halike : e.AlikeBut a e') (hrules : e.attrs.RulesKept)
    (hrules' : e'.attrs.RulesKept) : Abreast a e e' e e' where
  alike := halike
  rules := hrules
  rules' := hrules'
  gains _ := Or.inl
  gains' _ := Or.inl
  retained := .refl a e
  retained' := .refl a e'

section

variable (h : Abreast a e e' view view') (ha : a ≠ Attribute.objectClass) {m : Modification}
  (hm : e.Retains a (view.project m)) (hm' : e'.Retains a (view'.project m))

include h ha hm hm'

theorem Abreast.project : Abreast a e e' (view.project m) (view'.project m) where
  alike := h.alike.project m
  rules := h.rules.project m
  rules' := h.rules'.project m
  gains := h.gains.project ha m
  gains' := h.gains'.project ha m
  retained := hm
  retained' := hm'

/-- Storage says the same of a modification that retains the attribute in both. -/
theorem Abreast.modify_eq : (view.attrs.modify m).2 = (view'.attrs.modify m).2 := by
  by_cases habout : Text.lowercase m.attr = a
  · refine Attributes.modify_eq_of_accepts ⟨fun haccepts => ?_, fun haccepts => ?_⟩
    · exact h.retained.accepts h.rules h.gains ha habout hm haccepts
    · exact h.retained'.accepts h.rules' h.gains' ha habout hm' haccepts
  · exact Attributes.modify_congr m (h.alike.get?_eq _ habout)

end

/-- Storage says the same of modifications that retain the attribute in both. -/
theorem Abreast.modifyAll_eq (h : Abreast a e e' view view') (ha : a ≠ Attribute.objectClass)
    {mods : List Modification} (hmods : RetainedBy a e view mods)
    (hmods' : RetainedBy a e' view' mods) :
    (view.modifyAll mods).map (fun _ => ()) = (view'.modifyAll mods).map fun _ => () := by
  induction mods generalizing view view' with
  | nil => rfl
  | cons m rest ih =>
      obtain ⟨hm, hrest⟩ := hmods
      obtain ⟨hm', hrest'⟩ := hmods'
      have hverdict := h.modify_eq ha hm hm'
      cases hresult : (view'.attrs.modify m).2 with
      | error cause =>
          rw [hresult] at hverdict
          simp only [modifyAll, modify, hverdict, hresult]
      | ok u =>
          rw [hresult] at hverdict
          simp only [modifyAll, modify, hverdict, hresult, Attributes.modify_ok hverdict,
            Attributes.modify_ok hresult]
          exact ih (h.project ha hm hm') hrest hrest'

end Entry

end DirectoryAccess
