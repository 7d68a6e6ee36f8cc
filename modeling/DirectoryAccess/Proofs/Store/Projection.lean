import DirectoryAccess.Proofs.Authorization.Modification
import DirectoryAccess.Proofs.Name.Carry
import DirectoryAccess.Proofs.Store.Memory

/-! # Projections in store — what is authorized is what is stored

    Authorization looks at projections, which go through in any case, while storage
    refuses a modification that adds nothing or takes away what is not there.  Where
    it refuses none of a list, each of them has left what its projection says, so what
    is stored in the end is the last of the projections.  Which modifications are
    refused can be told from what the projection before them holds. -/

namespace DirectoryAccess

-- ── One attribute ────────────────────────────────────────────────────────────────

namespace Attributes

variable {attr : String}

/-- A name without ASCII capitals is asked for a value under itself. -/
theorem holds_iff (attrs : Attributes) (h : Text.hasAsciiUpper attr = false) (value : String) :
    attrs.holds attr value = true
      ↔ ∃ v ∈ (attrs.valuesAt attr).toList, Text.sameIgnoringAsciiCase v value = true := by
  rw [holds, values?_of_noUpper attrs h, valuesAt]
  cases attrs.get? attr with
  | none => simp [OrdSet.empty]
  | some vs => exact List.any_eq_true

/-- Removing a value keeps the others. -/
theorem valuesAt_removeValue (attrs : Attributes) (attr value : String) :
    (attrs.removeValue attr value).1.valuesAt attr
      = (attrs.valuesAt attr).filter fun v => !Text.sameIgnoringAsciiCase v value := by
  rw [removeValue]
  cases hvs : attrs.get? attr with
  | none =>
      rw [valuesAt, hvs]
      rfl
  | some vs =>
      rw [valuesAt_put_self, valuesAt, hvs]
      rfl

/-- Removing a value says whether it was held. -/
theorem removeValue_iff (attrs : Attributes) (h : Text.hasAsciiUpper attr = false)
    (value : String) : (attrs.removeValue attr value).2 = true ↔ attrs.holds attr value = true := by
  rw [holds_iff attrs h, removeValue, valuesAt]
  cases attrs.get? attr with
  | none => simp [OrdSet.empty]
  | some vs =>
      show (vs.toList.filter _).length != vs.toList.length ↔ _
      rw [bne_iff_ne, ne_eq, List.length_filter_eq_length_iff]
      simp

/-- A value is held after another has been removed if it was before and is not the same
    but for case. -/
theorem holds_removeValue (attrs : Attributes) (h : Text.hasAsciiUpper attr = false)
    (value w : String) :
    (attrs.removeValue attr value).1.holds attr w = true
      ↔ attrs.holds attr w = true ∧ Text.sameIgnoringAsciiCase value w = false := by
  rw [holds_iff _ h, holds_iff attrs h, valuesAt_removeValue]
  simp only [OrdSet.filter, List.mem_filter, Bool.not_eq_true', Text.sameIgnoringAsciiCase,
    beq_iff_eq, beq_eq_false_iff_ne]
  constructor
  · rintro ⟨v, ⟨hv, hother⟩, hsame⟩
    exact ⟨⟨v, hv, hsame⟩, hsame ▸ Ne.symm hother⟩
  · rintro ⟨⟨v, hv, hsame⟩, hother⟩
    exact ⟨v, ⟨hv, hsame ▸ Ne.symm hother⟩, hsame⟩

/-- Values are removed one after the other if all are held and no two are the same but for
    case. -/
theorem removeEach_ok_iff (attrs : Attributes) (h : Text.hasAsciiUpper attr = false)
    (values : List String) :
    (removeEach attr values attrs).2 = .ok ()
      ↔ (∀ v ∈ values, attrs.holds attr v = true)
        ∧ values.Pairwise fun v w => Text.sameIgnoringAsciiCase v w = false := by
  induction values generalizing attrs with
  | nil => simp [removeEach]
  | cons v rest ih =>
      have hthere := removeValue_iff attrs h v
      have hleft := holds_removeValue attrs h v
      rw [removeEach, List.forall_mem_cons, List.pairwise_cons, ← hthere]
      revert hleft
      rcases attrs.removeValue attr v with ⟨kept, there⟩
      intro hleft
      cases there with
      | false => simp
      | true =>
          simp only [ih, hleft, true_and, forall₂_and, and_assoc]

/-- Storage accepts a modification of these attributes: an addition of some value, the
    removal of an attribute that is there, or of values that are held and of which no two are
    the same but for case, and every replacement. -/
def Accepts (attrs : Attributes) : Modification → Prop
  | .add _ values => values ≠ []
  | .remove attr [] => attrs.contains (Text.lowercase attr) = true
  | .remove attr (v :: rest) =>
      (∀ w ∈ v :: rest, attrs.holds (Text.lowercase attr) w = true)
        ∧ (v :: rest).Pairwise fun w w' => Text.sameIgnoringAsciiCase w w' = false
  | .replace _ _ => True

instance (attrs : Attributes) : (m : Modification) → Decidable (attrs.Accepts m)
  | .add _ values => inferInstanceAs (Decidable (values ≠ []))
  | .remove _ [] => inferInstanceAs (Decidable (_ = true))
  | .remove _ (_ :: _) => inferInstanceAs (Decidable (_ ∧ _))
  | .replace _ _ => inferInstanceAs (Decidable True)

/-- Storage refuses the other modifications. -/
theorem modify_ok_iff (attrs : Attributes) (m : Modification) :
    (attrs.modify m).2 = .ok () ↔ attrs.Accepts m := by
  cases m with
  | add attr values => cases values <;> simp [modify, Accepts]
  | remove attr values =>
      cases values with
      | nil =>
          rw [modify, Accepts, Modification.attr]
          split
          · next h => simp [h]
          · next h => simp [h]
      | cons v rest => exact removeEach_ok_iff attrs (Text.lowercase_hasNoUpper attr) (v :: rest)
  | replace attr values => simp [modify, Accepts]

-- ── The values of one attribute ──────────────────────────────────────────────────

/-- The values of the attribute that a modification is about, after it. -/
def valuesAfter (values : ValueSet) : Modification → ValueSet
  | .add _ vs => values.insertAll vs
  | .remove _ [] => OrdSet.empty
  | .remove _ vs =>
      vs.foldl (fun kept v => kept.filter fun u => !Text.sameIgnoringAsciiCase u v) values
  | .replace _ vs => OrdSet.ofList vs

/-- Removing values one after the other keeps those that are the same as none of them. -/
theorem mem_foldl_filter (values : ValueSet) (vs : List String) (u : String) :
    u ∈ (vs.foldl (fun kept v =>
        OrdSet.filter (fun u => !Text.sameIgnoringAsciiCase u v) kept) values).toList
      ↔ u ∈ values.toList ∧ ∀ v ∈ vs, Text.sameIgnoringAsciiCase u v = false := by
  induction vs generalizing values with
  | nil => simp
  | cons v rest ih =>
      rw [List.foldl_cons, ih]
      show u ∈ values.toList.filter _ ∧ _ ↔ _
      simp [List.mem_filter, and_assoc]

/-- Removing several values leaves those that differ from each of them by more than case. -/
theorem valuesAt_foldl_removeValue (attrs : Attributes) (attr : String) (vs : List String) :
    (vs.foldl (fun as v => (as.removeValue attr v).1) attrs).valuesAt attr
      = vs.foldl (fun kept v => kept.filter fun u => !Text.sameIgnoringAsciiCase u v)
        (attrs.valuesAt attr) := by
  induction vs generalizing attrs with
  | nil => rfl
  | cons v rest ih => rw [List.foldl_cons, List.foldl_cons, ih, valuesAt_removeValue]

/-- What a modification makes of the values under the name it is about, unless they are
    object classes, which are not held as they are given. -/
theorem valuesAt_project (attrs : Attributes) {m : Modification} {attr : String}
    (hattr : Text.lowercase m.attr = attr) (hother : attr ≠ Attribute.objectClass) :
    (attrs.project m).valuesAt attr = valuesAfter (attrs.valuesAt attr) m := by
  have hheld : ∀ vs : List String, vs.map (heldValue attr) = vs := by
    intro vs
    refine (List.map_congr_left fun v _ => ?_).trans (List.map_id vs)
    exact if_neg (mt beq_iff_eq.mp hother)
  cases m with
  | add n vs =>
      have hname : Text.lowercase n = attr := hattr
      show (attrs.addValues (Text.lowercase n) vs).valuesAt attr = _
      rw [hname, addValues, valuesAt_put_self, hheld vs]
      rfl
  | remove n vs =>
      have hname : Text.lowercase n = attr := hattr
      cases vs with
      | nil =>
          show (OrdMap.get? (attrs.erase (Text.lowercase n)) attr).getD OrdSet.empty = _
          rw [hname, OrdMap.get?_erase_self]
          rfl
      | cons v rest =>
          show ((v :: rest).foldl (fun as v => (as.removeValue (Text.lowercase n) v).1)
            attrs).valuesAt attr = _
          rw [hname]
          exact valuesAt_foldl_removeValue attrs attr (v :: rest)
  | replace n vs =>
      have hname : Text.lowercase n = attr := hattr
      show (attrs.replaceValues (Text.lowercase n) vs).valuesAt attr = _
      rw [hname, replaceValues, valuesAt_put_self, hheld vs]
      rfl

end Attributes

-- ── Lists of modifications ───────────────────────────────────────────────────────

namespace Entry

/-- Storage accepts each modification of a list in the projection that those before it
    left. -/
def AcceptsAll (e : Entry) : List Modification → Prop
  | [] => True
  | m :: rest => e.attrs.Accepts m ∧ (e.project m).AcceptsAll rest

instance decidableAcceptsAll (e : Entry) :
    (mods : List Modification) → Decidable (e.AcceptsAll mods)
  | [] => inferInstanceAs (Decidable True)
  | m :: rest =>
      have := decidableAcceptsAll (e.project m) rest
      inferInstanceAs (Decidable (_ ∧ _))

/-- A list of modifications goes through if each of them is accepted, and then leaves the
    last of the projections. -/
theorem modifyAll_ok_iff {e stored : Entry} {mods : List Modification} :
    e.modifyAll mods = .ok stored ↔ e.AcceptsAll mods ∧ stored = mods.foldl project e := by
  induction mods generalizing e with
  | nil => simp [modifyAll, AcceptsAll, eq_comm]
  | cons m rest ih =>
      have haccepts : (e.modify m).2 = .ok () ↔ e.attrs.Accepts m := e.attrs.modify_ok_iff m
      rw [modifyAll, AcceptsAll, List.foldl_cons, and_assoc, ← haccepts]
      cases hm : e.modify m with
      | mk e' result =>
          cases result with
          | error cause => simp
          | ok u =>
              rw [← modify_ok hm]
              simp only [ih, true_and]

end Entry

-- ── Storage ──────────────────────────────────────────────────────────────────────

namespace MemoryStore

/-- **WHAT IS AUTHORIZED IS WHAT IS STORED**: a list of modifications of a stored entry is
    accepted exactly if each of them is in the projection that those before it left; then the
    last of the projections is stored in the place of the entry, and nothing else changes; and
    that is the projection on which the check of the list has ended, whoever was checked and
    whichever tuples were in force. -/
theorem modify_stores_projection {s : MemoryStore} {dn : Dn} {e : Entry}
    (he : s.lookup dn = some e) (mods : List Modification) :
    ((∃ s', s.modify dn mods = .ok s') ↔ e.AcceptsAll mods)
      ∧ ∀ s', s.modify dn mods = .ok s' →
        s'.lookup dn = some (mods.foldl Entry.project e)
          ∧ (∀ x : Dn, x.same dn = false → s'.lookup x = s.lookup x)
          ∧ ∀ requester tuples view,
            checkModifications requester e tuples e mods = .ok view → s'.lookup dn = some view := by
  constructor
  · constructor
    · rintro ⟨s', h⟩
      obtain ⟨e', he', hall, -⟩ := modify_ok h
      obtain rfl := Option.some.inj (he.symm.trans he')
      exact (Entry.modifyAll_ok_iff.mp hall).1
    · intro haccepts
      have hall := Entry.modifyAll_ok_iff.mpr ⟨haccepts, rfl⟩
      have hentry : s.entries.get? dn = some e := he
      rw [modify, hentry]
      dsimp only
      rw [hall]
      exact ⟨_, rfl⟩
  · intro s' h
    obtain ⟨e', he', -, rfl⟩ := modify_ok h
    obtain rfl := Option.some.inj (he.symm.trans he')
    have hstored : (s.entries.insert dn (mods.foldl Entry.project e)).get? dn
        = some (mods.foldl Entry.project e) := OrdMap.get?_insert_self ..
    refine ⟨hstored, fun x hx => ?_, fun requester tuples view hview => ?_⟩
    · have hkey : x.key ≠ dn.key := by
        rw [← Bool.not_eq_true, Dn.same_iff] at hx
        exact hx
      exact (NameMap.get?_insert ..).trans (if_neg hkey)
    · rw [(checkModifications_ok hview).1]
      exact hstored

-- ── A clerk ──────────────────────────────────────────────────────────────────────

/-- The name of a clerk. -/
def clerkName : Dn := ⟨[⟨"uid", "clerk", by decide, by decide, by decide, by decide⟩]⟩

/-- The entry of the clerk, with two telephones. -/
def clerk : Entry :=
  ((Entry.named clerkName).addAva "uid" "clerk").setAva "phone" ["Desk", "Gate"]

/-- One telephone goes and another comes, and a title is given and taken back; names and
    values are spelt with capitals here and there. -/
def clerkChanges : List Modification :=
  [.remove "Phone" ["DESK"], .add "phone" ["Yard"], .replace "TITLE" ["Chief"],
    .remove "phone" ["gate"], .remove "title" ["chief"]]

/-- A store of the clerk alone. -/
def clerkStore : MemoryStore := ⟨[], OrdMap.empty.insert clerkName clerk⟩

/-- Everybody may add and remove what they like. -/
def clerkPolicy : AciTuple :=
  ⟨[.allUsers], .none, [.allUserAttributeTypesAndValues], OrdSet.ofList [.add, .remove], true, 0⟩

/-- Somebody who has shown nothing of themselves. -/
def passerBy : Requester := ⟨Dn.root, OrdSet.empty, .none⟩

/-- The clerk is stored as projected, without a title, which is also what a check of the list
    ends on; a list that goes on to take away the first telephone once more is refused. -/
theorem clerk_stored_as_projected :
    clerkStore.lookup clerkName = some clerk
      ∧ (∃ s' view, clerkStore.modify clerkName clerkChanges = .ok s'
        ∧ s'.lookup clerkName = some (clerk.setAva "phone" ["Yard"])
        ∧ checkModifications passerBy clerk [clerkPolicy] clerk clerkChanges = .ok view
        ∧ s'.lookup clerkName = some view)
      ∧ ¬∃ s', clerkStore.modify clerkName (clerkChanges ++ [.remove "phone" ["desk"]])
        = .ok s' := by
  have he : clerkStore.lookup clerkName = some clerk := rfl
  obtain ⟨haccepted, hstored⟩ := modify_stores_projection he clerkChanges
  obtain ⟨hrefused, -⟩ := modify_stores_projection he (clerkChanges ++ [.remove "phone" ["desk"]])
  obtain ⟨s', hs'⟩ := haccepted.mpr (by decide +kernel)
  obtain ⟨hlast, -, hchecked⟩ := hstored s' hs'
  have hview : checkModifications passerBy clerk [clerkPolicy] clerk clerkChanges
      = .ok (clerkChanges.foldl Entry.project clerk) := by rfl
  refine ⟨he, ⟨s', _, hs', hlast.trans ?_, hview, hchecked _ _ _ hview⟩, ?_⟩
  · decide +kernel
  · rw [hrefused]
    decide +kernel

end MemoryStore

end DirectoryAccess
