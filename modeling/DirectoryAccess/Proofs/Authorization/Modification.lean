import DirectoryAccess.Authorization.Modification
import DirectoryAccess.Proofs.Entry.Attributes

/-! # Authorized modifications — no change without a grant

    A list of modifications is checked step by step, each against the projection
    that the ones before it left.  What the whole list changes is therefore granted
    at the step that changes it: a value is there at the end and was not there
    before, so some step made it appear.

    The check asks for the name as the requester spelt it, while the change is made
    under its lower case.  The two are the same name where the spelling is plain,
    and for every other spelling some change goes through that nobody granted. -/

namespace DirectoryAccess

-- ── One question under two spellings ─────────────────────────────────────────────

namespace AccessCheck

/-- Spellings between which no decision sees a difference. -/
structure SameQuestion (n n' : String) : Prop where
  compared : Text.asciiLower n = Text.asciiLower n'
  isUser : Attribute.isUser n = Attribute.isUser n'
  counted : ∀ e : Entry, e.valueCount n = e.valueCount n'

variable {n n' : String}

/-- Both spellings are named by the same sets. -/
theorem SameQuestion.names (h : SameQuestion n n') (attrs : OrdSet String) :
    names attrs n = names attrs n' := by
  have hf : (fun a => Text.sameIgnoringAsciiCase a n)
      = fun a => Text.sameIgnoringAsciiCase a n' := by
    funext a
    exact Text.sameIgnoringAsciiCase_congr h.compared a
  rw [AccessCheck.names, AccessCheck.names, hf]

/-- Both spellings of a value are covered by the same items. -/
theorem SameQuestion.covers_onValue (h : SameQuestion n n') (c : AccessCheck) (v : String)
    (item : ProtectedItem) :
    (c.onValue n v).covers item = (c.onValue n' v).covers item := by
  cases item <;>
    simp only [covers, onValue, limitsName, isOwnName, h.isUser, h.names,
      Text.sameIgnoringAsciiCase_congr h.compared]

/-- Both spellings of the attribute are covered by the same items. -/
theorem SameQuestion.covers_onAttribute (h : SameQuestion n n') (c : AccessCheck)
    (item : ProtectedItem) :
    (c.onAttribute n).covers item = (c.onAttribute n').covers item := by
  cases item <;> simp only [covers, onAttribute, h.isUser, h.names]

/-- For a value under either spelling the same tuples count. -/
theorem SameQuestion.applies_onValue (h : SameQuestion n n') (c : AccessCheck) (v : String)
    (op : MicroOperation) (t : AciTuple) :
    (c.onValue n v).applies op t = (c.onValue n' v).applies op t := by
  have hcov : (c.onValue n v).covers = (c.onValue n' v).covers := by
    funext item
    exact h.covers_onValue c v item
  have hcount : (c.onValue n v).valueCount n = (c.onValue n' v).valueCount n' :=
    h.counted _
  have hmax : (c.onValue n v).maxValueCountHolds t op
      = (c.onValue n' v).maxValueCountHolds t op := by
    simp only [maxValueCountHolds]
    show (!t.grants || op != .add || t.protectedItems.all _)
      = (!t.grants || op != .add || t.protectedItems.all _)
    rw [hcount]
    simp only [Text.sameIgnoringAsciiCase_congr h.compared]
  have hres : (c.onValue n v).restrictedByHolds t
      = (c.onValue n' v).restrictedByHolds t := by
    simp only [restrictedByHolds, onValue, Text.sameIgnoringAsciiCase_congr h.compared]
  rw [applies, applies, hcov, hmax, hres]
  rfl

/-- For the attribute under either spelling the same tuples count. -/
theorem SameQuestion.applies_onAttribute (h : SameQuestion n n') (c : AccessCheck)
    (op : MicroOperation) (t : AciTuple) :
    (c.onAttribute n).applies op t = (c.onAttribute n').applies op t := by
  have hcov : (c.onAttribute n).covers = (c.onAttribute n').covers := by
    funext item
    exact h.covers_onAttribute c item
  rw [applies, applies, hcov]
  rfl

theorem SameQuestion.symm (h : SameQuestion n n') : SameQuestion n' n where
  compared := h.compared.symm
  isUser := h.isUser.symm
  counted e := (h.counted e).symm

/-- A decision about a value does not see the spelling. -/
theorem SameQuestion.hasPermission_onValue (h : SameQuestion n n') (c : AccessCheck)
    (v : String) : (c.onValue n v).hasPermission = (c.onValue n' v).hasPermission := by
  have hg : (c.onValue n v).grants = (c.onValue n' v).grants := by
    funext op
    have ha : (c.onValue n v).applies op = (c.onValue n' v).applies op := by
      funext t
      exact h.applies_onValue c v op t
    rw [grants, grants, ha]
    rfl
  rw [hasPermission, hasPermission, hg]
  rfl

/-- A decision about an attribute does not see the spelling. -/
theorem SameQuestion.hasPermission_onAttribute (h : SameQuestion n n') (c : AccessCheck) :
    (c.onAttribute n).hasPermission = (c.onAttribute n').hasPermission := by
  have hg : (c.onAttribute n).grants = (c.onAttribute n').grants := by
    funext op
    have ha : (c.onAttribute n).applies op = (c.onAttribute n').applies op := by
      funext t
      exact h.applies_onAttribute c op t
    rw [grants, grants, ha]
    rfl
  rw [hasPermission, hasPermission, hg]
  rfl

/-- A plain name and its lower case ask the same. -/
theorem sameQuestion_of_plain (h : Text.Plain n) : SameQuestion n (Text.lowercase n) where
  compared := h.asciiLower_eq
  isUser := by
    have hl := Text.lowercase_hasNoUpper n
    cases hu : Text.hasAsciiUpper n with
    | true => simp [Attribute.isUser, hu, hl]
    | false => rw [h.lowercase_of_noUpper hu]
  counted := by
    intro e
    rw [Entry.valueCount, Entry.valueCount, Entry.values?, Entry.values?,
      Attributes.values?_of_plain _ h,
      Attributes.values?_of_noUpper _ (Text.lowercase_hasNoUpper n)]

/-- Access is refused unless permission is there. -/
theorem require_ok {c : AccessCheck} : c.require = .ok () ↔ c.hasPermission = true := by
  rw [require]
  split
  · next h => simp [h]
  · next h => simp [h]

end AccessCheck

-- ── One modification ─────────────────────────────────────────────────────────────

/-- The values an entry holds under exactly this name. -/
def Entry.valuesAt (e : Entry) (attr : String) : ValueSet := e.attrs.valuesAt attr

/-- A check in front of something succeeds if both do. -/
theorem check_then_ok {ε β : Type} {x : Except ε Unit} {f : Unit → Except ε β} {b : β} :
    x.bind f = .ok b ↔ x = .ok () ∧ f () = .ok b := by
  cases x with
  | error e => simp [Except.bind]
  | ok a => simp [Except.bind]

/-- A question asked of every value of a list was answered for each. -/
theorem requireEach_ok {check : AccessCheck} {attr : String} {vs : List String} :
    requireEach check attr vs = .ok ()
      ↔ ∀ v ∈ vs, (check.onValue attr v).hasPermission = true := by
  induction vs with
  | nil => simp [requireEach]
  | cons v rest ih =>
      have hcons : requireEach check attr (v :: rest)
          = (check.onValue attr v).require.bind fun _ => requireEach check attr rest := rfl
      rw [hcons, check_then_ok, ih, AccessCheck.require_ok, List.forall_mem_cons]

/-- A question that is asked only under a condition. -/
def requireIf (b : Bool) (c : AccessCheck) : Except OperationError Unit :=
  if b then c.require else .ok ()

/-- A question that is asked only under a condition was answered where it was. -/
theorem requireIf_ok {b : Bool} {c : AccessCheck} :
    requireIf b c = .ok () ↔ (b = true → c.hasPermission = true) := by
  rw [requireIf, ← AccessCheck.require_ok]
  cases b <;> simp

section

variable (requester : Requester) (entry : Entry) (tuples : List AciTuple)

/-- The question whether the requester may do one thing to the entry, with values
    counted in a projection. -/
def questionIn (view : Entry) (op : MicroOperation) : AccessCheck :=
  (AccessCheck.onEntry requester entry [op] tuples).withView view

/-- What a step from one projection to the next has to be granted, on the attribute
    of this name as it is read before and after. -/
structure StepGranted (attr : String) (view post : Entry) (before after : ValueSet) :
    Prop where
  created : before.isEmpty = true → after.isEmpty = false →
    ((questionIn requester entry tuples post .add).onAttribute attr).hasPermission = true
  removed : ∀ v, before.contains v = true → after.contains v = false →
    ((questionIn requester entry tuples view .remove).onValue attr v).hasPermission = true
  added : ∀ v, after.contains v = true → before.contains v = false →
    ((questionIn requester entry tuples post .add).onValue attr v).hasPermission = true
  ended : before.isEmpty = false → after.isEmpty = true →
    ((questionIn requester entry tuples view .remove).onAttribute attr).hasPermission = true

/-- The check of a modification is four questions in a row. -/
theorem checkModification_eq (view : Entry) (m : Modification) :
    checkModification requester entry tuples view m =
      let post := view.project m
      let before := (view.values? m.attr).getD OrdSet.empty
      let after := (post.values? m.attr).getD OrdSet.empty
      let adding := questionIn requester entry tuples post .add
      let removing := questionIn requester entry tuples view .remove
      (requireIf (before.isEmpty && !after.isEmpty) (adding.onAttribute m.attr)).bind fun _ =>
      (requireEach removing m.attr (before.diff after).toList).bind fun _ =>
      (requireEach adding m.attr (after.diff before).toList).bind fun _ =>
      (requireIf (!before.isEmpty && after.isEmpty) (removing.onAttribute m.attr)).bind fun _ =>
      .ok post := by
  unfold checkModification requireIf
  dsimp only
  split <;> split <;> rfl

/-- A modification passes its check exactly if what it changes, as read under the
    name it carries, is granted; what is handed on is the next projection. -/
theorem checkModification_ok {view post : Entry} {m : Modification} :
    checkModification requester entry tuples view m = .ok post
      ↔ post = view.project m
        ∧ StepGranted requester entry tuples m.attr view post
            ((view.values? m.attr).getD OrdSet.empty)
            ((post.values? m.attr).getD OrdSet.empty) := by
  rw [checkModification_eq]
  simp only [check_then_ok, requireIf_ok, requireEach_ok, OrdSet.mem_diff,
    Bool.and_eq_true, Bool.not_eq_true', Except.ok.injEq]
  constructor
  · rintro ⟨hc, hr, ha, he, rfl⟩
    exact ⟨rfl, fun hb hp => hc ⟨hb, hp⟩, fun v hb hp => hr v ⟨hb, hp⟩,
      fun v hp hb => ha v ⟨hp, hb⟩, fun hb hp => he ⟨hb, hp⟩⟩
  · rintro ⟨rfl, h⟩
    exact ⟨fun hb => h.created hb.1 hb.2, fun v hv => h.removed v hv.1 hv.2,
      fun v hv => h.added v hv.1 hv.2, fun hb => h.ended hb.1 hb.2, rfl⟩

variable {requester entry tuples}

/-- Where nothing comes or goes, nothing has to be granted. -/
theorem StepGranted.of_eq {attr : String} {view post : Entry} {values : ValueSet} :
    StepGranted requester entry tuples attr view post values values where
  created := by
    intro hb ha
    rw [hb] at ha
    cases ha
  removed := by
    intro v hb ha
    rw [hb] at ha
    cases ha
  added := by
    intro v ha hb
    rw [ha] at hb
    cases hb
  ended := by
    intro hb ha
    rw [hb] at ha
    cases ha

/-- What was granted under one spelling was granted under every one that asks the
    same. -/
theorem StepGranted.respell {n n' : String} {view post : Entry} {before after : ValueSet}
    (hn : AccessCheck.SameQuestion n n')
    (h : StepGranted requester entry tuples n view post before after) :
    StepGranted requester entry tuples n' view post before after where
  created := by
    intro hb ha
    rw [← hn.hasPermission_onAttribute]
    exact h.created hb ha
  removed := by
    intro v hb ha
    rw [← hn.hasPermission_onValue]
    exact h.removed v hb ha
  added := by
    intro v ha hb
    rw [← hn.hasPermission_onValue]
    exact h.added v ha hb
  ended := by
    intro hb ha
    rw [← hn.hasPermission_onAttribute]
    exact h.ended hb ha

/-- A modification that is spelt plainly passes its check exactly if what it changes of the
    attribute under that name is granted. -/
theorem checkModification_ok_of_plain {view post : Entry} {m : Modification}
    (hm : Text.Plain m.attr) {a : String} (ha : Text.lowercase m.attr = a) :
    checkModification requester entry tuples view m = .ok post
      ↔ post = view.project m
        ∧ StepGranted requester entry tuples a view post (view.valuesAt a) (post.valuesAt a) := by
  have hsame := AccessCheck.sameQuestion_of_plain hm
  rw [checkModification_ok, Entry.values?, Entry.values?, Attributes.values?_of_plain _ hm,
    Attributes.values?_of_plain _ hm]
  rw [ha] at hsame ⊢
  exact and_congr_right fun _ => ⟨.respell hsame, .respell hsame.symm⟩

/-- A modification that is spelt plainly and passes its check is granted what it
    changes, whichever attribute is looked at. -/
theorem stepGranted_of_plain {view post : Entry} {m : Modification}
    (hm : Text.Plain m.attr)
    (h : checkModification requester entry tuples view m = .ok post) (a : String) :
    StepGranted requester entry tuples a view post (view.valuesAt a) (post.valuesAt a) := by
  by_cases ha : Text.lowercase m.attr = a
  · exact ((checkModification_ok_of_plain hm ha).mp h).2
  · obtain ⟨hpost, -⟩ := (checkModification_ok requester entry tuples).mp h
    have hsame : post.valuesAt a = view.valuesAt a := by
      show (post.attrs.get? a).getD _ = (view.attrs.get? a).getD _
      rw [hpost]
      show ((view.attrs.project m).get? a).getD _ = _
      rw [Attributes.get?_project_of_ne _ m (Ne.symm ha)]
    rw [hsame]
    exact StepGranted.of_eq

-- ── A list of modifications ──────────────────────────────────────────────────────

/-- What is so at the end of a run and was not at its start came about at some
    step. -/
theorem exists_step_of_change {α β : Type} (f : β → α → β) {P : β → Prop} {b : β}
    {l : List α} (hstart : ¬P b) (hend : P (l.foldl f b)) :
    ∃ done a rest, l = done ++ a :: rest
      ∧ ¬P (done.foldl f b) ∧ P ((done ++ [a]).foldl f b) := by
  induction l generalizing b with
  | nil => exact absurd hend hstart
  | cons a rest ih =>
      by_cases hnow : P (f b a)
      · exact ⟨[], a, rest, rfl, hstart, hnow⟩
      · obtain ⟨done, a', rest', hl, hbefore, hafter⟩ := ih hnow hend
        refine ⟨a :: done, a', rest', ?_, hbefore, hafter⟩
        rw [hl, List.cons_append]

/-- A list of modifications passes if the first does, and the others do after it. -/
theorem checkModifications_cons_ok {view final : Entry} {m : Modification}
    {rest : List Modification} :
    checkModifications requester entry tuples view (m :: rest) = .ok final
      ↔ ∃ post, checkModification requester entry tuples view m = .ok post
        ∧ checkModifications requester entry tuples post rest = .ok final := by
  have hcons : checkModifications requester entry tuples view (m :: rest)
      = (checkModification requester entry tuples view m).bind fun post =>
          checkModifications requester entry tuples post rest := rfl
  rw [hcons]
  cases checkModification requester entry tuples view m with
  | error e => simp [Except.bind]
  | ok post => simp [Except.bind]

/-- A list of modifications that passes ends in the last projection, and each of its
    modifications passes against the projection that those before it left. -/
theorem checkModifications_ok {view final : Entry} {mods : List Modification}
    (h : checkModifications requester entry tuples view mods = .ok final) :
    final = mods.foldl Entry.project view
      ∧ ∀ done m rest, mods = done ++ m :: rest →
          checkModification requester entry tuples (done.foldl Entry.project view) m
            = .ok ((done ++ [m]).foldl Entry.project view) := by
  induction mods generalizing view with
  | nil =>
      refine ⟨(Except.ok.inj h).symm, ?_⟩
      intro done m rest he
      exact absurd he (by simp)
  | cons m₀ rest₀ ih =>
      obtain ⟨post, hm, h⟩ := checkModifications_cons_ok.mp h
      have hpost := ((checkModification_ok requester entry tuples).mp hm).1
      obtain ⟨hfinal, hsteps⟩ := ih h
      refine ⟨by rw [hfinal, hpost, List.foldl_cons], ?_⟩
      intro done m rest he
      cases done with
      | nil =>
          obtain ⟨rfl, -⟩ := List.cons.inj he
          exact hm.trans (congrArg Except.ok hpost)
      | cons d done =>
          obtain ⟨rfl, htail⟩ := List.cons.inj he
          have hnext := hsteps done m rest htail
          rw [hpost] at hnext
          exact hnext

variable (requester entry tuples)

/-- One thing was granted, with values counted in the projection that some of the
    first modifications left. -/
def GrantedAlong (mods : List Modification) (op : MicroOperation)
    (about : AccessCheck → AccessCheck) : Prop :=
  ∃ done, done <+: mods ∧
    (about (questionIn requester entry tuples (done.foldl Entry.project entry) op)).hasPermission
      = true

/-- Everything in which an entry differs from what a list of modifications makes of
    it was granted, under the name that is stored. -/
structure ChangesGranted (mods : List Modification) (final : Entry) : Prop where
  added : ∀ a v, (final.valuesAt a).contains v = true → (entry.valuesAt a).contains v = false →
    GrantedAlong requester entry tuples mods .add (·.onValue a v)
  removed : ∀ a v, (entry.valuesAt a).contains v = true → (final.valuesAt a).contains v = false →
    GrantedAlong requester entry tuples mods .remove (·.onValue a v)
  created : ∀ a, (entry.valuesAt a).isEmpty = true → (final.valuesAt a).isEmpty = false →
    GrantedAlong requester entry tuples mods .add (·.onAttribute a)
  ended : ∀ a, (entry.valuesAt a).isEmpty = false → (final.valuesAt a).isEmpty = true →
    GrantedAlong requester entry tuples mods .remove (·.onAttribute a)
  /-- What storage accepts of the list is what was checked. -/
  stored : ∀ e, entry.modifyAll mods = .ok e → e = final

variable {requester entry tuples}

/-- A list of modifications that are spelt plainly and pass their checks is granted
    everything it changes. -/
theorem changesGranted_of_plain {mods : List Modification} {final : Entry}
    (hplain : ∀ m ∈ mods, Text.Plain m.attr)
    (h : checkModifications requester entry tuples entry mods = .ok final) :
    ChangesGranted requester entry tuples mods final := by
  obtain ⟨rfl, hsteps⟩ := checkModifications_ok h
  -- a change of the whole list is a change of one step, which was granted there
  have hstep : ∀ {done : List Modification} {m : Modification} {rest : List Modification},
      mods = done ++ m :: rest → ∀ a,
      StepGranted requester entry tuples a (done.foldl Entry.project entry)
        ((done ++ [m]).foldl Entry.project entry)
        ((done.foldl Entry.project entry).valuesAt a)
        (((done ++ [m]).foldl Entry.project entry).valuesAt a) := by
    intro done m rest hl a
    have hm : Text.Plain m.attr := hplain m (by rw [hl]; simp)
    exact stepGranted_of_plain hm (hsteps done m rest hl) a
  have hbefore : ∀ {done : List Modification} {m : Modification} {rest : List Modification},
      mods = done ++ m :: rest → done <+: mods := by
    intro done m rest hl
    exact ⟨m :: rest, hl.symm⟩
  have hafter : ∀ {done : List Modification} {m : Modification} {rest : List Modification},
      mods = done ++ m :: rest → done ++ [m] <+: mods := by
    intro done m rest hl
    exact ⟨rest, by rw [hl, List.append_assoc]; rfl⟩
  constructor
  · intro a v hv hno
    obtain ⟨done, m, rest, hl, h0, h1⟩ :=
      exists_step_of_change Entry.project (P := fun e => (e.valuesAt a).contains v = true)
        (by rw [hno]; decide) hv
    exact ⟨_, hafter hl, (hstep hl a).added v h1 (Bool.not_eq_true _ ▸ h0)⟩
  · intro a v hv hno
    obtain ⟨done, m, rest, hl, h0, h1⟩ :=
      exists_step_of_change Entry.project (P := fun e => (e.valuesAt a).contains v = false)
        (by rw [hv]; decide) hno
    exact ⟨_, hbefore hl, (hstep hl a).removed v (Bool.not_eq_false _ ▸ h0) h1⟩
  · intro a hb ha
    obtain ⟨done, m, rest, hl, h0, h1⟩ :=
      exists_step_of_change Entry.project (P := fun e => (e.valuesAt a).isEmpty = false)
        (by rw [hb]; decide) ha
    exact ⟨_, hafter hl, (hstep hl a).created (Bool.not_eq_false _ ▸ h0) h1⟩
  · intro a hb ha
    obtain ⟨done, m, rest, hl, h0, h1⟩ :=
      exists_step_of_change Entry.project (P := fun e => (e.valuesAt a).isEmpty = true)
        (by rw [hb]; decide) ha
    exact ⟨_, hbefore hl, (hstep hl a).ended (Bool.not_eq_true _ ▸ h0) h1⟩
  · intro e he
    exact Entry.modifyAll_ok he

end

-- ── Spellings that are not plain ─────────────────────────────────────────────────

/-- The tuple that grants everybody to add an attribute of this spelling and its
    values. -/
def grantToAdd (n : String) : AciTuple where
  userClasses := [.allUsers]
  level := .none
  protectedItems := [.attributeType (OrdSet.ofList [n])]
  operations := OrdSet.ofList [.add]
  grants := true
  precedence := 0

theorem names_singleton (n a : String) :
    AccessCheck.names (OrdSet.ofList [n]) a = Text.sameIgnoringAsciiCase n a :=
  Bool.or_false _

/-- A single grant in force decides a question alone. -/
theorem hasPermission_singleton {c : AccessCheck} {op : MicroOperation} {t : AciTuple}
    (hops : c.operations = [op]) (htuples : c.tuples = [t]) (hgrants : t.grants = true) :
    c.hasPermission = c.applies op t := by
  rw [AccessCheck.hasPermission, hops, List.all_cons, List.all_nil, Bool.and_true,
    AccessCheck.grants, htuples, List.filter_cons]
  cases c.applies op t with
  | false => rfl
  | true => simp [hgrants]

/-- The grant to add a spelling answers a question about an attribute or a value of
    it exactly if the name asked for compares equal to the spelling. -/
theorem applies_grantToAdd {c : AccessCheck} {n a : String}
    (htarget : c.target = .attribute a ∨ ∃ v, c.target = .value a v) :
    c.applies .add (grantToAdd n) = Text.sameIgnoringAsciiCase n a := by
  have hrelates : c.relatesTo (grantToAdd n) = true := by
    cases hl : c.requester.level <;>
      simp [AccessCheck.relatesTo, grantToAdd, AccessCheck.inUserClass, hl,
        AuthenticationLevel.atLeast, AuthenticationLevel.rank]
  have hcarries : (grantToAdd n).operations.contains .add = true := by
    show (OrdSet.ofList [MicroOperation.add]).contains .add = true
    decide
  rw [AccessCheck.applies, hrelates, hcarries]
  rcases htarget with ht | ⟨v, ht⟩ <;>
    simp [ht, AccessCheck.covers, grantToAdd, names_singleton,
      AccessCheck.maxValueCountHolds, AccessCheck.maxImmSubHolds,
      AccessCheck.restrictedByHolds]

/-- For a spelling that is not plain, an addition passes its check under the name as
    it was spelt and is made under a name that nobody granted. -/
theorem exists_change_not_granted {n : String} (hn : ¬Text.Plain n) :
    ∃ requester entry tuples mods final, (∀ m ∈ mods, Modification.attr m = n)
      ∧ checkModifications requester entry tuples entry mods = .ok final
      ∧ ¬ChangesGranted requester entry tuples mods final := by
  let requester : Requester := ⟨Dn.root, OrdSet.empty, .none⟩
  let entry := Entry.named Dn.root
  let m := Modification.add n ["x"]
  have hnone : (entry.values? n).getD OrdSet.empty = OrdSet.empty := by
    rw [Entry.values?, Attributes.values?]
    split <;> rfl
  have hstep : checkModification requester entry [grantToAdd n] entry m
      = .ok (entry.project m) := by
    refine (checkModification_ok requester entry [grantToAdd n]).mpr ⟨rfl, ?_⟩
    rw [show m.attr = n from rfl, hnone]
    have hself := Text.sameIgnoringAsciiCase_self n
    refine ⟨?_, ?_, ?_, ?_⟩
    · intro _ _
      rw [hasPermission_singleton rfl rfl rfl, applies_grantToAdd (Or.inl rfl), hself]
    · intro v hv
      cases hv
    · intro v _ _
      rw [hasPermission_singleton rfl rfl rfl, applies_grantToAdd (Or.inr ⟨v, rfl⟩), hself]
    · intro he
      cases he
  refine ⟨requester, entry, [grantToAdd n], [m], entry.project m, ?_, ?_, ?_⟩
  · intro m' hm'
    rw [List.mem_singleton.mp hm']
    rfl
  · show (checkModification requester entry [grantToAdd n] entry m).bind _ = _
    rw [hstep]
    rfl
  · intro hall
    have hheld : ((entry.project m).valuesAt (Text.lowercase n)).contains
        (Attributes.heldValue (Text.lowercase n) "x") = true := by
      show ((Attributes.addValues _ (Text.lowercase n) ["x"]).valuesAt _).contains _ = true
      rw [Attributes.addValues, Attributes.valuesAt_put_self, OrdSet.contains_insertAll]
      exact Or.inl ⟨_, List.mem_singleton_self _, Std.ReflCmp.compare_self⟩
    obtain ⟨done, -, hgranted⟩ := hall.added _ _ hheld rfl
    rw [hasPermission_singleton rfl rfl rfl, applies_grantToAdd (Or.inr ⟨_, rfl⟩)] at hgranted
    exact hn ((Text.sameIgnoringAsciiCase_lowercase n).mp hgranted)

/-- Lists of modifications whose names are of some spellings are granted all that
    they change, for every requester, entry and list of tuples, exactly if every one
    of the spellings is plain. -/
theorem modification_check_sound_iff (spelt : String → Prop) :
    (∀ n, spelt n → Text.Plain n)
      ↔ ∀ requester entry tuples mods final, (∀ m ∈ mods, spelt (Modification.attr m)) →
          checkModifications requester entry tuples entry mods = .ok final →
          ChangesGranted requester entry tuples mods final := by
  constructor
  · intro hplain requester entry tuples mods final hspelt h
    exact changesGranted_of_plain (fun m hm => hplain _ (hspelt m hm)) h
  · intro hsound n hn
    by_cases hp : Text.Plain n
    · exact hp
    · obtain ⟨requester, entry, tuples, mods, final, hattr, hcheck, hnot⟩ :=
        exists_change_not_granted hp
      refine absurd (hsound requester entry tuples mods final ?_ hcheck) hnot
      intro m hm
      rw [hattr m hm]
      exact hn

/-- With no tuples in force, a name written with the sign for kelvin passes its check
    and is stored with a plain `k`, which nobody granted. -/
theorem kelvin_spelling_not_granted :
    ∃ final, checkModifications ⟨Dn.root, OrdSet.empty, .none⟩ (Entry.named Dn.root) []
        (Entry.named Dn.root) [.add "lin\u212A" ["x"]] = .ok final
      ∧ (final.valuesAt "link").contains "x" = true
      ∧ ¬ChangesGranted ⟨Dn.root, OrdSet.empty, .none⟩ (Entry.named Dn.root) []
        [.add "lin\u212A" ["x"]] final := by
  refine ⟨(Entry.named Dn.root).project (.add "lin\u212A" ["x"]), by rfl, by decide, ?_⟩
  intro hall
  obtain ⟨done, -, hgranted⟩ := hall.added "link" "x" (by decide) (by decide)
  cases hgranted

end DirectoryAccess
