import DirectoryAccess.Authorization.Tuples
import DirectoryAccess.Proofs.Aci.Decision
import DirectoryAccess.Proofs.Ordered.Map
import DirectoryAccess.Proofs.Ordered.Set

/-! # Levels — who proves more loses nothing

    A grant counts for requesters at or above its level, and a denial also counts for
    those below its own.  With a stronger level the same grants count and perhaps
    others, and no denial counts that did not before.  Nothing else in a decision looks
    at the level, so what is permitted stays permitted and what can be read can still
    be read. -/

namespace DirectoryAccess

/-- Levels are ordered. -/
theorem AuthenticationLevel.atLeast_trans {l m n : AuthenticationLevel} (h : l.atLeast m = true)
    (h' : m.atLeast n = true) : l.atLeast n = true := by
  rw [atLeast, decide_eq_true_iff] at h h' ⊢
  exact Nat.le_trans h' h

/-- The first requester differs from the second in the level alone, and is no stronger. -/
structure Requester.NoStronger (r r' : Requester) : Prop where
  dn_eq : r.dn = r'.dn
  groups_eq : r.groups = r'.groups
  atLeast : r'.level.atLeast r.level = true

-- ── One question from two requesters ─────────────────────────────────────────────

namespace AccessCheck

/-- The same question, from somebody else. -/
def askedBy (c : AccessCheck) (r : Requester) : AccessCheck := { c with requester := r }

variable {r r' : Requester}

/-- User classes do not look at the level. -/
theorem inUserClass_askedBy (h : r.NoStronger r') (c : AccessCheck) :
    (c.askedBy r).inUserClass = (c.askedBy r').inUserClass := by
  funext u
  cases u <;> simp only [inUserClass, askedBy, h.dn_eq, h.groups_eq]

theorem covers_askedBy (h : r.NoStronger r') (c : AccessCheck) :
    (c.askedBy r).covers = (c.askedBy r').covers := by
  funext item
  simp only [covers, isOwnName, askedBy, h.dn_eq]

/-- A grant that is about a requester is about a stronger one too. -/
theorem relatesTo_of_grant (h : r.NoStronger r') (c : AccessCheck) {t : AciTuple}
    (ht : t.grants = true) (hrelates : (c.askedBy r).relatesTo t = true) :
    (c.askedBy r').relatesTo t = true := by
  rw [relatesTo, if_pos ht, Bool.and_eq_true] at hrelates ⊢
  obtain ⟨hclass, hlevel⟩ := hrelates
  rw [inUserClass_askedBy h] at hclass
  exact ⟨hclass, AuthenticationLevel.atLeast_trans h.atLeast hlevel⟩

/-- A denial that is about a requester is about a weaker one too. -/
theorem relatesTo_of_denial (h : r.NoStronger r') (c : AccessCheck) {t : AciTuple}
    (ht : t.grants = false) (hrelates : (c.askedBy r').relatesTo t = true) :
    (c.askedBy r).relatesTo t = true := by
  rw [relatesTo, ht, if_neg Bool.false_ne_true, Bool.or_eq_true, Bool.not_eq_true'] at hrelates ⊢
  refine hrelates.imp (fun hclass => ?_) fun hbelow => ?_
  · rwa [inUserClass_askedBy h]
  · rw [← Bool.not_eq_true] at hbelow ⊢
    exact mt (AuthenticationLevel.atLeast_trans h.atLeast) hbelow

/-- Whether a tuple counts is a matter of whom it is about, and of tests that do not look at
    the level. -/
theorem applies_askedBy (h : r.NoStronger r') (c : AccessCheck) (op : MicroOperation)
    {t : AciTuple} (hrelates : (c.askedBy r).relatesTo t = (c.askedBy r').relatesTo t) :
    (c.askedBy r).applies op t = (c.askedBy r').applies op t := by
  rw [applies, applies, hrelates, covers_askedBy h]
  rfl

/-- What is permitted to a requester is permitted to a stronger one. -/
theorem hasPermission_askedBy (h : r.NoStronger r') (c : AccessCheck)
    (hpermission : (c.askedBy r).hasPermission = true) :
    (c.askedBy r').hasPermission = true := by
  refine hasPermission_mono (c := c.askedBy r) rfl rfl (fun op t ht happlies => ?_)
    (fun op t ht happlies => ?_) hpermission
  · have hrelates := (applies_iff.mp happlies).requester
    have hstronger := relatesTo_of_grant h c ht hrelates
    rwa [← applies_askedBy h c op (hrelates.trans hstronger.symm)]
  · have hrelates := (applies_iff.mp happlies).requester
    have hweaker := relatesTo_of_denial h c ht hrelates
    rwa [applies_askedBy h c op (hweaker.trans hrelates.symm)]

end AccessCheck

-- ── What can be read ─────────────────────────────────────────────────────────────

/-- An entry of the same name holds every attribute and every value that this one does. -/
structure Entry.IsPartOf (e e' : Entry) : Prop where
  dn_eq : e.dn = e'.dn
  held : ∀ a vs, e.attrs.get? a = some vs →
    ∃ vs', e'.attrs.get? a = some vs' ∧ ∀ v, vs.contains v = true → vs'.contains v = true

/-- A test leaves an attribute that it allows with those of its values that it allows, if
    there are any. -/
theorem Attributes.get?_reduce_eq_some {allow : String → Option String → Bool}
    {attrs : Attributes} {a : String} {vs : ValueSet} :
    (attrs.reduce allow).get? a = some vs ↔ allow a none = true ∧ vs.isEmpty = false
      ∧ ∃ all, attrs.get? a = some all ∧ vs = all.filter fun v => allow a (some v) := by
  rw [reduce, OrdMap.get?_filterMap, Option.bind_eq_some_iff]
  dsimp only
  constructor
  · rintro ⟨all, hall, hkept⟩
    split at hkept
    · next hattr =>
      split at hkept
      · cases hkept
      · next hsome =>
        obtain rfl := Option.some.inj hkept
        exact ⟨hattr, eq_false_of_ne_true hsome, all, hall, rfl⟩
    · cases hkept
  · rintro ⟨hattr, hsome, all, hall, rfl⟩
    exact ⟨all, hall, by rw [if_pos hattr, hsome, if_neg Bool.false_ne_true]⟩

/-- What a test allows of an entry is part of what a more generous one does. -/
theorem Entry.reduce_isPartOf {allow allow' : String → Option String → Bool}
    (h : ∀ a value, allow a value = true → allow' a value = true) (e : Entry) :
    (e.reduce allow).IsPartOf (e.reduce allow') := by
  refine ⟨rfl, fun a vs hvs => ?_⟩
  obtain ⟨hattr, hsome, all, hall, rfl⟩ := Attributes.get?_reduce_eq_some.mp hvs
  have hmore : ∀ v, (all.filter fun v => allow a (some v)).contains v = true →
      (all.filter fun v => allow' a (some v)).contains v = true := by
    intro v hv
    rw [OrdSet.contains_filter] at hv ⊢
    exact hv.imp_right (h a (some v))
  refine ⟨_, Attributes.get?_reduce_eq_some.mpr ⟨h a none hattr, ?_, all, hall, rfl⟩, hmore⟩
  obtain ⟨v, hv⟩ := List.isEmpty_eq_false_iff_exists_mem.mp hsome
  refine List.isEmpty_eq_false_iff_exists_mem.mpr ⟨v, ?_⟩
  rw [← OrdSet.contains_iff_mem] at hv ⊢
  exact hmore v hv

/-- **A STRONGER BIND LOSES NOTHING**: of two requesters that differ in the level alone, the
    stronger one is permitted whatever the weaker one is, whatever is asked and whichever
    tuples are in force; and what the weaker one may read of an entry is part of what the
    stronger one may. -/
theorem stronger_bind_loses_nothing {r r' : Requester} (h : r.NoStronger r') :
    (∀ c : AccessCheck,
        (c.askedBy r).hasPermission = true → (c.askedBy r').hasPermission = true)
      ∧ ∀ (e : Entry) (tuples : List AciTuple),
        (readable r e tuples).IsPartOf (readable r' e tuples) := by
  refine ⟨fun c => AccessCheck.hasPermission_askedBy h c, fun e tuples => ?_⟩
  refine Entry.reduce_isPartOf (fun a value hallowed => ?_) e
  cases value with
  | none =>
      exact AccessCheck.hasPermission_askedBy h
        ((AccessCheck.onEntry r e [.read] tuples).onAttribute a) hallowed
  | some v =>
      exact AccessCheck.hasPermission_askedBy h
        ((AccessCheck.onEntry r e [.read] tuples).onValue a v) hallowed

-- ── A pay slip ───────────────────────────────────────────────────────────────────

/-- Somebody of no name and no group, at a level. -/
def reader (level : AuthenticationLevel) : Requester := ⟨Dn.root, OrdSet.empty, level⟩

/-- An entry with a telephone and a salary. -/
def paySlip : Entry := ((Entry.named Dn.root).addAva "phone" "12").addAva "salary" "high"

/-- Who has shown a password may read the telephone.  Anybody may read the salary, except
    that this is denied to those who have shown no more than a password. -/
def payPolicy : List AciTuple :=
  [⟨[.allUsers], .simple, [.attributeType (OrdSet.ofList ["phone"])], OrdSet.ofList [.read],
      true, 0⟩,
    ⟨[.allUsers], .none, [.attributeType (OrdSet.ofList ["salary"])], OrdSet.ofList [.read],
      true, 0⟩,
    ⟨[], .strong, [.attributeType (OrdSet.ofList ["salary"])], OrdSet.ofList [.read],
      false, 9⟩]

/-- The question whether the telephone may be read. -/
def phoneAsked : AccessCheck :=
  (AccessCheck.onEntry (reader .none) paySlip [.read] payPolicy).onValue "phone" "12"

/-- With a password the telephone can be read, which was denied without; with a stronger bind
    it still can, and the salary too. -/
theorem strong_bind_reads_more :
    ((reader .simple).NoStronger (reader .strong) ∧ phoneAsked.hasPermission = false
        ∧ (phoneAsked.askedBy (reader .simple)).hasPermission = true
        ∧ (readable (reader .simple) paySlip payPolicy).attrs.keys = ["phone"])
      ∧ (phoneAsked.askedBy (reader .strong)).hasPermission = true
      ∧ (readable (reader .strong) paySlip payPolicy).attrs.keys = ["phone", "salary"]
      ∧ (readable (reader .simple) paySlip payPolicy).IsPartOf
        (readable (reader .strong) paySlip payPolicy) := by
  have hlevel : (reader .simple).NoStronger (reader .strong) := ⟨rfl, rfl, rfl⟩
  obtain ⟨hpermitted, hread⟩ := stronger_bind_loses_nothing hlevel
  have hphone : (phoneAsked.askedBy (reader .simple)).hasPermission = true := by rfl
  exact ⟨⟨hlevel, by rfl, hphone, by rfl⟩, hpermitted phoneAsked hphone, by rfl,
    hread paySlip payPolicy⟩

end DirectoryAccess
