import DirectoryAccess.Aci.Subtree

/-! # Components — a specification from its parts in any order

    Components DESCRIBE a specification if no two are of a kind, what they say is so in
    it, and what they do not speak of is as in the specification of everything.  Nothing
    of this asks for their order, and at most one specification is described by the same
    components.

    A draft is described by the components written into it as long as no kind comes
    twice: a component changes only what it speaks of, and that nothing has been written
    to before.  So components are made into the specification they describe, unless a
    kind comes twice or that specification has its bounds the wrong way round, and
    neither depends on their order. -/

namespace DirectoryAccess

-- ── What components say ──────────────────────────────────────────────────────────

/-- What a component says is so in a specification. -/
def SubtreeComponent.IsTrueOf (spec : SubtreeSpecification) : SubtreeComponent → Prop
  | base d => spec.base = d
  | exclusions list => spec.chopBefore = chopsBefore list ∧ spec.chopAfter = chopsAfter list
  | minimum n => spec.minimum = n
  | maximum n => spec.maximum = some n
  | filter r => spec.refinement = some r

/-- Two specifications agree in what components of a kind speak of. -/
def SubtreeSpecification.AgreesOn (spec other : SubtreeSpecification) :
    SubtreeComponentKind → Prop
  | .base => spec.base = other.base
  | .exclusions => spec.chopBefore = other.chopBefore ∧ spec.chopAfter = other.chopAfter
  | .minimum => spec.minimum = other.minimum
  | .maximum => spec.maximum = other.maximum
  | .filter => spec.refinement = other.refinement

/-- Components, no two of a kind, that describe a specification: what they say is so,
    and what they do not speak of is as in the specification of everything. -/
structure SubtreeSpecification.DescribedBy (spec : SubtreeSpecification)
    (components : List SubtreeComponent) : Prop where
  distinct : (components.map SubtreeComponent.kind).Nodup
  said : ∀ c ∈ components, c.IsTrueOf spec
  unsaid : ∀ k, k ∉ components.map SubtreeComponent.kind → spec.AgreesOn everything k

namespace SubtreeSpecification

open SubtreeComponent (kind writeInto chopsBefore chopsAfter)

theorem AgreesOn.refl (s : SubtreeSpecification) (k : SubtreeComponentKind) : s.AgreesOn s k := by
  cases k <;> first | exact rfl | exact ⟨rfl, rfl⟩

theorem AgreesOn.trans {s t u : SubtreeSpecification} {k : SubtreeComponentKind}
    (hst : s.AgreesOn t k) (htu : t.AgreesOn u k) : s.AgreesOn u k := by
  cases k with
  | base => exact Eq.trans hst htu
  | exclusions => exact ⟨hst.1.trans htu.1, hst.2.trans htu.2⟩
  | minimum => exact Eq.trans hst htu
  | maximum => exact Eq.trans hst htu
  | filter => exact Eq.trans hst htu

theorem AgreesOn.symm {s t : SubtreeSpecification} {k : SubtreeComponentKind}
    (h : s.AgreesOn t k) : t.AgreesOn s k := by
  cases k with
  | base => exact Eq.symm h
  | exclusions => exact ⟨h.1.symm, h.2.symm⟩
  | minimum => exact Eq.symm h
  | maximum => exact Eq.symm h
  | filter => exact Eq.symm h

/-- Specifications that agree in everything are equal. -/
theorem eq_of_agreesOn {s t : SubtreeSpecification} (h : ∀ k, s.AgreesOn t k) : s = t := by
  cases s
  cases t
  obtain ⟨hbefore, hafter⟩ := h .exclusions
  cases h .base
  cases hbefore
  cases hafter
  cases h .minimum
  cases h .maximum
  cases h .filter
  rfl

variable {s t : SubtreeSpecification} {c : SubtreeComponent}

/-- A component says the same of specifications that agree in what it speaks of. -/
theorem AgreesOn.isTrueOf (h : s.AgreesOn t c.kind) (htrue : c.IsTrueOf t) : c.IsTrueOf s := by
  cases c with
  | base d => exact Eq.trans h htrue
  | exclusions list => exact ⟨h.1.trans htrue.1, h.2.trans htrue.2⟩
  | minimum n => exact Eq.trans h htrue
  | maximum n => exact Eq.trans h htrue
  | filter r => exact Eq.trans h htrue

/-- Specifications of which a component is true agree in what it speaks of. -/
theorem agreesOn_of_isTrueOf (hs : c.IsTrueOf s) (ht : c.IsTrueOf t) : s.AgreesOn t c.kind := by
  cases c with
  | base d => exact Eq.trans hs (Eq.symm ht)
  | exclusions list => exact ⟨hs.1.trans ht.1.symm, hs.2.trans ht.2.symm⟩
  | minimum n => exact Eq.trans hs (Eq.symm ht)
  | maximum n => exact Eq.trans hs (Eq.symm ht)
  | filter r => exact Eq.trans hs (Eq.symm ht)

/-- A component changes nothing that it does not speak of. -/
theorem writeInto_of_ne (s : SubtreeSpecification) {c : SubtreeComponent}
    {k : SubtreeComponentKind} (h : k ≠ c.kind) : (writeInto s c).AgreesOn s k := by
  cases c <;> cases k <;> first | exact absurd rfl h | exact rfl | exact ⟨rfl, rfl⟩

/-- A component, written where nothing of its kind has been, is true. -/
theorem isTrueOf_writeInto (hfresh : s.AgreesOn everything c.kind) :
    c.IsTrueOf (writeInto s c) := by
  cases c with
  | base d => exact rfl
  | exclusions list =>
      obtain ⟨hbefore, hafter⟩ := hfresh
      refine ⟨?_, ?_⟩
      · show s.chopBefore ++ chopsBefore list = chopsBefore list
        rw [hbefore]
        rfl
      · show s.chopAfter ++ chopsAfter list = chopsAfter list
        rw [hafter]
        rfl
  | minimum n => exact rfl
  | maximum n => exact rfl
  | filter r => exact rfl

-- ── What components describe ─────────────────────────────────────────────────────

namespace DescribedBy

variable {cs cs' : List SubtreeComponent}

theorem nothing : everything.DescribedBy [] where
  distinct := List.nodup_nil
  said := nofun
  unsaid := fun k _ => .refl everything k

/-- The same components in another order describe the same. -/
theorem perm (h : s.DescribedBy cs) (hperm : cs'.Perm cs) : s.DescribedBy cs' where
  distinct := (hperm.map kind).nodup_iff.mpr h.distinct
  said := fun c hc => h.said c (hperm.mem_iff.mp hc)
  unsaid := fun k hk => h.unsaid k fun hmem => hk ((hperm.map kind).mem_iff.mpr hmem)

/-- The same components do not describe two specifications. -/
theorem unique (hs : s.DescribedBy cs) (ht : t.DescribedBy cs) : s = t := by
  refine eq_of_agreesOn fun k => ?_
  by_cases hk : k ∈ cs.map kind
  · obtain ⟨c, hc, rfl⟩ := List.mem_map.mp hk
    exact agreesOn_of_isTrueOf (hs.said c hc) (ht.said c hc)
  · exact (hs.unsaid k hk).trans (ht.unsaid k hk).symm

/-- A component of a new kind, written into what others describe, describes with them
    what comes of it. -/
theorem write (h : s.DescribedBy cs) (hnew : c.kind ∉ cs.map kind) :
    (writeInto s c).DescribedBy (c :: cs) := by
  constructor
  case distinct => exact List.nodup_cons.mpr ⟨hnew, h.distinct⟩
  case said =>
    rw [List.forall_mem_cons]
    refine ⟨isTrueOf_writeInto (h.unsaid c.kind hnew), fun d hd => ?_⟩
    have hother : d.kind ≠ c.kind := fun heq => hnew (heq ▸ List.mem_map_of_mem hd)
    exact (writeInto_of_ne s hother).isTrueOf (h.said d hd)
  case unsaid =>
    intro k hk
    rw [List.map_cons, List.mem_cons, not_or] at hk
    exact (writeInto_of_ne s hk.1).trans (h.unsaid k hk.2)

/-- What is described is said by a component of that kind or is as in the specification
    of everything. -/
theorem said_or_default (h : s.DescribedBy cs) (k : SubtreeComponentKind) :
    (∃ c ∈ cs, c.kind = k ∧ c.IsTrueOf s) ∨ k ∉ cs.map kind ∧ s.AgreesOn everything k := by
  by_cases hk : k ∈ cs.map kind
  · obtain ⟨c, hc, hkind⟩ := List.mem_map.mp hk
    exact .inl ⟨c, hc, hkind, h.said c hc⟩
  · exact .inr ⟨hk, h.unsaid k hk⟩

end DescribedBy

end SubtreeSpecification

-- ── Drafts ───────────────────────────────────────────────────────────────────────

namespace SubtreeDraft

open SubtreeComponent (kind)

/-- A draft written from components, the last one first: they describe it, and the kinds
    seen are theirs. -/
structure WrittenFrom (draft : SubtreeDraft) (cs : List SubtreeComponent) : Prop where
  described : draft.spec.DescribedBy cs
  seen : draft.seen = cs.map kind

theorem writtenFrom_blank : blank.WrittenFrom [] := ⟨.nothing, rfl⟩

variable {draft : SubtreeDraft} {done : List SubtreeComponent}

/-- One component more is written into a draft, unless one of its kind has been. -/
theorem WrittenFrom.add (h : draft.WrittenFrom done) (c : SubtreeComponent) :
    (∃ next, draft.add c = .ok next ∧ next.WrittenFrom (c :: done))
      ∨ draft.add c = .error .givenTwice ∧ c.kind ∈ done.map kind := by
  by_cases hc : c.kind ∈ done.map kind
  · refine .inr ⟨if_pos ?_, hc⟩
    rw [h.seen]
    exact List.contains_iff_mem.mpr hc
  · refine .inl ⟨_, if_neg ?_, h.described.write hc, congrArg (c.kind :: ·) h.seen⟩
    rw [h.seen]
    exact mt List.contains_iff_mem.mp hc

/-- Components are written into a draft one after the other, unless a kind comes twice
    among them and those written before. -/
theorem WrittenFrom.run (h : draft.WrittenFrom done) (cs : List SubtreeComponent) :
    (∃ last, cs.foldlM SubtreeDraft.add draft = .ok last ∧ last.WrittenFrom (cs.reverse ++ done))
      ∨ cs.foldlM SubtreeDraft.add draft = .error .givenTwice
        ∧ ¬ ((cs.reverse ++ done).map kind).Nodup := by
  -- on what is still to be written; what has been goes over into `done`, in front
  induction cs generalizing draft done with
  | nil => exact .inl ⟨draft, rfl, h⟩
  | cons c rest ih =>
      rw [List.foldlM_cons, List.reverse_cons, List.append_assoc, List.singleton_append]
      obtain ⟨next, hnext, hwritten⟩ | ⟨hfault, hseen⟩ := h.add c
      · rw [hnext]
        exact ih hwritten
      · rw [hfault]
        refine .inr ⟨rfl, fun hdistinct => ?_⟩
        rw [List.map_append, List.map_cons] at hdistinct
        exact (List.nodup_cons.mp (List.nodup_append.mp hdistinct).2.1).1 hseen

end SubtreeDraft

-- ── Specifications made of components ────────────────────────────────────────────

namespace SubtreeSpecification

open SubtreeComponent (kind writeInto)

variable {s spec : SubtreeSpecification} {cs cs' : List SubtreeComponent}

/-- Either components describe what they are made into, but for the check of its bounds,
    or they are refused because a kind comes twice. -/
theorem ofComponents_cases (cs : List SubtreeComponent) :
    (∃ spec : SubtreeSpecification, spec.DescribedBy cs
        ∧ ofComponents cs = spec.withBoundsChecked)
      ∨ ¬ (cs.map kind).Nodup ∧ ofComponents cs = .error .givenTwice := by
  -- the run has the last component first, which is only another order
  have hperm : cs.Perm (cs.reverse ++ []) := by
    rw [List.append_nil]
    exact (List.reverse_perm cs).symm
  rw [ofComponents]
  obtain ⟨last, hrun, hwritten⟩ | ⟨hrun, htwice⟩ := SubtreeDraft.writtenFrom_blank.run cs
  · rw [hrun]
    exact .inl ⟨last.spec, hwritten.described.perm hperm, rfl⟩
  · rw [hrun]
    exact .inr ⟨mt (hperm.map kind).nodup_iff.mp htwice, rfl⟩

/-- Components of different kinds describe some specification. -/
theorem exists_describedBy (h : (cs.map kind).Nodup) :
    ∃ spec : SubtreeSpecification, spec.DescribedBy cs := by
  obtain ⟨spec, hspec, -⟩ | ⟨htwice, -⟩ := ofComponents_cases cs
  · exact ⟨spec, hspec⟩
  · exact absurd h htwice

/-- Components are refused if one of the kinds comes twice. -/
theorem ofComponents_of_twice (h : ¬ (cs.map kind).Nodup) :
    ofComponents cs = .error .givenTwice := by
  obtain ⟨spec, hspec, -⟩ | ⟨-, hfault⟩ := ofComponents_cases cs
  · exact absurd hspec.distinct h
  · exact hfault

/-- What is made of components is what they describe, if its bounds pass. -/
theorem DescribedBy.ofComponents_eq (h : spec.DescribedBy cs) :
    ofComponents cs = spec.withBoundsChecked := by
  obtain ⟨made, hmade, heq⟩ | ⟨htwice, -⟩ := ofComponents_cases cs
  · rw [heq, hmade.unique h]
  · exact absurd h.distinct htwice

/-- Bounds that are in order pass. -/
theorem withBoundsChecked_of_ordered (h : ∀ max ∈ s.maximum, s.minimum ≤ max) :
    s.withBoundsChecked = .ok s := by
  rw [withBoundsChecked]
  split
  · next max hmax => exact if_neg (Nat.not_lt.mpr (h max hmax))
  · rfl

/-- Bounds that are the wrong way round are refused. -/
theorem withBoundsChecked_of_crossed (h : ¬ ∀ max ∈ s.maximum, s.minimum ≤ max) :
    s.withBoundsChecked = .error .maximumBelowMinimum := by
  rw [withBoundsChecked]
  split
  · next max hmax =>
    refine if_pos (Nat.not_le.mp fun hle => h fun max' hmax' => ?_)
    cases Option.some.inj (hmax.symm.trans hmax')
    exact hle
  · next hnone => exact absurd (fun max hmax => nomatch hnone.symm.trans hmax) h

/-- Components are made into the specification they describe if its bounds are in order,
    and into no other. -/
theorem ofComponents_eq_ok_iff :
    ofComponents cs = .ok spec
      ↔ spec.DescribedBy cs ∧ ∀ max ∈ spec.maximum, spec.minimum ≤ max := by
  constructor
  · intro h
    obtain ⟨made, hmade, heq⟩ | ⟨-, hfault⟩ := ofComponents_cases cs
    · by_cases hordered : ∀ max ∈ made.maximum, made.minimum ≤ max
      · rw [heq, withBoundsChecked_of_ordered hordered] at h
        cases h
        exact ⟨hmade, hordered⟩
      · rw [heq, withBoundsChecked_of_crossed hordered] at h
        cases h
    · exact nomatch hfault.symm.trans h
  · rintro ⟨hspec, hordered⟩
    rw [hspec.ofComponents_eq, withBoundsChecked_of_ordered hordered]

/-- Whether anything is made of components, and what: what they describe, with its bounds in
    order. -/
theorem ofComponents?_eq_some_iff :
    ofComponents? cs = some spec
      ↔ spec.DescribedBy cs ∧ ∀ max ∈ spec.maximum, spec.minimum ≤ max := by
  rw [← ofComponents_eq_ok_iff, ofComponents?]
  cases ofComponents cs with
  | error fault => exact ⟨nofun, nofun⟩
  | ok made =>
      show some made = some spec ↔ _
      rw [Option.some.injEq, Except.ok.injEq]

/-- What is so of the specification of everything, and stays so when one of the
    components is written, is so of what they describe. -/
theorem DescribedBy.induction {P : SubtreeSpecification → Prop} (h : spec.DescribedBy cs)
    (hnothing : P everything)
    (hwrite : ∀ s, ∀ c ∈ cs, P s → P (writeInto s c)) : P spec := by
  induction cs generalizing spec with
  | nil => exact h.unique .nothing ▸ hnothing
  | cons c rest ih =>
      obtain ⟨hnew, hdistinct⟩ := List.nodup_cons.mp h.distinct
      obtain ⟨s, hs⟩ := exists_describedBy hdistinct
      have hrest : P s := ih hs fun t d hd => hwrite t d (List.mem_cons_of_mem c hd)
      rw [h.unique (hs.write hnew)]
      exact hwrite s c (List.mem_cons_self ..) hrest

-- ── Exclusions as written ────────────────────────────────────────────────────────

/-- Names left out in the two ways, each in the order in which a list of exclusions has
    them, and no others. -/
inductive AsWritten : List Dn → List Dn → List Exclusion → Prop where
  | nothing : AsWritten [] [] []
  | before {befores afters : List Dn} {list : List Exclusion} (d : Dn) :
      AsWritten befores afters list → AsWritten (d :: befores) afters (.chopBefore d :: list)
  | after {befores afters : List Dn} {list : List Exclusion} (d : Dn) :
      AsWritten befores afters list → AsWritten befores (d :: afters) (.chopAfter d :: list)

/-- The names that a list of exclusions leaves out are in its order. -/
theorem asWritten_chops (list : List Exclusion) :
    AsWritten (SubtreeComponent.chopsBefore list) (SubtreeComponent.chopsAfter list) list := by
  induction list with
  | nil => exact .nothing
  | cons e rest ih =>
      cases e with
      | chopBefore d => exact .before d ih
      | chopAfter d => exact .after d ih

-- ── The order of components ──────────────────────────────────────────────────────

/-- The lower bound that components set: the minimum they give, zero if they give none. -/
def LowerBound (cs : List SubtreeComponent) (n : Nat) : Prop :=
  .minimum n ∈ cs ∨ SubtreeComponentKind.minimum ∉ cs.map kind ∧ n = 0

/-- The upper bound that components give, if they give one, is not below the lower. -/
def BoundsInOrder (cs : List SubtreeComponent) : Prop :=
  ∀ max, .maximum max ∈ cs → ∀ min, LowerBound cs min → min ≤ max

namespace DescribedBy

theorem lowerBound_iff (h : spec.DescribedBy cs) (n : Nat) :
    LowerBound cs n ↔ spec.minimum = n := by
  constructor
  · rintro (hmem | ⟨hnone, rfl⟩)
    · exact h.said _ hmem
    · exact h.unsaid .minimum hnone
  · rintro rfl
    obtain ⟨c, hc, hkind, htrue⟩ | ⟨hnone, hdefault⟩ := h.said_or_default .minimum
    · cases c with
      | minimum n =>
          cases htrue
          exact .inl hc
      | base | exclusions | maximum | filter => cases hkind
    · exact .inr ⟨hnone, hdefault⟩

theorem maximum_mem_iff (h : spec.DescribedBy cs) (n : Nat) :
    .maximum n ∈ cs ↔ spec.maximum = some n := by
  constructor
  · exact fun hmem => h.said _ hmem
  · intro hmax
    obtain ⟨c, hc, hkind, htrue⟩ | ⟨-, hdefault⟩ := h.said_or_default .maximum
    · cases c with
      | maximum m =>
          cases Option.some.inj (hmax.symm.trans htrue)
          exact hc
      | base | exclusions | minimum | filter => cases hkind
    · exact nomatch hmax.symm.trans hdefault

/-- The bounds written are in order exactly if those of the specification are. -/
theorem boundsInOrder_iff (h : spec.DescribedBy cs) :
    BoundsInOrder cs ↔ ∀ max ∈ spec.maximum, spec.minimum ≤ max := by
  simp only [BoundsInOrder, h.lowerBound_iff, h.maximum_mem_iff, forall_eq', Option.mem_def]

end DescribedBy

/-- Components of different kinds whose bounds are the wrong way round are refused for
    that. -/
theorem ofComponents_of_crossed (hdistinct : (cs.map kind).Nodup) (h : ¬ BoundsInOrder cs) :
    ofComponents cs = .error .maximumBelowMinimum := by
  obtain ⟨spec, hspec⟩ := exists_describedBy hdistinct
  rw [hspec.ofComponents_eq]
  exact withBoundsChecked_of_crossed (mt hspec.boundsInOrder_iff.mpr h)

/-- The bounds may come either way round, and are not looked at if a kind comes twice. -/
example : ofComponents [.maximum 1, .minimum 3] = .error .maximumBelowMinimum
    ∧ ofComponents [.minimum 3, .maximum 1] = .error .maximumBelowMinimum
    ∧ ofComponents [.minimum 3, .maximum 1, .minimum 0] = .error .givenTwice := ⟨rfl, rfl, rfl⟩

/-- Components are made into the same, or refused for the same, in any order. -/
theorem ofComponents_perm (h : cs'.Perm cs) : ofComponents cs' = ofComponents cs := by
  by_cases hdistinct : (cs.map kind).Nodup
  · obtain ⟨spec, hspec⟩ := exists_describedBy hdistinct
    rw [hspec.ofComponents_eq, (hspec.perm h).ofComponents_eq]
  · have htwice : ¬ (cs'.map kind).Nodup := mt (h.map kind).nodup_iff.mp hdistinct
    rw [ofComponents_of_twice hdistinct, ofComponents_of_twice htwice]

/-- **COMPONENTS COME IN ANY ORDER**: they are made into a specification exactly if no
    kind comes twice and the maximum, if there is one, is not below the minimum, which is
    zero if there is none.  In any other order they are made into the same specification
    or refused for the same fault.  What they are made into is the specification they
    describe, and it leaves out the names of their exclusions in the order written
    there. -/
theorem components_in_any_order (cs : List SubtreeComponent) :
    ((∃ spec, ofComponents cs = .ok spec) ↔ (cs.map kind).Nodup ∧ BoundsInOrder cs)
      ∧ ∀ cs', cs'.Perm cs → ofComponents cs' = ofComponents cs
        ∧ ∀ spec, ofComponents cs' = .ok spec → spec.DescribedBy cs'
          ∧ ∀ list, .exclusions list ∈ cs' → AsWritten spec.chopBefore spec.chopAfter list := by
  refine ⟨⟨?_, ?_⟩, fun cs' hperm => ⟨ofComponents_perm hperm, fun spec hmade => ?_⟩⟩
  · rintro ⟨spec, hmade⟩
    obtain ⟨hspec, -⟩ := ofComponents_eq_ok_iff.mp hmade
    refine ⟨hspec.distinct, Classical.byContradiction fun hcrossed => ?_⟩
    rw [ofComponents_of_crossed hspec.distinct hcrossed] at hmade
    cases hmade
  · rintro ⟨hdistinct, hordered⟩
    obtain ⟨spec, hspec⟩ := exists_describedBy hdistinct
    exact ⟨spec, ofComponents_eq_ok_iff.mpr ⟨hspec, hspec.boundsInOrder_iff.mp hordered⟩⟩
  · obtain ⟨hspec, -⟩ := ofComponents_eq_ok_iff.mp hmade
    refine ⟨hspec, fun list hlist => ?_⟩
    obtain ⟨hbefore, hafter⟩ := hspec.said _ hlist
    rw [hbefore, hafter]
    exact asWritten_chops list

-- ── Bounds on both sides of an exclusion ─────────────────────────────────────────

/-- A place in the west, named from the base. -/
def west : Dn := ⟨[⟨"locality", "west", by decide, by decide, by decide, by decide⟩]⟩

/-- Another in the east. -/
def east : Dn := ⟨[⟨"locality", "east", by decide, by decide, by decide, by decide⟩]⟩

/-- What is below the two places, the eastern first, and between them the western with
    all below it. -/
def placesLeftOut : List Exclusion := [.chopAfter east, .chopBefore west, .chopAfter west]

/-- From one to three levels below the base, but for the places, with the lower bound in
    front. -/
def minimumFirst : List SubtreeComponent := [.minimum 1, .exclusions placesLeftOut, .maximum 3]

/-- The same with the upper bound in front. -/
def maximumFirst : List SubtreeComponent := [.maximum 3, .minimum 1, .exclusions placesLeftOut]

/-- What both are made into. -/
def betweenBounds : SubtreeSpecification := ⟨Dn.root, [west], [east, west], 1, some 3, none⟩

/-- The bounds may come either way round, on both sides of the exclusions or in front of
    them. -/
theorem bounds_either_way_round :
    minimumFirst.Perm maximumFirst
      ∧ ofComponents maximumFirst = .ok betweenBounds
      ∧ ofComponents minimumFirst = .ok betweenBounds
      ∧ .exclusions placesLeftOut ∈ minimumFirst
      ∧ AsWritten betweenBounds.chopBefore betweenBounds.chopAfter placesLeftOut := by
  have hperm : minimumFirst.Perm maximumFirst :=
    List.perm_append_singleton (SubtreeComponent.maximum 3) [.minimum 1, .exclusions placesLeftOut]
  have hmade : ofComponents maximumFirst = .ok betweenBounds := rfl
  have hmem : .exclusions placesLeftOut ∈ minimumFirst := .tail _ (.head _)
  obtain ⟨hsame, hdescribed⟩ := (components_in_any_order maximumFirst).2 minimumFirst hperm
  have hmade' : ofComponents minimumFirst = .ok betweenBounds := hsame.trans hmade
  exact ⟨hperm, hmade, hmade', hmem, (hdescribed _ hmade').2 _ hmem⟩

end SubtreeSpecification

end DirectoryAccess
