import DirectoryAccess.Proofs.Name.Hierarchy
import DirectoryAccess.Proofs.Server.PolicyReflection

/-! # Confinement — policy stays in its area

    A specification can only narrow what lies within the administrative point of its
    subentry, so an entry is a matter of the subentries directly below it or below one
    of the names above it.  No other subentry has a say: what is cached of it decides
    nothing about the entry, and adding, modifying or deleting it changes no decision. -/

namespace DirectoryAccess

namespace Dn

-- ── The names above ──────────────────────────────────────────────────────────────

/-- A name and the ones above it are those that are reached by going up. -/
theorem mem_self_or_above {p d : Dn} : p ∈ d :: d.ancestors ↔ d.Reaches p := by
  obtain ⟨rdns⟩ := d
  rw [reaches_iff, ancestors]
  induction rdns with
  | nil =>
      rw [ancestors.above, List.mem_singleton, List.suffix_nil]
      exact ⟨fun h => by rw [h], congrArg mk⟩
  | cons r rest ih =>
      rw [ancestors.above, List.mem_cons, ih, List.suffix_cons_iff]
      exact or_congr_left ⟨fun h => by rw [h], congrArg mk⟩

/-- True if the name directly above this one is a given name or above it. -/
def governs (x d : Dn) : Bool :=
  match x.parent? with
  | some p => d.isWithin p
  | none => false

/-- A name governs what is at or below its parent. -/
theorem governs_iff {x d : Dn} : x.governs d = true ↔ ∃ c k, x.key = c :: k ∧ k <:+ d.key := by
  obtain ⟨rdns⟩ := x
  cases rdns with
  | nil => simp [governs, parent?, key]
  | cons r rest =>
      show d.isWithin ⟨rest⟩ = true ↔ _
      rw [isWithin_iff]
      constructor
      · exact fun h => ⟨_, _, rfl, h⟩
      · rintro ⟨c, k, hkey, h⟩
        have hrest : (⟨rest⟩ : Dn).key = k := (List.cons.inj hkey).2
        rw [hrest]
        exact h

theorem governs_congr {x y : Dn} (h : x.key = y.key) (d : Dn) : x.governs d = y.governs d := by
  rw [Bool.eq_iff_iff, governs_iff, governs_iff, h]

/-- The names that govern one are those directly below it or below one above it. -/
theorem governs_iff_isChildOf {x d : Dn} :
    x.governs d = true ↔ ∃ p ∈ d :: d.ancestors, x.isChildOf p = true := by
  simp only [governs_iff, mem_self_or_above]
  constructor
  · rintro ⟨c, k, hkey, hsuffix⟩
    obtain ⟨p, hp, rfl⟩ := suffix_key_iff.mp hsuffix
    exact ⟨p, hp, (isChildOf_iff x p).mpr ⟨c, hkey⟩⟩
  · rintro ⟨p, hp, hchild⟩
    obtain ⟨c, hkey⟩ := (isChildOf_iff x p).mp hchild
    exact ⟨c, p.key, hkey, suffix_key_iff.mpr ⟨p, hp, rfl⟩⟩

/-- A name outside the administrative points above another does not govern it. -/
theorem not_governs_of_outside {x d : Dn} (h : ∀ p ∈ d :: d.ancestors, x.isChildOf p = false) :
    x.governs d = false := by
  rw [← Bool.not_eq_true, governs_iff_isChildOf]
  rintro ⟨p, hp, hchild⟩
  rw [h p hp] at hchild
  cases hchild

theorem isWithin_parent {d p : Dn} (hp : d.parent? = some p) : d.isWithin p = true := by
  obtain ⟨r, rfl⟩ := eq_child_of_parent hp
  exact (isWithin_iff _ p).mpr (List.suffix_cons ..)

/-- What governs the name above a name governs the name. -/
theorem governs_of_parent {x p d : Dn} (hp : d.parent? = some p) (h : x.governs p = true) :
    x.governs d = true := by
  obtain ⟨c, k, hkey, hsuffix⟩ := governs_iff.mp h
  exact governs_iff.mpr ⟨c, k, hkey, hsuffix.trans ((isWithin_iff d p).mp (isWithin_parent hp))⟩

end Dn

-- ── What is kept elsewhere ───────────────────────────────────────────────────────

/-- A map restricted to some names holds under these what it has held. -/
theorem NameMap.get?_filter {β : Type} {p : Dn → Bool}
    (hp : ∀ a b : Dn, a.key = b.key → p a = p b) (m : NameMap β) (x : Dn) :
    (m.filter fun k _ => p k).get? x = if p x then m.get? x else none := by
  refine Option.ext fun v => ?_
  have hfiltered : ∀ e : Dn × β, e ∈ (m.filter fun k _ => p k).entries
      ↔ e ∈ m.entries ∧ p e.1 = true := fun _ => List.mem_filter
  constructor
  · intro h
    obtain ⟨k, hk, hkey⟩ := mem_of_get? _ h
    obtain ⟨hk, hpk⟩ := (hfiltered _).mp hk
    rw [if_pos ((hp x k hkey.symm).trans hpk), ← get?_congr m hkey]
    exact OrdMap.get?_of_mem m hk
  · intro h
    split at h
    · next hpx =>
      obtain ⟨k, hk, hkey⟩ := mem_of_get? m h
      rw [← get?_congr _ hkey]
      exact OrdMap.get?_of_mem _ ((hfiltered (k, v)).mpr ⟨hk, (hp k x hkey).trans hpx⟩)
    · cases h

namespace TupleCache

/-- Two caches keep the same under every name directly below a name or below one above it. -/
def AgreeAbove (c c' : TupleCache) (dn : Dn) : Prop :=
  ∀ p ∈ dn :: dn.ancestors, ∀ x : Dn, x.isChildOf p = true →
    c.subentries.get? x = c'.subentries.get? x

variable {c c' : TupleCache}

/-- Caches agree above a name if they keep the same under every name that governs it. -/
theorem agreeAbove_iff {dn : Dn} : c.AgreeAbove c' dn
    ↔ ∀ x : Dn, x.governs dn = true → c.subentries.get? x = c'.subentries.get? x := by
  constructor
  · intro h x hx
    obtain ⟨p, hp, hchild⟩ := Dn.governs_iff_isChildOf.mp hx
    exact h p hp x hchild
  · intro h p hp x hchild
    exact h x (Dn.governs_iff_isChildOf.mpr ⟨p, hp, hchild⟩)

/-- What agrees above a name agrees above its parent. -/
theorem AgreeAbove.parent {p dn : Dn} (h : c.AgreeAbove c' dn) (hp : dn.parent? = some p) :
    c.AgreeAbove c' p := by
  rw [agreeAbove_iff] at h ⊢
  exact fun x hx => h x (Dn.governs_of_parent hp hx)

/-- Whatever its specification says, an area takes in nothing outside the administrative
    point. -/
theorem governs_of_areaSelects {x dn : Dn} {cached : CachedSubentry} {entry : Option Entry}
    (h : areaSelects x cached dn entry = true) : x.governs dn = true := by
  rw [areaSelects] at h
  split at h
  · next p area hp _ =>
    have hrelative : dn.relativeTo? (area.base.concat p) ≠ none := by
      intro hnone
      rw [SubtreeSpecification.selects, hnone] at h
      cases h
    have hwithin : dn.isWithin (area.base.concat p) = true := by
      rw [Dn.relativeTo?] at hrelative
      by_contra hnot
      exact hrelative (if_neg hnot)
    have hpoint : p.key <:+ (area.base.concat p).key :=
      ⟨area.base.key, List.map_append.symm⟩
    rw [Dn.governs, hp]
    exact (Dn.isWithin_iff dn p).mpr (hpoint.trans ((Dn.isWithin_iff ..).mp hwithin))
  · cases h

/-- What is kept under the names that govern a name. -/
def governing (c : TupleCache) (dn : Dn) : TupleCache :=
  ⟨c.subentries.filter fun k _ => k.governs dn⟩

/-- What does not govern a name prescribes nothing there. -/
theorem prescriptiveTuples_governing (c : TupleCache) (dn : Dn) (entry : Option Entry) :
    (c.governing dn).prescriptiveTuples dn entry = c.prescriptiveTuples dn entry := by
  rw [prescriptiveTuples, prescriptiveTuples]
  congr 1
  show (c.subentries.entries.filter _).filter _ = _
  rw [List.filter_filter]
  refine List.filter_congr fun e _ => ?_
  rw [Bool.and_eq_left_iff_imp]
  exact governs_of_areaSelects

/-- Caches that keep the same under the names that govern a name put the same tuples in
    force there, in the same order. -/
theorem AgreeAbove.prescriptiveTuples_eq {dn : Dn} (h : c.AgreeAbove c' dn)
    (entry : Option Entry) : c.prescriptiveTuples dn entry = c'.prescriptiveTuples dn entry := by
  rw [← prescriptiveTuples_governing c, ← prescriptiveTuples_governing c']
  refine prescriptiveTuples_congr (fun x => ?_) dn entry
  have hfilter : ∀ c : TupleCache, (c.governing dn).subentries.get? x
      = if x.governs dn then c.subentries.get? x else none :=
    fun c => NameMap.get?_filter (fun _ _ hkey => Dn.governs_congr hkey dn) c.subentries x
  rw [hfilter, hfilter]
  split
  · next hx => exact agreeAbove_iff.mp h x hx
  · rfl

/-- A subentry takes what is in force at its administrative point, and any other entry what
    is in force at its own name; either way the same tuples are collected from caches that
    keep the same above it. -/
theorem AgreeAbove.collectTuples_eq {σ : Type} [Backend σ] {entry : Entry}
    (h : c.AgreeAbove c' entry.dn) (includeEntryAci : Bool) :
    (collectTuples c entry includeEntryAci : Action σ _)
      = collectTuples c' entry includeEntryAci := by
  have hprescribed : (prescribedTuples c entry : Action σ _) = prescribedTuples c' entry := by
    rw [prescribedTuples, prescribedTuples]
    cases hp : entry.dn.parent? with
    | none => simp only [h.prescriptiveTuples_eq]
    | some p => simp only [h.prescriptiveTuples_eq, (h.parent hp).prescriptiveTuples_eq]
  rw [collectTuples, collectTuples, hprescribed]

end TupleCache

namespace MemoryStore

/-- The tuples that come to an entry from outside, told from what is stored. -/
def prescribed (s : MemoryStore) (cache : TupleCache) (entry : Entry) : List AciTuple :=
  if entry.isSubentry then
    match entry.dn.parent? with
    | none => []
    | some p =>
        cache.prescriptiveTuples p (s.lookup p)
          ++ match s.lookup p with
            | some above => heldTuples above Attribute.subentryAci
            | none => []
  else cache.prescriptiveTuples entry.dn (some entry)

/-- The tuples in force for an entry, told from what is stored. -/
def inForce (s : MemoryStore) (cache : TupleCache) (entry : Entry) (includeEntryAci : Bool) :
    List AciTuple :=
  s.prescribed cache entry
    ++ if includeEntryAci then heldTuples entry Attribute.entryAci else []

/-- Tuples are collected without a failure. -/
theorem collectTuples_ok (s : MemoryStore) (cache : TupleCache) (entry : Entry)
    (includeEntryAci : Bool) :
    collectTuples cache entry includeEntryAci s
      = .ok (s.inForce cache entry includeEntryAci) s := by
  have hprescribed : prescribedTuples cache entry s = .ok (s.prescribed cache entry) s := by
    rw [prescribedTuples, prescribed]
    split
    · cases entry.dn.parent? with
      | none => rfl
      | some p =>
          have hlookup : (Backend.lookup p : Action MemoryStore _) s = .ok (s.lookup p) s := rfl
          exact Action.bind_of_ok hlookup
    · rfl
  exact (Action.bind_of_ok hprescribed).trans rfl

/-- What is in force for an entry depends on one stored entry at most: for a subentry, on its
    administrative point. -/
theorem inForce_congr {s s' : MemoryStore} {entry : Entry}
    (h : entry.isSubentry = true → ∀ p, entry.dn.parent? = some p → s.lookup p = s'.lookup p)
    (cache : TupleCache) (includeEntryAci : Bool) :
    s.inForce cache entry includeEntryAci = s'.inForce cache entry includeEntryAci := by
  rw [inForce, inForce, prescribed, prescribed]
  split
  · next hsub =>
    cases hp : entry.dn.parent? with
    | none => rfl
    | some p => simp only [h hsub p hp]
  · rfl

end MemoryStore

namespace TupleCache

/-- Caches that agree above an entry put the same tuples in force for it. -/
theorem AgreeAbove.inForce_eq {c c' : TupleCache} {entry : Entry}
    (h : c.AgreeAbove c' entry.dn) (s : MemoryStore) (includeEntryAci : Bool) :
    s.inForce c entry includeEntryAci = s.inForce c' entry includeEntryAci := by
  have hcollect := congrFun (h.collectTuples_eq includeEntryAci) s
  rw [MemoryStore.collectTuples_ok, MemoryStore.collectTuples_ok] at hcollect
  injection hcollect

/-- An operation on a name that does not govern another leaves what is kept above that
    one. -/
theorem agreeAbove_after (c : TupleCache) (s s' : MemoryStore) {op : Operation}
    (hop : op.isRelocation = false) {dn : Dn} (hout : op.target.governs dn = false) :
    (c.after s s' op).AgreeAbove c dn := by
  refine agreeAbove_iff.mpr fun x hx => c.get?_after_of_ne s s' hop fun hkey => ?_
  rw [Dn.governs_congr hkey, hout] at hx
  cases hx

end TupleCache

namespace World

/-- The answer to a question that is put to the tuples in force for an entry. -/
def decision (w : World MemoryStore) (entry : Entry) (includeEntryAci : Bool)
    (question : List AciTuple → AccessCheck) : Except OperationError Bool :=
  match AciStage.tuplesFor entry includeEntryAci w with
  | .ok tuples _ => .ok (question tuples).hasPermission
  | .error cause _ => .error cause

/-- With its cache loaded, the stage finds the tuples in force. -/
theorem tuplesFor_of_loaded {w : World MemoryStore} {t : TupleCache} (ht : w.tuples = some t)
    (entry : Entry) (includeEntryAci : Bool) :
    AciStage.tuplesFor entry includeEntryAci w
      = .ok (w.store.inForce t entry includeEntryAci) w := by
  rw [AciStage.tuplesFor, Action.bind_of_ok (tupleCache_of_loaded ht), onStore, Action.onPart,
    MemoryStore.collectTuples_ok]

/-- A decision rests on the tuples in force. -/
theorem decision_of_loaded {w : World MemoryStore} {t : TupleCache} (ht : w.tuples = some t)
    (entry : Entry) (includeEntryAci : Bool) (question : List AciTuple → AccessCheck) :
    w.decision entry includeEntryAci question
      = .ok (question (w.store.inForce t entry includeEntryAci)).hasPermission := by
  rw [decision, tuplesFor_of_loaded ht]

end World

namespace Server

/-- **POLICY IS CONFINED**: the tuples in force for an entry, and their order, depend on what
    is cached directly below its name or below a name above it.  So an operation that
    relocates nothing and acts on no such name leaves every decision about the entry as it
    was, whatever is specified where it acts, and the entry unless it acts on the entry
    itself.  Only the root may be acted on as the administrative point of a subentry
    without being such a name, and what it holds is in force for the subentry. -/
theorem policy_confined :
    (∀ {σ : Type} [Backend σ] (s : σ) (c c' : TupleCache) (entry : Entry)
      (includeEntryAci : Bool), c.AgreeAbove c' entry.dn →
        collectTuples c entry includeEntryAci s = collectTuples c' entry includeEntryAci s)
    ∧ ∀ {config : Configuration} {server : Server MemoryStore}, Standard config server →
      ∀ (session : Session) (op : Operation), op.isRelocation = false →
      ∀ entry : Entry, (∀ p ∈ entry.dn :: entry.dn.ancestors, op.target.isChildOf p = false) →
        (op.target.same entry.dn = false →
          (server.step session op).2.world.store.lookup entry.dn
            = server.world.store.lookup entry.dn)
        ∧ ((entry.isSubentry = true → ∀ p, entry.dn.parent? = some p → op.target.same p = false) →
          ∀ (includeEntryAci : Bool) (question : List AciTuple → AccessCheck),
            (server.step session op).2.world.decision entry includeEntryAci question
              = server.world.decision entry includeEntryAci question) := by
  refine ⟨fun s c c' entry includeEntryAci h => by rw [h.collectTuples_eq], ?_⟩
  intro config server h session op hop entry hout
  obtain ⟨t, ht⟩ := h.loaded
  rcases h.step_cases session op with ⟨-, hsame⟩ | ⟨-, w, hw, ⟨s', hs', rfl⟩, -⟩
  · rw [hsame]
    exact ⟨fun _ => rfl, fun _ _ _ => rfl⟩
  · have hlookup : ∀ y : Dn, op.target.same y = false →
        s'.lookup y = server.world.store.lookup y := fun y hy =>
      MemoryStore.lookup_after hs' hop fun hkey => by
        rw [(Dn.same_iff op.target y).mpr hkey.symm] at hy
        cases hy
    rw [hw]
    refine ⟨hlookup entry.dn, fun hpoint includeEntryAci question => ?_⟩
    have hforce : s'.inForce (t.after server.world.store s' op) entry includeEntryAci
        = server.world.store.inForce t entry includeEntryAci := by
      rw [(t.agreeAbove_after _ _ hop (Dn.not_governs_of_outside hout)).inForce_eq]
      exact MemoryStore.inForce_congr (fun hsub p hp => hlookup p (hpoint hsub p hp)) t _
    rw [World.decision_of_loaded (World.tuples_after ht op s'), World.decision_of_loaded ht,
      ← hforce]
    rfl

-- ── A policy for users ───────────────────────────────────────────────────────────

/-- An access control subentry that lets everybody read the base of the users and what is
    below it. -/
def usersPolicy : Entry :=
  ((Entry.named (usersName.child (component "cn" "read" (by decide)))).addAva
    Attribute.prescriptiveAci readItem).addAva
    Attribute.objectClass ObjectClass.accessControlSubentry

/-- A server over a directory of a top and the base of its users, with access control. -/
def plainServer : Server MemoryStore :=
  (fresh groupConfig [topName]).run
    [(adminSession, .add (Entry.named topName)), (adminSession, .add (Entry.named usersName))]

/-- The question whether everybody may read an entry. -/
def mayRead (entry : Entry) (tuples : List AciTuple) : AccessCheck :=
  AccessCheck.onEntry (AciStage.requester plainServer.world.groups Session.anonymous) entry
    [.read] tuples

/-- The policy for users takes effect where it stands.  It leaves what is decided about the
    base of the groups as it was, and the top and what is decided about it. -/
theorem users_policy_confined :
    collectTuples (TupleCache.empty.keepUnder usersPolicy.dn usersPolicy)
          (Entry.named groupsName) true plainServer.world.store
        = collectTuples TupleCache.empty (Entry.named groupsName) true plainServer.world.store
      ∧ ((plainServer.step adminSession (.add usersPolicy)).2.world.decision
          (Entry.named usersName) true (mayRead (Entry.named usersName))).toOption = some true
      ∧ (plainServer.step adminSession (.add usersPolicy)).2.world.decision
          (Entry.named groupsName) true (mayRead (Entry.named groupsName))
        = plainServer.world.decision (Entry.named groupsName) true
          (mayRead (Entry.named groupsName))
      ∧ (plainServer.step adminSession (.add usersPolicy)).2.world.store.lookup topName
        = plainServer.world.store.lookup topName
      ∧ (plainServer.step adminSession (.add usersPolicy)).2.world.decision
          (Entry.named topName) true (mayRead (Entry.named topName))
        = plainServer.world.decision (Entry.named topName) true
          (mayRead (Entry.named topName)) := by
  have hstandard : Standard groupConfig plainServer :=
    ((Reachable.start (.empty [topName]) (start_fresh groupConfig _)).run _).standard
  obtain ⟨hcaches, hsteps⟩ := policy_confined
  have hsteps := hsteps hstandard adminSession (.add usersPolicy) rfl
  obtain ⟨-, hgroups⟩ := hsteps (Entry.named groupsName) (by decide +kernel)
  obtain ⟨hlookup, htop⟩ := hsteps (Entry.named topName) (by decide +kernel)
  have hagree : (TupleCache.empty.keepUnder usersPolicy.dn usersPolicy).AgreeAbove
      TupleCache.empty groupsName := by
    refine TupleCache.agreeAbove_iff.mpr fun x hx => ?_
    refine TupleCache.empty.get?_keepUnder_of_ne usersPolicy fun hkey => ?_
    have hnot : usersPolicy.dn.governs groupsName = false := by decide +kernel
    rw [Dn.governs_congr hkey, hnot] at hx
    cases hx
  exact ⟨hcaches _ _ _ _ _ hagree, by decide +kernel, hgroups nofun true _,
    hlookup (by decide +kernel), htop nofun true _⟩

end Server

end DirectoryAccess
