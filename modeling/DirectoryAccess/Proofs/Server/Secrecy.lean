import DirectoryAccess.Proofs.Cache.Group
import DirectoryAccess.Proofs.Server.PolicyCoherence
import DirectoryAccess.Proofs.Server.Reading
import DirectoryAccess.Proofs.Server.Transparency

/-! # Secrecy — two servers that differ in what somebody may not see

    Take two servers with access control that are the same but for one attribute of one
    entry, and somebody who is denied that attribute in both.  Whatever they ask for, both
    give the same answer, with two exceptions.  The filter of a search is held against the
    whole entry, and who may browse an entry learns whether it meets it.  And what a
    modification leaves as it is needs no permission: who writes over the attribute what it
    holds already is not refused, while everybody else is.  With these exceptions taken
    exactly, the answers are the same for all other operations and for no others. -/

namespace DirectoryAccess

open DirectoryAccess.Action

-- ── What modifications come to ───────────────────────────────────────────────────

/-- What modifications come to for somebody who is asked about them. -/
def World.modified (w : World MemoryStore) (asker : Requester) (dn : Dn)
    (mods : List Modification) : Except OperationError Unit :=
  if mods.isEmpty then .error .emptyRequest
  else do
    let e ← w.store.required dn
    modifying asker (w.inForce e) e mods

section

variable {w : World MemoryStore} {asker : Requester} {dn : Dn}

/-- Modifications of a stored entry come to what they come to on the entry. -/
theorem World.modified_of_some {e : Entry} (he : w.store.lookup dn = some e) (m : Modification)
    (rest : List Modification) :
    w.modified asker dn (m :: rest) = modifying asker (w.inForce e) e (m :: rest) := by
  have hrequired : w.store.required dn = .ok e := by
    rw [MemoryStore.required, he]
  show (w.store.required dn).bind _ = _
  rw [hrequired]
  rfl

/-- Modifications under a name that is not stored have no entry to be made to. -/
theorem World.modified_of_none (he : w.store.lookup dn = none) (m : Modification)
    (rest : List Modification) :
    w.modified asker dn (m :: rest) = .error .noMatchingEntries := by
  have hrequired : w.store.required dn = .error .noMatchingEntries := by
    rw [MemoryStore.required, he]
  show (w.store.required dn).bind _ = _
  rw [hrequired]
  rfl

end

namespace AciStage

/-- The computation is carried out, or it is refused for this cause and has changed nothing. -/
def Concludes (act : Handling MemoryStore (Outcome (World MemoryStore))) (w : World MemoryStore) :
    Except OperationError Unit → Prop
  | .ok _ => ∃ w', act w = .ok .done w'
  | .error cause => act w = .error cause w

section

variable {w : World MemoryStore} {α : Type} {x : Handling MemoryStore α}
  {f : α → Handling MemoryStore (Outcome (World MemoryStore))}

/-- A sequence comes to what its actions come to, if the first one changes nothing. -/
theorem Concludes.bind {r : Except OperationError α} {g : α → Except OperationError Unit}
    (hx : Gives x w r) (hf : ∀ a, r = .ok a → Concludes (f a) w (g a)) :
    Concludes (x >>= f) w (r >>= g) := by
  cases r with
  | error cause => exact bind_of_error hx
  | ok a =>
      have hrest := hf a rfl
      show Concludes _ w (g a)
      cases hg : g a with
      | error cause =>
          rw [hg] at hrest
          exact (bind_of_ok hx).trans hrest
      | ok u =>
          rw [hg] at hrest
          obtain ⟨w', hw'⟩ := hrest
          exact ⟨w', (bind_of_ok hx).trans hw'⟩

/-- What changes nothing may come before. -/
theorem Concludes.after {a : α} {r : Except OperationError Unit} (hx : Gives x w (.ok a))
    (hf : Concludes (f a) w r) : Concludes (x >>= f) w r :=
  Concludes.bind (r := .ok a) (g := fun _ => r) hx fun b hb => by
    cases hb
    exact hf

end

/-- Modifications are carried out, or refused for the cause that they come to. -/
theorem concludes_modify {stage : AciStage} {session : Session} {w : World MemoryStore}
    {t : TupleCache} (ht : w.tuples = some t) (hasked : stage.bypasses w.groups session = false)
    (dn : Dn) (mods : List Modification) :
    Concludes (stage.modify session dn mods (dispatch (.modify dn mods))) w
      (w.modified (requester w.groups session) dn mods) := by
  rw [World.modified, AciStage.modify]
  split
  · rfl
  refine Concludes.bind (World.gives_onStore (w.store.gives_required dn)) fun e hrequired => ?_
  have he : w.store.lookup dn = some e := by
    rw [MemoryStore.required] at hrequired
    split at hrequired
    · next hfound =>
      rw [hfound, Except.ok.inj hrequired]
    · cases hrequired
  refine Concludes.bind rfl fun _ hvalid => Concludes.after (Gives.get w) ?_
  simp only [hasked, Bool.not_false, if_true]
  refine Concludes.after (tuplesFor_ok ht e) (Concludes.bind rfl fun final hchecked => ?_)
  have hstored : w.store.after (.modify dn mods) = (e.modifyAll mods).map fun e =>
      { w.store with entries := w.store.entries.insert dn e } := by
    rw [MemoryStore.after, MemoryStore.modify, show w.store.entries.get? dn = some e from he]
    dsimp only
    cases e.modifyAll mods <;> rfl
  cases hm : e.modifyAll mods with
  | error cause =>
      rw [hm] at hstored
      exact bind_of_error (dispatch_of_error rfl hstored)
  | ok stored =>
      rw [hm] at hstored
      exact ⟨_, (bind_of_ok (dispatch_of_ok rfl hstored)).trans
        (follows_modify ht he hvalid hstored .done)⟩
end AciStage

-- ── What tells two worlds apart ──────────────────────────────────────────────────

/-- The operations that tell two worlds apart, for somebody who is denied an attribute of the
    entry at a name: a search from a base that is there and sifts them apart, and
    modifications of the entry that tell what it is in one from what it is in the other. -/
def Operation.Discloses (w w' : World MemoryStore) (asker : Requester) (x : Dn) (a : String) :
    Operation → Prop
  | .search base scope filter _ => (base.isRoot || w.store.entries.contains base) = true
      ∧ AciStage.SiftsApart w w' asker x base scope filter
  | .modify dn mods => dn.same x = true
      ∧ ∃ e e', w.store.lookup x = some e ∧ w'.store.lookup x = some e'
        ∧ TellsApart asker (w.inForce e) a e e' mods
  | _ => False

/-- If an operation modifies the entry at a name, it spells an attribute of it plainly, that
    is, so that the attribute is read and written under one name. -/
def Operation.SpellsPlainly (x : Dn) (a : String) : Operation → Prop
  | .modify dn mods => dn.same x = true → ∀ m ∈ mods, m.Handles a → Text.Plain m.attr
  | _ => True

section

variable {x : Dn} {a : String} {w w' : World MemoryStore} (h : w.AlikeBut x a w')
  (ha : a ∉ Attribute.deciding) {asker : Requester} {dn : Dn}

include h ha

/-- Modifications of another entry come to the same in both worlds. -/
theorem World.modified_eq_of_ne (hkey : dn.key ≠ x.key) (m : Modification)
    (rest : List Modification) :
    w.modified asker dn (m :: rest) = w'.modified asker dn (m :: rest) := by
  have hpaired := h.store.lookup dn
  generalize hfound : w.store.lookup dn = found at hpaired
  generalize hfound' : w'.store.lookup dn = found' at hpaired
  cases hpaired with
  | none => rw [World.modified_of_none hfound, World.modified_of_none hfound']
  | same e =>
      rw [World.modified_of_some hfound, World.modified_of_some hfound',
        inForce_eq h ha (.refl a e)]
  | differ hsame _ => exact absurd hsame hkey

variable (hdenied : w.Denies asker x a) (hoverlooked : w.Overlooks x a)
  (hdenied' : w'.Denies asker x a)

include hdenied hoverlooked hdenied'

/-- Modifications of the entry itself come to the same in both worlds, exactly if they do not
    tell its two states apart. -/
theorem World.modified_eq_iff_of_some (hsame : dn.same x = true) {e e' : Entry}
    (he : w.store.lookup x = some e) (he' : w'.store.lookup x = some e')
    (halike : e.AlikeBut a e') (hbuilt : e.Built) (hbuilt' : e'.Built) {m : Modification}
    {rest : List Modification} (hspelt : (Operation.modify dn (m :: rest)).SpellsPlainly x a) :
    w.modified asker dn (m :: rest) = w'.modified asker dn (m :: rest)
      ↔ ¬(Operation.modify dn (m :: rest)).Discloses w w' asker x a := by
  have hlookup : ∀ s : MemoryStore, s.lookup dn = s.lookup x :=
    fun _ => MemoryStore.lookup_congr ((Dn.same_iff dn x).mp hsame)
  have hforce := inForce_eq h ha halike
  have hdeniedOn' := hdenied'.deniedOn he'
  rw [← hforce] at hdeniedOn'
  rw [World.modified_of_some ((hlookup _).trans he), World.modified_of_some ((hlookup _).trans he'),
    ← hforce, modifying_eq_iff ha (hoverlooked e he) halike hbuilt.rulesKept hbuilt'.rulesKept
      (hdenied.deniedOn he) hdeniedOn' (hspelt hsame)]
  refine not_congr ⟨fun htold => ⟨hsame, e, e', he, he', htold⟩, ?_⟩
  rintro ⟨-, d, d', hd, hd', htold⟩
  cases he.symm.trans hd
  cases he'.symm.trans hd'
  exact htold

/-- Modifications come to the same in both worlds, exactly if they do not disclose anything. -/
theorem World.modified_eq_iff (hbuilt : ∀ e, w.store.lookup x = some e → e.Built)
    (hbuilt' : ∀ e, w'.store.lookup x = some e → e.Built) {mods : List Modification}
    (hspelt : (Operation.modify dn mods).SpellsPlainly x a) :
    w.modified asker dn mods = w'.modified asker dn mods
      ↔ ¬(Operation.modify dn mods).Discloses w w' asker x a := by
  cases mods with
  | nil =>
      refine iff_of_true rfl ?_
      rintro ⟨-, _, _, -, -, htold⟩
      exact htold.one Iff.rfl
  | cons m rest =>
      by_cases hkey : dn.key = x.key
      · have hsame : dn.same x = true := (Dn.same_iff dn x).mpr hkey
        have hpaired := h.store.lookup x
        generalize he : w.store.lookup x = found at hpaired
        generalize he' : w'.store.lookup x = found' at hpaired
        cases hpaired with
        | none =>
            rw [World.modified_of_none ((MemoryStore.lookup_congr hkey).trans he),
              World.modified_of_none ((MemoryStore.lookup_congr hkey).trans he')]
            refine iff_of_true rfl ?_
            rintro ⟨-, _, _, hfound, -⟩
            cases he.symm.trans hfound
        | same e =>
            exact World.modified_eq_iff_of_some h ha hdenied hoverlooked hdenied' hsame he he'
              (.refl a e) (hbuilt e he) (hbuilt' e he') hspelt
        | @differ e e' _ halike =>
            exact World.modified_eq_iff_of_some h ha hdenied hoverlooked hdenied' hsame he he'
              halike (hbuilt e he) (hbuilt' e' he') hspelt
      · refine iff_of_true (World.modified_eq_of_ne h ha hkey m rest) ?_
        rintro ⟨hsame, -⟩
        exact hkey ((Dn.same_iff dn x).mp hsame)

end

/-- Somebody may add no other value to an attribute of the entry at a name. -/
def World.Seals (w : World MemoryStore) (asker : Requester) (x : Dn) (a : String) : Prop :=
  ∀ e, w.store.lookup x = some e → ∀ v, (e.valuesAt a).contains v = false →
    ((AccessCheck.onEntry asker e [.add] (w.inForce e)).onValue a v).hasPermission = false

/-- Where no other value may be added, modifications disclose something exactly if they are
    granted as far as they are about other attributes, and change nothing of the attribute in
    just one of the worlds. -/
theorem Operation.discloses_modify_iff {x : Dn} {a : String} {w w' : World MemoryStore}
    (h : w.AlikeBut x a w') (ha : a ∉ Attribute.deciding) {asker : Requester}
    (hseals : w.Seals asker x a) (hseals' : w'.Seals asker x a) (dn : Dn)
    (mods : List Modification) :
    (Operation.modify dn mods).Discloses w w' asker x a
      ↔ dn.same x = true
        ∧ ∃ e e', w.store.lookup x = some e ∧ w'.store.lookup x = some e'
          ∧ validateSubentry (mods.foldl Entry.project e) = .ok ()
          ∧ OthersGranted asker e (w.inForce e) a e mods
          ∧ ¬(e.Keeps a mods ↔ e'.Keeps a mods) := by
  have hobject : a ≠ Attribute.objectClass := by
    rintro rfl
    exact ha (List.mem_cons_self ..)
  have hone : ∀ e e', w.store.lookup x = some e → w'.store.lookup x = some e' →
      ((SparedBy asker e (w.inForce e) a e mods ↔ SparedBy asker e' (w.inForce e) a e' mods)
        ↔ (e.Keeps a mods ↔ e'.Keeps a mods)) := by
    intro e e' he he'
    have hentry := h.store.lookup x
    rw [he, he'] at hentry
    have hclosed' := hseals' e' he'
    rw [← inForce_eq h ha hentry.alike] at hclosed'
    rw [sparedBy_iff_keeps (hseals e he) rfl hobject, sparedBy_iff_keeps hclosed' rfl hobject]
  refine and_congr_right fun _ => exists_congr fun e => exists_congr fun e' => ?_
  refine and_congr_right fun he => and_congr_right fun he' => ⟨fun htold => ?_, ?_⟩
  · exact ⟨htold.valid, htold.others, fun hkept => htold.one ((hone e e' he he').mpr hkept)⟩
  · rintro ⟨hvalid, hothers, hkept⟩
    exact ⟨hvalid, hothers, fun hspared => hkept ((hone e e' he he').mp hspared)⟩

namespace Server

section

variable {config : Configuration} (hon : config.accessControlEnabled = true)
  {session : Session} {w w' : World MemoryStore}

include hon

-- ── Through the stages ───────────────────────────────────────────────────────────

/-- An operation whose outcome is the same in both worlds has the same answer, unless it is a
    search, whose cursor is still to be read. -/
theorem agree_perform {op : Operation} (hop : ∀ base scope filter attrs,
      op ≠ .search base scope filter attrs)
    (h : Agree ((AciStage.ofConfiguration config).handle session (prepare op)
        (dispatch (prepare op)))
      ((AciStage.ofConfiguration config).handle session (prepare op) (dispatch (prepare op))) w w'
      fun o o' _ _ => o = o') :
    Agree (perform (standardStages config) session op) (perform (standardStages config) session op)
      w w' fun answer answer' _ _ => answer = answer' := by
  rw [← proceed_eq hon] at h
  have hexecuted : Agree (Chain.execute (standardStages config) session (prepare op))
      (Chain.execute (standardStages config) session (prepare op)) w w' fun o o' _ _ => o = o' :=
    h.bind fun _ _ _ _ ho => congrArg (Chain.pick (prepare op)) ho
  refine hexecuted.bind ?_
  rintro o _ v v' rfl
  cases op with
  | search base scope filter attrs => exact absurd rfl (hop base scope filter attrs)
  | compare _ _ _ | lookup _ _ | hasEntry _ => exact Agree.after_except rfl fun _ _ => rfl
  | add _ | delete _ | modify _ _ | rename _ _ _ | move _ _ | moveAndRename _ _ _ _ =>
      exact Agree.after_except rfl fun _ _ => rfl

/-- Two servers have the same answer to an operation that has the same outcome in their worlds,
    unless it is a search. -/
theorem step_eq_of_agree {server server' : Server MemoryStore} (hstandard : Standard config server)
    (hstandard' : Standard config server') {op : Operation}
    (hop : ∀ base scope filter attrs, op ≠ .search base scope filter attrs)
    (h : Agree ((AciStage.ofConfiguration config).handle session (prepare op)
        (dispatch (prepare op)))
      ((AciStage.ofConfiguration config).handle session (prepare op) (dispatch (prepare op)))
      server.world server'.world fun o o' _ _ => o = o') :
    (server.step session op).1 = (server'.step session op).1 := by
  have hperform := agree_perform hon hop h
  rw [step, step, hstandard.stages_eq, hstandard'.stages_eq]
  rw [Agree] at hperform
  cases hr : perform (standardStages config) session op server.world <;>
    cases hr' : perform (standardStages config) session op server'.world <;>
    simp only [hr, hr'] at hperform ⊢
  · rw [hperform]
  · rw [hperform]

variable {server server' : Server MemoryStore} (hstandard : Standard config server)

include hstandard

/-- What a session that is asked is told of modifications is what they come to. -/
theorem step_modify
    (hasked : (AciStage.ofConfiguration config).bypasses server.world.groups session = false)
    (dn : Dn) (mods : List Modification) :
    (server.step session (.modify dn mods)).1
      = (server.world.modified (AciStage.requester server.world.groups session) dn mods).map
          fun _ => .done := by
  obtain ⟨t, ht⟩ := hstandard.loaded
  have hconcludes : AciStage.Concludes ((AciStage.ofConfiguration config).handle session
      (.modify dn mods) (dispatch (.modify dn mods))) server.world
      (server.world.modified (AciStage.requester server.world.groups session) dn mods) :=
    .after (World.tupleCache_of_loaded ht) (AciStage.concludes_modify ht hasked dn mods)
  rw [← proceed_eq hon] at hconcludes
  rw [step, hstandard.stages_eq]
  generalize server.world.modified _ dn mods = r at hconcludes ⊢
  cases r with
  | error cause =>
      rw [perform_of_refused rfl hconcludes]
      rfl
  | ok u =>
      obtain ⟨w', hw'⟩ := hconcludes
      rw [perform_of_done rfl hw']
      rfl

end

-- ── Two servers ──────────────────────────────────────────────────────────────────

section

variable {config : Configuration} {server server' : Server MemoryStore}
  (hstandard : Standard config server) (hstandard' : Standard config server') {x : Dn}
  {a : String} (halike : server.world.AlikeBut x a server'.world) (ha : a ∉ Attribute.deciding)
  {session : Session}
  (hasked : (AciStage.ofConfiguration config).bypasses server.world.groups session = false)
  (hdenied : server.world.Denies (AciStage.requester server.world.groups session) x a)
  (hoverlooked : server.world.Overlooks x a)

include hstandard hstandard' halike ha hasked hdenied hoverlooked

/-- A search has the same answer, exactly if it does not disclose anything. -/
theorem search_eq_iff (base : Dn) (scope : SearchScope) (filter : Filter)
    (attrs : Option (List String)) :
    (server.step session (.search base scope filter attrs)).1
        = (server'.step session (.search base scope filter attrs)).1
      ↔ ¬(Operation.search base scope filter attrs).Discloses server.world server'.world
          (AciStage.requester server.world.groups session) x a := by
  have hasked' : (AciStage.ofConfiguration config).bypasses server'.world.groups session
      = false := halike.groups_eq ▸ hasked
  rw [step_search hstandard, step_search hstandard', World.searchedFor, World.searchedFor,
    shows_of_asked hasked, shows_of_asked hasked', ← halike.groups_eq,
    ← halike.store.contains_eq]
  have hfound := AciStage.filterMap_found_eq_iff halike ha hdenied hoverlooked base scope filter
    attrs
  have hthere : (base.isRoot || server.world.store.entries.contains base)
      = !(!base.isRoot && !server.world.store.entries.contains base) := by
    rw [Bool.not_and, Bool.not_not, Bool.not_not]
  rw [Operation.Discloses, hthere]
  cases !base.isRoot && !server.world.store.entries.contains base with
  | true => exact iff_of_true rfl fun hdiscloses => Bool.false_ne_true hdiscloses.1
  | false =>
      have hentries : ∀ es es' : List Entry,
          (Except.ok (ε := OperationError) (Answer.entries es) = .ok (.entries es'))
            ↔ es = es' := fun es es' => by rw [Except.ok.injEq, Answer.entries.injEq]
      refine (hentries _ _).trans (hfound.trans (not_congr ?_))
      exact (and_iff_right rfl).symm

end

/-- **UNREADABLE VALUES STAY SECRET**, but for what is disclosed: two servers with access
    control that are the same but for one attribute of one entry, which is denied to somebody
    in both, give them the same answer to an operation that spells the attribute plainly,
    exactly if it is none of those that disclose. -/
theorem unreadable_values_secret_iff {config : Configuration}
    (hon : config.accessControlEnabled = true) {server server' : Server MemoryStore}
    (hstandard : Standard config server) (hstandard' : Standard config server') {x : Dn}
    (hbuilt : ∀ e, server.world.store.lookup x = some e → e.Built)
    (hbuilt' : ∀ e, server'.world.store.lookup x = some e → e.Built) {a : String}
    (halike : server.world.AlikeBut x a server'.world) (ha : a ∉ Attribute.deciding)
    {session : Session}
    (hadmin : server.world.groups.isAdministrator session.effective.dn = false)
    (hdenied : server.world.Denies (AciStage.requester server.world.groups session) x a)
    (hdenied' : server'.world.Denies (AciStage.requester server'.world.groups session) x a)
    (hoverlooked : server.world.Overlooks x a) {op : Operation} (hspelt : op.SpellsPlainly x a) :
    (server.step session op).1 = (server'.step session op).1
      ↔ ¬op.Discloses server.world server'.world
          (AciStage.requester server.world.groups session) x a := by
  have hasked := not_bypasses hon hadmin
  rw [← halike.groups_eq] at hdenied'
  -- an operation that tells nothing has its outcome once the tuples are at hand
  have hagree : ∀ {next : Handling MemoryStore (Outcome (World MemoryStore))},
      Agree next next server.world server'.world (fun o o' _ _ => o = o') →
      Agree (World.tupleCache >>= fun _ => next) (World.tupleCache >>= fun _ => next)
        server.world server'.world fun o o' _ _ => o = o' :=
    fun hnext => Tell.bind (tell_tupleCache halike.tuples_eq) fun _ _ _ => hnext
  cases op with
  | search base scope filter attrs =>
      exact search_eq_iff hstandard hstandard' halike ha hasked hdenied hoverlooked ..
  | modify dn mods =>
      have hdone : ∀ r r' : Except OperationError Unit,
          r.map (fun _ => Answer.done) = r'.map (fun _ => Answer.done) ↔ r = r' := by
        intro r r'
        cases r <;> cases r' <;> simp [Except.map]
      rw [step_modify hon hstandard hasked, step_modify hon hstandard'
        (halike.groups_eq ▸ hasked), hdone, ← halike.groups_eq]
      exact World.modified_eq_iff halike ha hdenied hoverlooked hdenied' hbuilt hbuilt' hspelt
  | add entry =>
      exact iff_of_true (step_eq_of_agree hon hstandard hstandard' (by simp)
        (hagree (AciStage.agree_add halike ha hasked entry))) id
  | delete dn =>
      exact iff_of_true (step_eq_of_agree hon hstandard hstandard' (by simp)
        (hagree (AciStage.agree_delete halike ha hasked dn))) id
  | rename dn rdn deleteOld =>
      exact iff_of_true (step_eq_of_agree hon hstandard hstandard' (by simp)
        (hagree (AciStage.agree_rename halike ha hasked dn rdn deleteOld))) id
  | move dn superior =>
      exact iff_of_true (step_eq_of_agree hon hstandard hstandard' (by simp)
        (hagree (AciStage.agree_move halike ha hasked dn superior))) id
  | moveAndRename dn superior rdn deleteOld =>
      exact iff_of_true (step_eq_of_agree hon hstandard hstandard' (by simp)
        (hagree (AciStage.agree_moveAndRename halike ha hasked dn superior rdn deleteOld))) id
  | compare dn attr value =>
      exact iff_of_true (step_eq_of_agree hon hstandard hstandard' (by simp)
        (hagree (AciStage.agree_compare halike ha hasked hdenied hoverlooked dn
          (Attribute.readAs_lowercase attr) value))) id
  | lookup dn attrs =>
      exact iff_of_true (step_eq_of_agree hon hstandard hstandard' (by simp)
        (hagree (AciStage.agree_lookup halike ha hasked hdenied hoverlooked dn attrs))) id
  | hasEntry dn =>
      exact iff_of_true (step_eq_of_agree hon hstandard hstandard' (by simp)
        (hagree (AciStage.agree_hasEntry halike ha dn))) id

-- ── Where two such servers come from ─────────────────────────────────────────────

/-- Before and after modifications of an attribute that no cache is built from, a server is
    the same but for that attribute. -/
theorem alikeBut_step_modify {config : Configuration} {server : Server MemoryStore}
    (h : Standard config server) (session : Session) {x dn : Dn} {e : Entry}
    (hx : (x, e) ∈ server.world.store.entries.entries) (hdn : dn.key = x.key) {a : String}
    {mods : List Modification} (hmods : ∀ m ∈ mods, Text.lowercase m.attr = a)
    (hmember : touches mods Attribute.member = false)
    (hunique : touches mods Attribute.uniqueMember = false)
    (hcached : TupleCache.concerns mods = false) :
    server.world.AlikeBut x a (server.step session (.modify dn mods)).2.world := by
  rcases h.step_cases session (.modify dn mods) with ⟨-, hsame⟩ | ⟨-, w, hw, ⟨s', hs', rfl⟩, -⟩
  · rw [hsame]
    exact ⟨.refl x a _, rfl, rfl⟩
  · rw [hw]
    refine ⟨.of_modify hx hdn hmods hs', ?_, ?_⟩
    · show server.world.groups = GroupCache.after _ _ (.modify dn mods)
      rw [GroupCache.after]
      split
      · rw [GroupCache.groupModified_of_untouched hmember hunique]
      · rfl
    · obtain ⟨t, ht⟩ := h.loaded
      have hafter : t.after server.world.store s' (.modify dn mods) = t := by
        rw [TupleCache.after]
        split
        · rw [hcached]
          rfl
        · rfl
      show server.world.tuples = server.world.tuples.map _
      rw [ht, Option.map_some, hafter]

/-- The items in force for the entry at a name protect nothing but entries themselves. -/
def GuardsEntries (w : World MemoryStore) (x : Dn) : Prop :=
  ∀ e, w.store.lookup x = some e → ∀ t ∈ w.inForce e, ∀ item ∈ t.protectedItems, item = .entry

section

variable {w w' : World MemoryStore} {x : Dn}

/-- Worlds that are alike guard entries alike. -/
theorem guardsEntries_congr {a : String} (halike : w.AlikeBut x a w') (ha : a ∉ Attribute.deciding)
    (h : GuardsEntries w x) : GuardsEntries w' x := by
  intro e' he'
  have hpaired := halike.store.lookup x
  rw [he'] at hpaired
  generalize hfound : w.store.lookup x = found at hpaired
  cases hpaired with
  | same _ =>
      rw [← inForce_eq halike ha (.refl a e')]
      exact h e' hfound
  | @differ e _ _ hentry =>
      rw [← inForce_eq halike ha hentry]
      exact h e hfound

/-- Where only entries are protected, everybody is denied every attribute. -/
theorem denies_of_guardsEntries (h : GuardsEntries w x) (asker : Requester) (a : String) :
    w.Denies asker x a := by
  intro e he op
  have hcovers : ∀ target, target ≠ .entry → ∀ t ∈ w.inForce e, ∀ item ∈ t.protectedItems,
      AccessCheck.covers { AccessCheck.onEntry asker e [op] (w.inForce e) with target := target }
        item = false := by
    intro target htarget t ht item hitem
    rw [h e he t ht item hitem]
    match target with
    | .entry => exact absurd rfl htarget
    | .attribute _ | .value _ _ => rfl
  exact ⟨AccessCheck.not_hasPermission_of_covers (List.cons_ne_nil _ _)
      (hcovers (.attribute a) fun hentry => nomatch hentry),
    fun v _ => AccessCheck.not_hasPermission_of_covers (List.cons_ne_nil _ _)
      (hcovers (.value a v) fun hentry => nomatch hentry)⟩

/-- Where only entries are protected no restriction reads an attribute. -/
theorem overlooks_of_guardsEntries (h : GuardsEntries w x) (a : String) : w.Overlooks x a := by
  intro e he t ht restrictions hrestrictions
  cases h e he t ht _ hrestrictions

end

-- ── A small directory ────────────────────────────────────────────────────────────

/-- An item that lets everybody browse and read an entry, but none of its attributes. -/
def browseItem : String :=
  "\x7b identificationTag \"look\", precedence 1, authenticationLevel none, itemOrUserFirst " ++
  "itemFirst: \x7b protectedItems \x7b entry \x7d, itemPermissions " ++
  "\x7b \x7b userClasses \x7b allUsers \x7d, grantsAndDenials " ++
  "\x7b grantBrowse, grantRead, grantReturnDN \x7d \x7d \x7d \x7d \x7d"

/-- An access control subentry with this item. -/
def browsePolicy : Entry :=
  ((Entry.named policyName).addAva Attribute.prescriptiveAci browseItem).addAva
    Attribute.objectClass ObjectClass.accessControlSubentry

/-- An entry with a description that only administrators may see. -/
def describedEntry : Entry := (Entry.named deputyName).addAva Attribute.description "one"

/-- A server over a directory with the policy and the entry. -/
def describedServer : Server MemoryStore :=
  (policyServer browsePolicy).run [(adminSession, .add describedEntry)]

/-- What an administrator may do to the description. -/
def redescribing : List Modification := [.replace Attribute.description ["two"]]

/-- The server once an administrator has described the entry in another way. -/
def redescribedServer : Server MemoryStore :=
  (describedServer.step adminSession (.modify deputyName redescribing)).2

theorem reachable_described : Reachable groupConfig describedServer :=
  ((Reachable.start (.empty [topName]) (start_fresh _ _)).run _).run _

/-- The entry as an administrator describes it in another way. -/
def redescribedEntry : Entry := (Entry.named deputyName).addAva Attribute.description "two"

theorem lookup_described :
    describedServer.world.store.lookup deputyName = some describedEntry := by
  decide +kernel

theorem lookup_redescribed :
    redescribedServer.world.store.lookup deputyName = some redescribedEntry := by
  decide +kernel

/-- The two servers are the same but for the description. -/
theorem alike_described :
    describedServer.world.AlikeBut deputyName Attribute.description redescribedServer.world := by
  refine alikeBut_step_modify reachable_described.standard adminSession (e := describedEntry)
    ?_ rfl ?_ ?_ ?_ ?_
  all_goals decide +kernel

/-- True for the protected item that is the entry itself. -/
def isEntryItem : ProtectedItem → Bool
  | .entry => true
  | _ => false

/-- The items in force for the entry protect nothing but entries themselves. -/
theorem description_unguarded : GuardsEntries describedServer.world deputyName := by
  have hitems : ((describedServer.world.inForce describedEntry).all fun t =>
      t.protectedItems.all isEntryItem) = true := by
    decide +kernel
  intro e he t ht item hitem
  cases lookup_described.symm.trans he
  have hentry := List.all_eq_true.mp (List.all_eq_true.mp hitems t ht) item hitem
  cases item <;> first | rfl | cases hentry

/-- Everybody is denied the description by both servers. -/
theorem description_denied (asker : Requester) :
    describedServer.world.Denies asker deputyName Attribute.description
      ∧ redescribedServer.world.Denies asker deputyName Attribute.description :=
  ⟨denies_of_guardsEntries description_unguarded asker _,
    denies_of_guardsEntries (guardsEntries_congr alike_described (by decide)
      description_unguarded) asker _⟩

theorem description_overlooked :
    describedServer.world.Overlooks deputyName Attribute.description :=
  overlooks_of_guardsEntries description_unguarded _

/-- Reading the entry, anybody is told the same by both servers: that it is there, and
    nothing of its description.  Writing the new description over what there is, anybody is
    told which of them has it. -/
theorem description_not_read :
    ((describedServer.step Session.anonymous (.lookup deputyName none)).1
          = (redescribedServer.step Session.anonymous (.lookup deputyName none)).1
        ∧ (describedServer.step Session.anonymous (.lookup deputyName none)).1
          = .ok (.entry (Entry.named deputyName)))
      ∧ (Operation.modify deputyName redescribing).Discloses describedServer.world
          redescribedServer.world
          (AciStage.requester describedServer.world.groups Session.anonymous) deputyName
          Attribute.description := by
  have hon : groupConfig.accessControlEnabled = true := rfl
  have hstandard := reachable_described.standard
  have hbuilt : ∀ e, describedServer.world.store.lookup deputyName = some e → e.Built := by
    intro e he
    cases lookup_described.symm.trans he
    exact (Entry.Built.named deputyName).edited (.addAva Attribute.description "one")
  have hbuilt' : ∀ e, redescribedServer.world.store.lookup deputyName = some e → e.Built := by
    intro e he
    cases lookup_redescribed.symm.trans he
    exact (Entry.Built.named deputyName).edited (.addAva Attribute.description "two")
  have hadmin : describedServer.world.groups.isAdministrator Session.anonymous.effective.dn
      = false := by
    decide +kernel
  refine ⟨⟨?_, by decide +kernel⟩, ?_⟩
  · have hspelt : (Operation.lookup deputyName none).SpellsPlainly deputyName
        Attribute.description := trivial
    exact (unreadable_values_secret_iff hon hstandard (hstandard.step _ _) hbuilt hbuilt'
      alike_described (by decide) hadmin (description_denied _).1 (description_denied _).2
      description_overlooked hspelt).mpr id
  · have hspelt : (Operation.modify deputyName redescribing).SpellsPlainly deputyName
        Attribute.description := by
      intro _ m hm _
      cases List.mem_singleton.mp hm
      decide
    have hdiffers : (describedServer.step Session.anonymous (.modify deputyName redescribing)).1
        ≠ (redescribedServer.step Session.anonymous (.modify deputyName redescribing)).1 := by
      decide +kernel
    by_contra hsecret
    exact hdiffers ((unreadable_values_secret_iff hon hstandard (hstandard.step _ _) hbuilt
      hbuilt' alike_described (by decide) hadmin (description_denied _).1
      (description_denied _).2 description_overlooked hspelt).mpr hsecret)

/-- Anybody may write the new description over itself, and is refused to write it over
    another one. -/
theorem description_told :
    Reachable groupConfig describedServer ∧ Reachable groupConfig redescribedServer
      ∧ describedServer.world.AlikeBut deputyName Attribute.description redescribedServer.world
      ∧ describedServer.world.groups.isAdministrator Session.anonymous.effective.dn = false
      ∧ (∀ asker, describedServer.world.Denies asker deputyName Attribute.description
        ∧ redescribedServer.world.Denies asker deputyName Attribute.description)
      ∧ describedServer.world.Overlooks deputyName Attribute.description
      ∧ redescribedServer.world.Overlooks deputyName Attribute.description
      ∧ (describedServer.step Session.anonymous (.modify deputyName redescribing)).1
        = .error .accessDenied
      ∧ (redescribedServer.step Session.anonymous (.modify deputyName redescribing)).1
        = .ok .done := by
  have hguarded : GuardsEntries redescribedServer.world deputyName :=
    guardsEntries_congr alike_described (by decide) description_unguarded
  refine ⟨reachable_described, reachable_described.step _ _, alike_described, by decide +kernel,
    description_denied, description_overlooked, overlooks_of_guardsEntries hguarded _, ?_, ?_⟩
  all_goals decide +kernel

-- a filter is held against the description all the same
example :
    (describedServer.step Session.anonymous
          (.search topName .subtree (.equality Attribute.description "two") none)).1
        = .ok (.entries [])
      ∧ (redescribedServer.step Session.anonymous
          (.search topName .subtree (.equality Attribute.description "two") none)).1
        = .ok (.entries [Entry.named deputyName]) := by
  decide +kernel

end Server

end DirectoryAccess
