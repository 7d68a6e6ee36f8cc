import DirectoryAccess.Proofs.Server.Transition

/-! # Bypass — an operation about which nobody is asked

    Where the access control stage asks nobody, it still looks up entries, works out new
    names and validates subentries around storage.  None of this shows: the operation is
    CARRIED OUT as storage alone would carry it out, with the caches following, or it is
    refused for a cause of the same kind and has changed nothing.  Only what the stage
    refuses to everybody is different: to modify nothing, and to leave an access control
    subentry without items. -/

namespace DirectoryAccess

open DirectoryAccess.Action

/-- An access control subentry without items. -/
def Entry.LacksItems (e : Entry) : Prop :=
  e.isAccessControlSubentry = true ∧ e.has Attribute.prescriptiveAci = false

/-- The operations that are refused to everybody: to modify nothing, and to leave an access
    control subentry without items. -/
def MemoryStore.Bars (s : MemoryStore) : Operation → Prop
  | .add entry => entry.LacksItems
  | .modify dn mods => mods = []
      ∨ ∃ s' e, s.modify dn mods = .ok s' ∧ s'.lookup dn = some e ∧ e.LacksItems
  | _ => False

theorem validateSubentry_ok {e : Entry} (h : ¬e.LacksItems) : validateSubentry e = .ok () := by
  rw [validateSubentry, if_neg]
  rw [Bool.and_eq_true, Bool.not_eq_true']
  exact h

-- ── What storage refuses in modifications ────────────────────────────────────────

/-- Values that cannot be removed violate the schema. -/
theorem Attributes.removeEach_error {attr : String} {values : List String} {attrs : Attributes}
    {cause : OperationError} (h : (Attributes.removeEach attr values attrs).2 = .error cause) :
    cause.name = "SchemaViolation" := by
  induction values generalizing attrs with
  | nil => cases h
  | cons v rest ih =>
      rw [removeEach] at h
      split at h
      · exact ih h
      · cases h
        rfl

/-- A modification that is refused violates the schema. -/
theorem Attributes.modify_error {attrs : Attributes} {m : Modification} {cause : OperationError}
    (h : (attrs.modify m).2 = .error cause) : cause.name = "SchemaViolation" := by
  cases m with
  | add attr values =>
      cases values <;> cases h
      rfl
  | remove attr values =>
      cases values with
      | nil =>
          simp only [modify] at h
          split at h <;> cases h
          rfl
      | cons v rest => exact removeEach_error h
  | replace attr values => cases h

/-- Whatever storage refuses in modifications violates the schema. -/
theorem Entry.modifyAll_error {e : Entry} {mods : List Modification} {cause : OperationError}
    (h : e.modifyAll mods = .error cause) : cause.name = "SchemaViolation" := by
  induction mods generalizing e with
  | nil => cases h
  | cons m rest ih =>
      rw [modifyAll] at h
      split at h
      · exact ih h
      · next hm =>
        cases h
        exact Attributes.modify_error (congrArg Prod.snd hm)

namespace AciStage

/-- The computation carries an operation out as storage does, and the caches follow; or it
    is refused for a cause of the kind that storage gives, and has changed nothing. -/
def Carries (act : Handling MemoryStore (Outcome (World MemoryStore))) (w : World MemoryStore)
    (op : Operation) : Prop :=
  match w.store.after op with
  | .ok s' => act w = .ok .done (w.after op s')
  | .error cause => ∃ cause', cause'.name = cause.name ∧ act w = .error cause' w

section

variable {stage : AciStage} {session : Session} {w : World MemoryStore} {t : TupleCache}
  {op : Operation}

/-- A stage that fails as storage does, for a cause of the same name, carries the operation.
    -/
theorem Carries.of_error {act : Handling MemoryStore (Outcome (World MemoryStore))}
    {cause cause' : OperationError} (hstore : w.store.after op = .error cause)
    (hact : act w = .error cause' w) (hname : cause'.name = cause.name) : Carries act w op := by
  rw [Carries, hstore]
  exact ⟨cause', hname, hact⟩

/-- An action that changes nothing may come before. -/
theorem Carries.after {α : Type} {x : Handling MemoryStore α}
    {f : α → Handling MemoryStore (Outcome (World MemoryStore))} {a : α} (hx : x w = .ok a w)
    (hf : Carries (f a) w op) : Carries (x >>= f) w op := by
  rw [Carries] at hf ⊢
  rw [bind_of_ok hx]
  exact hf

/-- A change of the directory is storage's alone once it is passed on. -/
theorem dispatch_eq_update (hop : op.isReading = false) :
    dispatch op = (do
      World.onStore (MemoryStore.update fun s => s.after op)
      return .done : Handling MemoryStore (Outcome (World MemoryStore))) := by
  cases op with
  | compare _ _ _ | lookup _ _ | hasEntry _ | search _ _ _ _ => cases hop
  | add _ | delete _ | modify _ _ | rename _ _ _ | move _ _ | moveAndRename _ _ _ _ => rfl

/-- What storage carries out is done, and the store is what it leaves. -/
theorem dispatch_of_ok (hop : op.isReading = false) {s' : MemoryStore}
    (hstore : w.store.after op = .ok s') : dispatch op w = .ok .done { w with store := s' } := by
  have hstored : World.onStore (MemoryStore.update fun s => s.after op) w
      = .ok () { w with store := s' } := by
    rw [World.onStore, Action.onPart, MemoryStore.update, hstore]
  rw [dispatch_eq_update hop, bind_of_ok hstored]
  rfl

/-- What storage refuses is refused for its cause. -/
theorem dispatch_of_error (hop : op.isReading = false) {cause : OperationError}
    (hstore : w.store.after op = .error cause) : dispatch op w = .error cause w := by
  have hrefused : World.onStore (MemoryStore.update fun s => s.after op) w = .error cause w := by
    rw [World.onStore, Action.onPart, MemoryStore.update, hstore]
  rw [dispatch_eq_update hop, bind_of_error hrefused]

/-- Storage carries an operation out, and what follows ends in the world after it. -/
theorem carries_dispatch (hop : op.isReading = false)
    {k : Outcome (World MemoryStore) → Handling MemoryStore (Outcome (World MemoryStore))}
    (hk : ∀ s', w.store.after op = .ok s' →
      k .done { w with store := s' } = .ok .done (w.after op s')) :
    Carries (dispatch op >>= k) w op := by
  rw [Carries]
  cases hstore : w.store.after op with
  | ok s' => exact (bind_of_ok (dispatch_of_ok hop hstore)).trans (hk s' hstore)
  | error cause => exact ⟨cause, rfl, bind_of_error (dispatch_of_error hop hstore)⟩

/-- An entry that must be there is found, or storage says the same. -/
theorem carries_required {dn : Dn}
    {f : Entry → Handling MemoryStore (Outcome (World MemoryStore))}
    (hmissing : w.store.lookup dn = none → w.store.after op = .error .noMatchingEntries)
    (hf : ∀ e, w.store.lookup dn = some e → Carries (f e) w op) :
    Carries (World.onStore (Backend.lookupRequired dn) >>= f) w op := by
  have hrequired := World.gives_onStore (w.store.gives_required dn)
  rw [MemoryStore.required] at hrequired
  cases he : w.store.lookup dn with
  | none =>
      rw [he] at hrequired
      exact .of_error (hmissing he) (bind_of_error hrequired) rfl
  | some e =>
      rw [he] at hrequired
      exact .after hrequired (hf e he)

variable (hw : w.tuples = some t) (hb : stage.bypasses w.groups session = true)

include hw hb

/-- For who bypasses it the stage carries out an addition that does not lack items. -/
theorem carries_add {entry : Entry} (hentry : ¬entry.LacksItems) :
    Carries (stage.add session entry (dispatch (.add entry))) w (.add entry) := by
  have hv := validateSubentry_ok hentry
  rw [AciStage.add, hv]
  refine .after rfl (.after (a := w) rfl ?_)
  dsimp only
  rw [hb]
  exact carries_dispatch rfl fun s' _ => follows_add hw hv .done s'

/-- For who bypasses it the stage carries out every deletion. -/
theorem carries_delete (dn : Dn) :
    Carries (stage.delete session dn (dispatch (.delete dn))) w (.delete dn) := by
  rw [AciStage.delete]
  refine .after (a := w) rfl ?_
  dsimp only
  rw [hb]
  refine carries_required (fun hmissing => ?_) fun e he => ?_
  · rw [MemoryStore.after, MemoryStore.delete, OrdMap.contains,
      show w.store.entries.get? dn = none from hmissing]
    rfl
  · exact carries_dispatch rfl fun s' _ => follows_delete hw he .done s'

/-- For who bypasses it the stage carries out modifications that leave no subentry without
    items. -/
theorem carries_modify {dn : Dn} {mods : List Modification}
    (hmods : ¬w.store.Bars (.modify dn mods)) :
    Carries (stage.modify session dn mods (dispatch (.modify dn mods))) w (.modify dn mods) := by
  obtain ⟨hsome, hfit⟩ := not_or.mp hmods
  have hsome : mods.isEmpty = false := by
    rw [List.isEmpty_eq_false_iff]
    exact hsome
  rw [AciStage.modify, hsome, if_neg Bool.false_ne_true]
  refine carries_required (fun hmissing => ?_) fun pre hpre => ?_
  · rw [MemoryStore.after, MemoryStore.modify, show w.store.entries.get? dn = none from hmissing]
    rfl
  · have hpre' : w.store.entries.get? dn = some pre := hpre
    by_cases hlacks : (mods.foldl Entry.project pre).LacksItems
    · -- storage refuses such modifications as well, for another violation of the schema
      have hmodify : w.store.after (.modify dn mods) = (pre.modifyAll mods).bind fun e =>
          .ok { w.store with entries := w.store.entries.insert dn e } := by
        rw [MemoryStore.after, MemoryStore.modify, hpre']
        rfl
      cases hm : pre.modifyAll mods with
      | ok e =>
          rw [Entry.modifyAll_ok hm] at hm
          rw [hm] at hmodify
          exact absurd ⟨_, _, hmodify, OrdMap.get?_insert_self .., hlacks⟩ hfit
      | error cause =>
          rw [hm] at hmodify
          have hv : validateSubentry (mods.foldl Entry.project pre)
              = .error (.schemaViolation (.missingMustAttribute [Attribute.prescriptiveAci])) := by
            rw [validateSubentry, hlacks.1, hlacks.2]
            rfl
          rw [hv]
          exact .of_error hmodify rfl (Entry.modifyAll_error hm).symm
    · have hv := validateSubentry_ok hlacks
      rw [hv]
      refine .after rfl (.after (a := w) rfl ?_)
      dsimp only
      rw [hb]
      exact carries_dispatch rfl fun s' hs' => follows_modify hw hpre hv hs' .done

/-- For who bypasses it the stage carries out every renaming. -/
theorem carries_rename (dn : Dn) (rdn : Rdn) (deleteOld : Bool) :
    Carries (stage.rename session dn rdn (dispatch (.rename dn rdn deleteOld))) w
      (.rename dn rdn deleteOld) := by
  rw [AciStage.rename]
  cases hparent : dn.parent? with
  | none =>
      have hstore : w.store.after (.rename dn rdn deleteOld) = .error (.invalidDn dn.display) := by
        rw [MemoryStore.after, MemoryStore.rename, hparent]
      exact .of_error hstore rfl rfl
  | some parent =>
      have hnew : (Operation.rename dn rdn deleteOld).newDn? = some (parent.child rdn) := by
        rw [Operation.newDn?, hparent]
        rfl
      refine .after (a := w) rfl ?_
      dsimp only
      rw [hb]
      exact carries_dispatch rfl fun s' _ => follows_relocation hw rfl hnew .done s'

/-- For who bypasses it the stage carries out every move. -/
theorem carries_move (dn superior : Dn) :
    Carries (stage.move session dn superior (dispatch (.move dn superior))) w
      (.move dn superior) := by
  rw [AciStage.move]
  cases hrdn : dn.rdn? with
  | none =>
      have hstore : w.store.after (.move dn superior) = .error (.invalidDn dn.display) := by
        rw [MemoryStore.after, MemoryStore.move, hrdn]
      exact .of_error hstore rfl rfl
  | some rdn =>
      have hnew : (Operation.move dn superior).newDn? = some (superior.child rdn) := by
        rw [Operation.newDn?, hrdn]
        rfl
      refine .after (a := w) rfl ?_
      dsimp only
      rw [hb]
      exact carries_dispatch rfl fun s' _ => follows_relocation hw rfl hnew .done s'

/-- For who bypasses it the stage carries out every move to another name. -/
theorem carries_moveAndRename (dn superior : Dn) (rdn : Rdn) (deleteOld : Bool) :
    Carries (stage.moveAndRename session dn superior rdn deleteOld
        (dispatch (.moveAndRename dn superior rdn deleteOld))) w
      (.moveAndRename dn superior rdn deleteOld) := by
  have hnew : (Operation.moveAndRename dn superior rdn deleteOld).newDn?
      = some (superior.child rdn) := rfl
  rw [AciStage.moveAndRename]
  refine .after (a := w) rfl ?_
  dsimp only
  rw [hb]
  exact carries_dispatch rfl fun s' _ => follows_relocation hw rfl hnew .done s'

/-- What changes the directory, and is not refused to everybody, is carried out as storage
    alone would, if nobody is asked. -/
theorem carries_handle (hop : op.isReading = false) (hbars : ¬w.store.Bars op) :
    Carries (stage.handle session op (dispatch op)) w op := by
  unfold AciStage.handle
  refine .after (World.tupleCache_of_loaded hw) ?_
  cases op with
  | add entry => exact carries_add hw hb hbars
  | delete dn => exact carries_delete hw hb dn
  | modify dn mods => exact carries_modify hw hb hbars
  | rename dn rdn deleteOld => exact carries_rename hw hb dn rdn deleteOld
  | move dn superior => exact carries_move hw hb dn superior
  | moveAndRename dn superior rdn deleteOld =>
      exact carries_moveAndRename hw hb dn superior rdn deleteOld
  | compare _ _ _ | lookup _ _ | hasEntry _ | search _ _ _ _ => cases hop

end

end AciStage

end DirectoryAccess
