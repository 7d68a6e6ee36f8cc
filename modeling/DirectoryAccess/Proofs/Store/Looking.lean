import DirectoryAccess.Proofs.Store.Action

/-! # Looking — asking storage without changing it

    Many backends answer out of a memory store: the store itself, and one that writes
    down what it is asked.  Whatever is LOOKED up, they answer as the store does, and
    the store stays as it is.  A computation that only looks ends in an answer or in a
    refusal, and either way nothing has been changed. -/

namespace DirectoryAccess

open DirectoryAccess.Action

/-- A backend that answers out of a memory store.  What becomes of the backend itself,
    when it is asked, is told by a relation. -/
structure Looking {σ : Type} [Backend σ] (inner : σ → MemoryStore) (Looked : σ → σ → Prop) :
    Prop where
  refl : ∀ s, Looked s s
  trans : ∀ {s s' s''}, Looked s s' → Looked s' s'' → Looked s s''
  inner_eq : ∀ {s s'}, Looked s s' → inner s' = inner s
  lookup : ∀ dn s, ∃ s', Looked s s'
    ∧ (Backend.lookup dn : Action σ _) s = .ok ((inner s).lookup dn) s'
  search : ∀ base scope filter s, ∃ s', Looked s s'
    ∧ (Backend.search base scope filter : Action σ _) s
        = match (inner s).search base scope filter with
          | .ok es => .ok (es.map Except.ok) s'
          | .error e => .error e s'

/-- The memory store answers out of itself, and does not change. -/
theorem MemoryStore.looking : Looking (fun s : MemoryStore => s) fun s s' => s' = s where
  refl _ := rfl
  trans h h' := h'.trans h
  inner_eq h := h
  lookup dn s := ⟨s, rfl, rfl⟩
  search base scope filter s := by
    refine ⟨s, rfl, ?_⟩
    show MemoryStore.query _ s = _
    rw [MemoryStore.query]
    cases s.search base scope filter <;> rfl

-- ── Recorded storage ─────────────────────────────────────────────────────────────

namespace Recorded

variable {σ : Type}

/-- Nothing has been recorded but calls that change nothing. -/
def Looked (r r' : Recorded σ) : Prop :=
  ∃ calls, (∀ c ∈ calls, c.isMutation = false) ∧ r' = { r with calls := r.calls ++ calls }

/-- A call that changes nothing is recorded, and that is all. -/
theorem Looked.of_call (r : Recorded σ) {c : BackendCall} (h : c.isMutation = false) :
    Looked r { r with calls := r.calls ++ [c] } := by
  refine ⟨[c], fun c' hc => ?_, rfl⟩
  rw [List.mem_singleton.mp hc]
  exact h

/-- Looking records no call that changes anything. -/
theorem Looked.mutations {r r' : Recorded σ} (h : Looked r r') :
    r'.mutations = r.mutations := by
  obtain ⟨calls, hcalls, rfl⟩ := h
  have hnone : calls.filter (·.isMutation) = [] := by
    refine List.filter_eq_nil_iff.mpr fun c hc => ?_
    rw [hcalls c hc]
    exact Bool.false_ne_true
  show (r.calls ++ calls).filter _ = _
  rw [List.filter_append, hnone, List.append_nil]
  rfl

/-- A call is written down, and then done. -/
theorem recording_eq {α : Type} (call : BackendCall) (act : Action σ α) (r : Recorded σ) :
    recording call act r = match act r.inner with
      | .ok a t => .ok a ⟨t, r.calls ++ [call]⟩
      | .error e t => .error e ⟨t, r.calls ++ [call]⟩ := by
  have hwritten : (modify fun r => { r with calls := r.calls ++ [call] } :
      Action (Recorded σ) Unit) r = .ok () { r with calls := r.calls ++ [call] } := rfl
  rw [recording, bind_of_ok hwritten]
  cases hact : act r.inner <;> simp only [Action.onPart, hact]

/-- A recorded memory store answers out of the store it records. -/
theorem looking : Looking (fun r : Recorded MemoryStore => r.inner) Looked where
  refl r := ⟨[], fun _ hc => absurd hc List.not_mem_nil, by rw [List.append_nil]⟩
  trans h h' := by
    obtain ⟨calls, hcalls, rfl⟩ := h
    obtain ⟨more, hmore, rfl⟩ := h'
    refine ⟨calls ++ more, fun c hc => (List.mem_append.mp hc).elim (hcalls c) (hmore c), ?_⟩
    rw [List.append_assoc]
  inner_eq h := by
    obtain ⟨calls, -, rfl⟩ := h
    rfl
  lookup dn r := ⟨_, Looked.of_call r (c := .lookup dn) rfl, recording_eq ..⟩
  search base scope filter r := by
    refine ⟨_, Looked.of_call r (c := .search base) rfl, (recording_eq ..).trans ?_⟩
    have hsearch : (Backend.search base scope filter : Action MemoryStore _) r.inner
        = MemoryStore.query
            (fun s => (s.search base scope filter).map fun es => es.map Except.ok) r.inner := rfl
    rw [hsearch, MemoryStore.query]
    cases r.inner.search base scope filter <;> rfl

end Recorded

-- ── Answers and refusals ─────────────────────────────────────────────────────────

section

variable {σ : Type} {inner : σ → MemoryStore} {Looked : σ → σ → Prop} {α β : Type} {w : World σ}

variable (Looked)

/-- Nothing but what storage was asked has changed. -/
def World.LookedAt (w w' : World σ) : Prop := ∃ s', Looked w.store s' ∧ w' = { w with store := s' }

/-- The computation ends in an answer, and has only looked. -/
def Answers (act : Handling σ α) (w : World σ) (a : α) : Prop :=
  ∃ w', w.LookedAt Looked w' ∧ act w = .ok a w'

/-- The computation ends in a refusal, and has only looked. -/
def Refuses (act : Handling σ α) (w : World σ) : Prop :=
  ∃ e w', w.LookedAt Looked w' ∧ act w = .error e w'

variable {Looked}

/-- After a refusal nothing is done any more. -/
theorem Refuses.bind {x : Handling σ α} {f : α → Handling σ β} (h : Refuses Looked x w) :
    Refuses Looked (x >>= f) w := by
  obtain ⟨e, w', hw', he⟩ := h
  exact ⟨e, w', hw', bind_of_error he⟩

/-- Taking the state itself changes nothing. -/
theorem Refuses.after_get {f : World σ → Handling σ β} (h : Refuses Looked (f w) w) :
    Refuses Looked (MonadState.get >>= f) w := h

/-- Taking the state in hand is no call at all. -/
theorem Answers.after_get {f : World σ → Handling σ β} {b : β} (h : Answers Looked (f w) w b) :
    Answers Looked (MonadState.get >>= f) w b := h

/-- Going on with a value that is there changes nothing. -/
theorem Answers.after_value {a : α} {f : α → Handling σ β} {b : β}
    (h : Answers Looked (f a) w b) : Answers Looked (Action.ofExcept (.ok a) >>= f) w b := h

/-- Whatever comes of it, the computation leaves the store in a state of a kind. -/
def Leaves (P : σ → Prop) (act : Handling σ α) (w : World σ) : Prop :=
  match act w with
  | .ok _ w' | .error _ w' => P w'.store

/-- A sequence leaves what each of its actions does. -/
theorem Leaves.bind {P : σ → Prop} {x : Handling σ α} {f : α → Handling σ β}
    (h : Leaves P x w) (hf : ∀ a w', P w'.store → Leaves P (f a) w') : Leaves P (x >>= f) w := by
  rw [Leaves] at h
  cases hx : x w with
  | ok a w' =>
      rw [hx] at h
      rw [Leaves, bind_of_ok hx]
      exact hf a w' h
  | error e w' =>
      rw [hx] at h
      rw [Leaves, bind_of_error hx]
      exact h

/-- Work on the tuple cache leaves the store alone. -/
theorem leaves_onTuples {P : σ → Prop} (hP : P w.store) (act : Action TupleCache α) :
    Leaves P (World.onTuples act) w := by
  rw [Leaves, World.onTuples]
  cases ht : w.tuples with
  | none =>
      have hget : (MonadState.get : Handling σ (World σ)) w = .ok w w := rfl
      have hmissing : (World.tupleCache : Handling σ _) w = .error .invalidState w := by
        rw [World.tupleCache, bind_of_ok hget, ht]
        rfl
      rw [bind_of_error hmissing]
      exact hP
  | some t =>
      rw [bind_of_ok (World.tupleCache_of_loaded ht), Action.onPart]
      cases act t <;> exact hP

/-- What is true of a store however it is looked at stays true. -/
theorem Answers.leaves {P : σ → Prop} (hkeeps : ∀ s s', Looked s s' → P s → P s')
    (hP : P w.store) {act : Handling σ α} {a : α} (h : Answers Looked act w a) :
    Leaves P act w := by
  obtain ⟨w', ⟨s', hs', rfl⟩, hact⟩ := h
  rw [Leaves, hact]
  exact hkeeps _ _ hs' hP

variable [Backend σ]

/-- Looking twice is looking. -/
theorem World.LookedAt.trans (hlook : Looking inner Looked) {w w' w'' : World σ}
    (h : w.LookedAt Looked w') (h' : w'.LookedAt Looked w'') : w.LookedAt Looked w'' := by
  obtain ⟨s', hs', rfl⟩ := h
  obtain ⟨s'', hs'', rfl⟩ := h'
  exact ⟨s'', hlook.trans hs' hs'', rfl⟩

theorem World.LookedAt.refl (hlook : Looking inner Looked) (w : World σ) :
    w.LookedAt Looked w :=
  ⟨w.store, hlook.refl _, rfl⟩

/-- What changes nothing answers. -/
theorem Answers.of_ok (hlook : Looking inner Looked) {act : Handling σ α} {a : α}
    (h : act w = .ok a w) : Answers Looked act w a :=
  ⟨w, .refl hlook w, h⟩

theorem Refuses.of_error (hlook : Looking inner Looked) {act : Handling σ α} {e : OperationError}
    (h : act w = .error e w) : Refuses Looked act w :=
  ⟨e, w, .refl hlook w, h⟩

/-- What comes after an answer may refuse. -/
theorem Answers.refuses (hlook : Looking inner Looked) {x : Handling σ α}
    {f : α → Handling σ β} {a : α} (h : Answers Looked x w a)
    (hf : ∀ w', w.LookedAt Looked w' → Refuses Looked (f a) w') : Refuses Looked (x >>= f) w := by
  obtain ⟨w', hw', ha⟩ := h
  obtain ⟨e, w'', hw'', he⟩ := hf w' hw'
  exact ⟨e, w'', hw'.trans hlook hw'', (bind_of_ok ha).trans he⟩

/-- What comes after an answer may answer. -/
theorem Answers.bind (hlook : Looking inner Looked) {x : Handling σ α}
    {f : α → Handling σ β} {a : α} {b : β} (h : Answers Looked x w a)
    (hf : ∀ w', w.LookedAt Looked w' → Answers Looked (f a) w' b) :
    Answers Looked (x >>= f) w b := by
  obtain ⟨w', hw', ha⟩ := h
  obtain ⟨w'', hw'', hb⟩ := hf w' hw'
  exact ⟨w'', hw'.trans hlook hw'', (bind_of_ok ha).trans hb⟩

/-- A result that is an error is a refusal. -/
theorem Refuses.ofExcept (hlook : Looking inner Looked) {x : Except OperationError α}
    {e : OperationError} (h : x = .error e) :
    Refuses Looked (Action.ofExcept x : Handling σ α) w := by
  rw [h]
  exact .of_error hlook rfl

/-- What need not succeed may be asked in front of a refusal. -/
theorem Refuses.after_except (hlook : Looking inner Looked) {x : Except OperationError α}
    {f : α → Handling σ β} (hf : ∀ a, x = .ok a → Refuses Looked (f a) w) :
    Refuses Looked (Action.ofExcept x >>= f) w := by
  cases x with
  | ok a => exact hf a rfl
  | error e => exact .of_error hlook rfl

-- ── Looking something up ─────────────────────────────────────────────────────────

/-- Looking up answers with what is there. -/
theorem answers_lookup (hlook : Looking inner Looked) (dn : Dn) (w : World σ) :
    Answers Looked (World.onStore (Backend.lookup dn)) w ((inner w.store).lookup dn) := by
  obtain ⟨s', hs', hlookup⟩ := hlook.lookup dn w.store
  refine ⟨_, ⟨s', hs', rfl⟩, ?_⟩
  rw [World.onStore, Action.onPart, hlookup]

/-- An entry that must be there is found, or the operation is refused. -/
theorem lookupRequired_cases (hlook : Looking inner Looked) (dn : Dn) (w : World σ) :
    ((inner w.store).lookup dn = none
        ∧ Refuses Looked (World.onStore (Backend.lookupRequired dn)) w)
      ∨ ∃ e, (inner w.store).lookup dn = some e
        ∧ Answers Looked (World.onStore (Backend.lookupRequired dn)) w e := by
  obtain ⟨s', hs', hlookup⟩ := hlook.lookup dn w.store
  have hw' : w.LookedAt Looked { w with store := s' } := ⟨s', hs', rfl⟩
  cases hfound : (inner w.store).lookup dn with
  | none =>
      rw [hfound] at hlookup
      have hrequired : (Backend.lookupRequired dn : Action σ Entry) w.store
          = .error .noMatchingEntries s' := by
        rw [Backend.lookupRequired, bind_of_ok hlookup]
        rfl
      refine Or.inl ⟨rfl, .noMatchingEntries, _, hw', ?_⟩
      rw [World.onStore, Action.onPart, hrequired]
  | some e =>
      rw [hfound] at hlookup
      have hrequired : (Backend.lookupRequired dn : Action σ Entry) w.store = .ok e s' := by
        rw [Backend.lookupRequired, bind_of_ok hlookup]
        rfl
      refine Or.inr ⟨e, rfl, _, hw', ?_⟩
      rw [World.onStore, Action.onPart, hrequired]

end

end DirectoryAccess
