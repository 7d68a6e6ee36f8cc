import DirectoryAccess.Proofs.Cache.Loading
import DirectoryAccess.Proofs.Entry.Alike
import DirectoryAccess.Proofs.Server.Transition
import Mathlib.Data.List.Forall2

/-! # Stores that differ in one attribute — what does not tell them apart

    Two stores are ALIKE BUT for an attribute of an entry if they hold entries under the
    same names, and these are the same but for that entry, which is alike but for the
    attribute.  Two computations AGREE if both succeed and what they give is related, or
    both are refused for the same cause.  What storage says of an operation agrees on
    stores that are alike, unless the operation is about the attribute. -/

namespace DirectoryAccess

-- ── Computations that agree ──────────────────────────────────────────────────────

namespace Action

variable {σ α β γ δ : Type} {s s' : σ}

/-- From these states both computations succeed and end as they should, or both fail for
    the same cause. -/
def Agree (act : Action σ α) (act' : Action σ β) (s s' : σ) (post : α → β → σ → σ → Prop) :
    Prop :=
  match act s, act' s' with
  | .ok a t, .ok b t' => post a b t t'
  | .error e _, .error e' _ => e = e'
  | _, _ => False

/-- From these states both computations give related answers, or both fail for the same
    cause; an answer has changed nothing. -/
def Tell (act : Action σ α) (act' : Action σ β) (s s' : σ) (R : α → β → Prop) : Prop :=
  Agree act act' s s' fun a b t t' => R a b ∧ t = s ∧ t' = s'

/-- Two actions that succeed agree if what is to hold holds of their results. -/
theorem Agree.of_ok {act : Action σ α} {act' : Action σ β} {a : α} {b : β} {t t' : σ}
    {post : α → β → σ → σ → Prop} (h : act s = .ok a t) (h' : act' s' = .ok b t')
    (hpost : post a b t t') : Agree act act' s s' post := by
  rw [Agree, h, h']
  exact hpost

/-- Two actions that fail alike agree, whatever is to hold. -/
theorem Agree.of_error {act : Action σ α} {act' : Action σ β} {e : OperationError} {t t' : σ}
    {post : α → β → σ → σ → Prop} (h : act s = .error e t) (h' : act' s' = .error e t') :
    Agree act act' s s' post := by
  rw [Agree, h, h']

/-- Actions agree on anything that follows from what they agree on. -/
theorem Agree.mono {act : Action σ α} {act' : Action σ β} {post post' : α → β → σ → σ → Prop}
    (h : Agree act act' s s' post) (hpost : ∀ a b t t', post a b t t' → post' a b t t') :
    Agree act act' s s' post' := by
  rw [Agree] at h ⊢
  split at h
  · exact hpost _ _ _ _ h
  · exact h
  · exact h

/-- Computations agree if their parts do, one after the other. -/
theorem Agree.bind {x : Action σ α} {x' : Action σ β} {f : α → Action σ γ} {f' : β → Action σ δ}
    {mid : α → β → σ → σ → Prop} {post : γ → δ → σ → σ → Prop} (hx : Agree x x' s s' mid)
    (hf : ∀ a b t t', mid a b t t' → Agree (f a) (f' b) t t' post) :
    Agree (x >>= f) (x' >>= f') s s' post := by
  rw [Agree] at hx
  cases hr : x s with
  | ok a t =>
      cases hr' : x' s' with
      | ok b t' =>
          rw [hr, hr'] at hx
          rw [Agree, bind_of_ok hr, bind_of_ok hr']
          exact hf a b t t' hx
      | error e t' => simp [hr, hr'] at hx
  | error e t =>
      cases hr' : x' s' with
      | ok b t' => simp [hr, hr'] at hx
      | error e' t' =>
          rw [hr, hr'] at hx
          exact .of_error (bind_of_error hr) ((bind_of_error hr').trans (by rw [hx]))

/-- Once both have told something, the states are still those of the start. -/
theorem Tell.bind {x : Action σ α} {x' : Action σ β} {f : α → Action σ γ} {f' : β → Action σ δ}
    {R : α → β → Prop} {post : γ → δ → σ → σ → Prop} (hx : Tell x x' s s' R)
    (hf : ∀ a b, R a b → Agree (f a) (f' b) s s' post) :
    Agree (x >>= f) (x' >>= f') s s' post := by
  refine Agree.bind hx ?_
  rintro a b t t' ⟨hab, rfl, rfl⟩
  exact hf a b hab

/-- Taking the states themselves tells nothing. -/
theorem Agree.after_get {f f' : σ → Action σ α} {post : α → α → σ → σ → Prop}
    (h : Agree (f s) (f' s') s s' post) :
    Agree (MonadState.get >>= f) (MonadState.get >>= f') s s' post := h

/-- Questions with the same verdict may be asked in front of both. -/
theorem Agree.after_verdict {x x' : Except OperationError α} {f f' : α → Action σ β}
    {post : β → β → σ → σ → Prop} (hx : x.map (fun _ => ()) = x'.map fun _ => ())
    (hf : ∀ a b, x = .ok a → x' = .ok b → Agree (f a) (f' b) s s' post) :
    Agree (Action.ofExcept x >>= f) (Action.ofExcept x' >>= f') s s' post := by
  cases x with
  | ok a =>
      cases x' with
      | ok b => exact hf a b rfl rfl
      | error e => cases hx
  | error e =>
      cases x' with
      | ok b => cases hx
      | error e' =>
          cases hx
          exact .of_error rfl rfl

/-- Questions that are answered the same may be asked in front of both. -/
theorem Agree.after_except {x x' : Except OperationError α} {f f' : α → Action σ β}
    {post : β → β → σ → σ → Prop} (hx : x = x')
    (hf : ∀ a, x' = .ok a → Agree (f a) (f' a) s s' post) :
    Agree (Action.ofExcept x >>= f) (Action.ofExcept x' >>= f') s s' post := by
  subst hx
  refine Agree.after_verdict rfl fun a b ha hb => ?_
  rw [ha] at hb
  cases hb
  exact hf a ha

/-- Computations on a part agree if they do on the parts. -/
theorem Agree.onStore {w w' : World MemoryStore} {act : Action MemoryStore α}
    {act' : Action MemoryStore β} {post : α → β → MemoryStore → MemoryStore → Prop}
    (h : Agree act act' w.store w'.store post) :
    Agree (World.onStore act) (World.onStore act') w w' fun a b v v' =>
      ∃ t t', post a b t t' ∧ v = { w with store := t } ∧ v' = { w' with store := t' } := by
  have hrun : ∀ {α : Type} (act : Action MemoryStore α) (w : World MemoryStore),
      World.onStore act w = match act w.store with
        | .ok a t => .ok a { w with store := t }
        | .error e t => .error e { w with store := t } := by
    intro α act w
    rw [World.onStore, Action.onPart]
    cases act w.store <;> rfl
  rw [Agree] at h
  rw [Agree, hrun, hrun]
  cases hr : act w.store <;> cases hr' : act' w'.store <;> simp only [hr, hr'] at h ⊢
  · exact ⟨_, _, h, rfl, rfl⟩
  · exact h

/-- What stores tell, worlds with these stores do. -/
theorem Tell.onStore {w w' : World MemoryStore} {act : Action MemoryStore α}
    {act' : Action MemoryStore β} {R : α → β → Prop} (h : Tell act act' w.store w'.store R) :
    Tell (World.onStore act) (World.onStore act') w w' R := by
  refine (Agree.onStore h).mono ?_
  rintro a b v v' ⟨t, t', ⟨hab, rfl, rfl⟩, rfl, rfl⟩
  exact ⟨hab, rfl, rfl⟩

/-- Worlds with the same tuple cache tell the same of it. -/
theorem tell_tupleCache {w w' : World MemoryStore} (h : w.tuples = w'.tuples) :
    Tell World.tupleCache World.tupleCache w w' (· = ·) := by
  have hget : ∀ v : World MemoryStore,
      (MonadState.get : Handling MemoryStore (World MemoryStore)) v = .ok v v := fun _ => rfl
  cases ht : w'.tuples with
  | none =>
      have hmissing : ∀ v : World MemoryStore, v.tuples = none →
          (World.tupleCache : Handling MemoryStore _) v = .error .invalidState v := by
        intro v hv
        rw [World.tupleCache, bind_of_ok (hget v), hv]
        rfl
      exact .of_error (hmissing w (h.trans ht)) (hmissing w' ht)
  | some t =>
      exact .of_ok (World.tupleCache_of_loaded (h.trans ht)) (World.tupleCache_of_loaded ht)
        ⟨rfl, rfl, rfl⟩

/-- Work on the tuple cache agrees where the caches are the same, and leaves them the
    same. -/
theorem Agree.onTuples {w w' : World MemoryStore} (h : w.tuples = w'.tuples)
    (act : Action TupleCache α) :
    Agree (World.onTuples act) (World.onTuples act) w w' fun a b v v' =>
      a = b ∧ v.tuples = v'.tuples := by
  refine Tell.bind (tell_tupleCache h) ?_
  rintro cache _ rfl
  rw [Agree, Action.onPart, Action.onPart]
  cases act cache with
  | ok a t => exact ⟨rfl, rfl⟩
  | error e t => rfl

end Action

open DirectoryAccess.Action

-- ── Stores that are alike ────────────────────────────────────────────────────────

/-- What is stored under two names: the names are the same, and so are the entries,
    unless the name is this one; then they are alike but for the attribute. -/
def Entry.AlikeAt (x : Dn) (a : String) (d d' : Dn × Entry) : Prop :=
  d.1 = d'.1 ∧ (d.2 = d'.2 ∨ d.1 = x ∧ d.2.AlikeBut a d'.2)

/-- A scope does not see how a name is written. -/
theorem SearchScope.selects_congr {x y : Dn} (h : x.key = y.key) (base : Dn)
    (scope : SearchScope) : scope.selects base x = scope.selects base y := by
  have hchild : x.isChildOf base = y.isChildOf base := by
    rw [Bool.eq_iff_iff, Dn.isChildOf_iff, Dn.isChildOf_iff, h]
  have hsame : x.same base = y.same base := by
    rw [Bool.eq_iff_iff, Dn.same_iff, Dn.same_iff, h]
  cases scope with
  | base => exact hsame
  | oneLevel => exact hchild
  | subtree => exact Dn.isWithin_congr h base

namespace MemoryStore

/-- Stores that hold the same but for one attribute of the entry at one name. -/
structure AlikeBut (x : Dn) (a : String) (s s' : MemoryStore) : Prop where
  suffixes_eq : s.suffixes = s'.suffixes
  entries : List.Forall₂ (Entry.AlikeAt x a) s.entries.entries s'.entries.entries

/-- What is held under a name in stores that are alike: the same, unless it is this
    name. -/
inductive Paired (x : Dn) (a : String) (dn : Dn) : Option Entry → Option Entry → Prop
  | none : Paired x a dn none none
  | same (e : Entry) : Paired x a dn (some e) (some e)
  | differ {e e' : Entry} : dn.key = x.key → e.AlikeBut a e' →
      Paired x a dn (some e) (some e')

variable {x : Dn} {a : String} {s s' : MemoryStore}

theorem lookup_congr {dn dn' : Dn} (hkey : dn.key = dn'.key) : s.lookup dn = s.lookup dn' :=
  NameMap.get?_congr s.entries hkey

/-- What is found in lists that are alike is paired. -/
theorem paired_valueIn {l l' : List (Dn × Entry)} (h : List.Forall₂ (Entry.AlikeAt x a) l l')
    (dn : Dn) : Paired x a dn (valueIn l dn) (valueIn l' dn) := by
  induction h with
  | nil => exact .none
  | @cons d d' l l' hd _ ih =>
      obtain ⟨hname, hentry⟩ := hd
      rw [valueIn_cons, valueIn_cons, ← hname]
      split
      · next hdn =>
        rcases hentry with hsame | ⟨hx, halike⟩
        · rw [hsame]
          exact .same _
        · rw [hx] at hdn
          exact .differ ((Dn.compare_eq_iff dn x).mp hdn) halike
      · exact ih

namespace AlikeBut

variable (h : AlikeBut x a s s')

include h

theorem lookup (dn : Dn) : Paired x a dn (s.lookup dn) (s'.lookup dn) :=
  paired_valueIn h.entries dn

theorem contains_eq (dn : Dn) : s.entries.contains dn = s'.entries.contains dn := by
  have hpaired := h.lookup dn
  rw [MemoryStore.lookup, MemoryStore.lookup] at hpaired
  rw [OrdMap.contains, OrdMap.contains]
  generalize s.entries.get? dn = found at hpaired ⊢
  generalize s'.entries.get? dn = found' at hpaired ⊢
  cases hpaired <;> rfl

theorem keys_eq : s.entries.keys = s'.entries.keys := by
  have hkeys : ∀ {l l' : List (Dn × Entry)}, List.Forall₂ (Entry.AlikeAt x a) l l' →
      l.map (·.1) = l'.map (·.1) := by
    intro l l' hl
    induction hl with
    | nil => rfl
    | cons hd _ ih => rw [List.map_cons, List.map_cons, hd.1, ih]
  exact hkeys h.entries

theorem isSuffix_eq (dn : Dn) : s.isSuffix dn = s'.isSuffix dn := by
  rw [isSuffix, isSuffix, h.suffixes_eq]

theorem hasParent_eq (dn : Dn) : s.hasParent dn = s'.hasParent dn := by
  rw [hasParent, hasParent]
  cases dn.parent? with
  | none => rfl
  | some parent => exact h.contains_eq parent

theorem lacksPlace_eq (new : Dn) : s.lacksPlace new = s'.lacksPlace new := by
  rw [lacksPlace, lacksPlace]
  cases new.parent? with
  | none => rfl
  | some parent =>
      show (!parent.isRoot && !s.entries.contains parent && !s.isSuffix new) = _
      rw [h.contains_eq, h.isSuffix_eq]

end AlikeBut

/-- A list of entries, and the same list with an entry under one name that is alike. -/
theorem forall₂_insertEntry {l : List (Dn × Entry)}
    (hordered : l.Pairwise fun d d' => Ord.compare d.1 d'.1 = .lt) {dn : Dn} {e e' : Entry}
    (hx : (x, e) ∈ l) (hdn : Ord.compare dn x = .eq) (halike : e.AlikeBut a e') :
    List.Forall₂ (Entry.AlikeAt x a) l (insertEntry dn e' l) := by
  have hrefl : ∀ l : List (Dn × Entry), List.Forall₂ (Entry.AlikeAt x a) l l :=
    fun l => List.forall₂_same.mpr fun _ _ => ⟨rfl, Or.inl rfl⟩
  induction l with
  | nil => cases hx
  | cons d rest ih =>
      obtain ⟨hfirst, hrest⟩ := List.pairwise_cons.mp hordered
      rcases List.mem_cons.mp hx with rfl | hin
      · rw [insertEntry, hdn]
        exact .cons ⟨rfl, Or.inr ⟨rfl, halike⟩⟩ (hrefl rest)
      · have hgt : Ord.compare dn d.1 = .gt := by
          rw [Std.TransCmp.congr_left hdn]
          exact Std.OrientedCmp.gt_of_lt (hfirst _ hin)
        rw [insertEntry, hgt]
        exact .cons ⟨rfl, Or.inl rfl⟩ (ih hrest hin)

theorem AlikeBut.refl (x : Dn) (a : String) (s : MemoryStore) : AlikeBut x a s s :=
  ⟨rfl, List.forall₂_same.mpr fun _ _ => ⟨rfl, Or.inl rfl⟩⟩

theorem AlikeBut.symm (h : AlikeBut x a s s') : AlikeBut x a s' s := by
  have hentry : ∀ d d', Entry.AlikeAt x a d d' → Entry.AlikeAt x a d' d := fun d d' hd =>
    ⟨hd.1.symm, hd.2.imp Eq.symm fun halike => ⟨hd.1.symm.trans halike.1, halike.2.symm⟩⟩
  exact ⟨h.suffixes_eq.symm, (h.entries.imp hentry).flip⟩

/-- Modifications of one attribute leave a store that is alike but for it. -/
theorem AlikeBut.of_modify {dn : Dn} {e : Entry} (hx : (x, e) ∈ s.entries.entries)
    (hdn : dn.key = x.key) {mods : List Modification}
    (hmods : ∀ m ∈ mods, Text.lowercase m.attr = a) (hs' : s.modify dn mods = .ok s') :
    AlikeBut x a s s' := by
  obtain ⟨e₀, he₀, -, rfl⟩ := modify_ok hs'
  rw [NameMap.get?_congr s.entries hdn, s.entries.get?_of_mem hx] at he₀
  cases he₀
  exact ⟨rfl, forall₂_insertEntry s.entries.ordered hx ((Dn.compare_eq_iff dn x).mpr hdn)
    (.of_project hmods e)⟩

-- ── What storage says of an operation ────────────────────────────────────────────

/-- Whether storage carries an operation out, or why it does not. -/
def verdict (s : MemoryStore) (op : Operation) : Except OperationError Unit :=
  (s.after op).map fun _ => ()

/-- Entries below a name are carried over without fail. -/
theorem carryOver_below (s : MemoryStore) (dn new : Dn) (m : NameMap Entry) :
    ∃ m', carryOver dn new (s.below dn) m = .ok m' := by
  have hcarry : ∀ (l : List (Dn × Entry)) (m : NameMap Entry),
      (∀ d ∈ l, d.1.isDescendantOf dn = true) → ∃ m', carryOver dn new l m = .ok m' := by
    intro l
    induction l with
    | nil => exact fun m _ => ⟨m, rfl⟩
    | cons d rest ih =>
        intro m hl
        obtain ⟨hd, hrest⟩ := List.forall_mem_cons.mp hl
        have hwithin : d.1.isWithin dn = true := by
          rw [Dn.isDescendantOf, Bool.and_eq_true, decide_eq_true_eq] at hd
          rw [Dn.isWithin, Bool.and_eq_true, decide_eq_true_eq]
          exact ⟨Nat.le_of_lt hd.1, hd.2⟩
        rw [carryOver, Dn.rebase?, Dn.relativeTo?, if_pos hwithin]
        exact ih _ hrest
  exact hcarry _ m fun d hd => (List.mem_filter.mp hd).2

/-- A relocation is carried out or refused alike. -/
theorem relocate_congr (h : AlikeBut x a s s') (dn new : Dn) (adjust : Entry → Entry) :
    (s.relocate dn new adjust).map (fun _ => ()) = (s'.relocate dn new adjust).map fun _ => () := by
  have hcarried : ∀ (s : MemoryStore) (m : NameMap Entry),
      ((carryOver dn new (s.below dn) m).bind fun entries =>
        Except.ok (ε := OperationError) { s with entries := entries }).map (fun _ => ())
        = .ok () := by
    intro s m
    obtain ⟨m', hm'⟩ := s.carryOver_below dn new m
    rw [hm']
    rfl
  rw [relocate_eq, relocate_eq, h.contains_eq, h.lacksPlace_eq]
  split
  · rfl
  · have hpaired := h.lookup dn
    rw [MemoryStore.lookup, MemoryStore.lookup] at hpaired
    generalize s.entries.get? dn = found at hpaired ⊢
    generalize s'.entries.get? dn = found' at hpaired ⊢
    cases hpaired with
    | none => rfl
    | same e | differ _ _ =>
        dsimp only
        split
        · rfl
        · split
          · rfl
          · rw [hcarried, hcarried]

/-- Storage says the same of any operation but modifications on stores that are alike. -/
theorem verdict_congr (h : AlikeBut x a s s') {op : Operation}
    (hop : ∀ dn mods, op ≠ .modify dn mods) : s.verdict op = s'.verdict op := by
  rw [verdict, verdict]
  cases op with
  | add entry =>
      rw [after, after, add_eq, add_eq, h.contains_eq, h.isSuffix_eq, h.hasParent_eq]
      split
      · rfl
      · split <;> rfl
  | delete dn =>
      rw [after, after, delete, delete, h.contains_eq, h.keys_eq]
      split
      · rfl
      · split <;> rfl
  | modify dn mods => exact absurd rfl (hop dn mods)
  | rename dn rdn deleteOld =>
      rw [after, after, rename, rename]
      cases dn.parent? with
      | none => rfl
      | some parent => exact relocate_congr h ..
  | move dn superior =>
      rw [after, after, move, move]
      cases dn.rdn? with
      | none => rfl
      | some rdn => exact relocate_congr h ..
  | moveAndRename dn superior rdn deleteOld =>
      rw [after, after, moveAndRename, moveAndRename]
      split
      · rfl
      · exact relocate_congr h ..
  | compare _ _ _ | lookup _ _ | hasEntry _ | search _ _ _ _ => rfl

-- ── What storage tells ───────────────────────────────────────────────────────────

/-- What is found under one name is alike. -/
theorem Paired.alike {dn : Dn} {e e' : Entry} (h : Paired x a dn (some e) (some e')) :
    e.AlikeBut a e' := by
  cases h with
  | same _ => exact .refl a e
  | differ _ halike => exact halike

/-- Of a list of entries, those in a scope that meet a filter. -/
def found (base : Dn) (scope : SearchScope) (filter : Filter) (l : List (Dn × Entry)) :
    List Entry :=
  ((l.filter fun e => scope.selects base e.1).map (·.2)).filter fun e => filter.isMetBy e

/-- What a search of the store finds: every selected entry that meets the filter, in the
    order of the store. -/
theorem backend_search_eq (s : MemoryStore) (base : Dn) (scope : SearchScope) (filter : Filter) :
    (Backend.search base scope filter : Action MemoryStore _) s
      = if !base.isRoot && !s.entries.contains base then .error .noMatchingEntries s
        else .ok ((found base scope filter s.entries.entries).map Except.ok) s := by
  show query _ s = _
  rw [query, search]
  by_cases hthere : (!base.isRoot && !s.entries.contains base) = true
  · rw [if_pos hthere, if_pos hthere]
    rfl
  · rw [if_neg hthere, if_neg hthere]
    rfl

/-- Counting the entries directly below a name asks for names alone. -/
theorem countChildren_eq (s : MemoryStore) (dn : Dn) :
    (Backend.countChildren dn : Action MemoryStore Nat) s
      = if !dn.isRoot && !s.entries.contains dn then .error .noMatchingEntries s
        else .ok (s.entries.keys.filter fun k => k.isChildOf dn).length s := by
  have hsearch := s.backend_search_eq dn .oneLevel Filter.all
  by_cases hthere : (!dn.isRoot && !s.entries.contains dn) = true
  · rw [if_pos hthere] at hsearch ⊢
    exact bind_of_error hsearch
  · have hfound : found dn .oneLevel Filter.all s.entries.entries
        = (s.entries.entries.filter fun e => e.1.isChildOf dn).map (·.2) :=
      List.filter_eq_self.mpr fun _ _ => rfl
    rw [if_neg hthere, hfound] at hsearch
    rw [if_neg hthere, Backend.countChildren, bind_of_ok hsearch,
      bind_of_ok (collectResults_map_ok _ s), OrdMap.keys, List.filter_map, List.length_map,
      List.length_map]
    rfl

namespace AlikeBut

variable (h : AlikeBut x a s s')

/-- A lookup tells what is found. -/
theorem tell_lookup (s s' : MemoryStore) (dn : Dn) :
    Tell (Backend.lookup dn) (Backend.lookup dn) s s' fun found found' =>
      found = s.lookup dn ∧ found' = s'.lookup dn :=
  ⟨⟨rfl, rfl⟩, rfl, rfl⟩

include h

/-- An entry that must be there is found in both stores, or in neither. -/
theorem tell_required (dn : Dn) :
    Tell (Backend.lookupRequired dn) (Backend.lookupRequired dn) s s' fun e e' =>
      s.lookup dn = some e ∧ s'.lookup dn = some e' := by
  have hpaired := h.lookup dn
  refine Tell.bind (tell_lookup s s' dn) ?_
  rintro _ _ ⟨rfl, rfl⟩
  generalize s.lookup dn = found at hpaired ⊢
  generalize s'.lookup dn = found' at hpaired ⊢
  cases hpaired with
  | none => exact .of_error rfl rfl
  | same e => exact .of_ok rfl rfl ⟨⟨rfl, rfl⟩, rfl, rfl⟩
  | differ _ _ => exact .of_ok rfl rfl ⟨⟨rfl, rfl⟩, rfl, rfl⟩

/-- Comparing another attribute, or that of another entry, tells nothing. -/
theorem tell_compare {dn : Dn} {attr : String} (hattr : dn.key = x.key → Attribute.readAs attr ≠ a)
    (value : String) :
    Tell (Backend.compare dn attr value) (Backend.compare dn attr value) s s' (· = ·) := by
  have hpaired := h.lookup dn
  have hsame : s.compare dn attr value = s'.compare dn attr value := by
    rw [MemoryStore.lookup, MemoryStore.lookup] at hpaired
    rw [MemoryStore.compare, MemoryStore.compare]
    generalize s.entries.get? dn = found at hpaired ⊢
    generalize s'.entries.get? dn = found' at hpaired ⊢
    cases hpaired with
    | none | same _ => rfl
    | differ hkey halike => exact congrArg Except.ok (halike.holds_eq (hattr hkey) value)
  show Tell (query _) (query _) s s' _
  rw [Tell, Agree, query, query, hsame]
  cases s'.compare dn attr value with
  | ok b => exact ⟨rfl, rfl, rfl⟩
  | error e => rfl

/-- As many entries are directly below a name in both stores. -/
theorem tell_countChildren (dn : Dn) :
    Tell (Backend.countChildren dn) (Backend.countChildren dn) s s' (· = ·) := by
  by_cases hthere : (!dn.isRoot && !s'.entries.contains dn) = true
  · refine .of_error ((countChildren_eq s dn).trans (if_pos ?_))
      ((countChildren_eq s' dn).trans (if_pos hthere))
    rw [h.contains_eq]
    exact hthere
  · refine .of_ok ((countChildren_eq s dn).trans (if_neg ?_))
      ((countChildren_eq s' dn).trans (if_neg hthere)) ⟨?_, rfl, rfl⟩
    · rw [h.contains_eq]
      exact hthere
    · rw [h.keys_eq]

end AlikeBut

end MemoryStore

end DirectoryAccess
