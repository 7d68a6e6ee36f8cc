import DirectoryAccess.Grammar
import Mathlib.Data.List.TakeWhile

/-! # Yielding — what is true of the values a rule makes

    A rule YIELDS a property if every value it takes from any text at any place has
    it.  What a sequence, a choice or a list yields follows from what its parts
    yield, so that a property of a whole grammar is proved rule by rule. -/

namespace DirectoryAccess

namespace Grammar

namespace Rule

variable {α β : Type}

/-- Every value that the rule takes has a property. -/
def Yields (r : Rule α) (P : α → Prop) : Prop :=
  ∀ place a next far, r place = .taken a next far → P a

namespace Yields

variable {r s : Rule α} {P : α → Prop} {Q : β → Prop}

theorem mono {P' : α → Prop} (h : r.Yields P) (hP : ∀ a, P a → P' a) : r.Yields P' :=
  fun place a next far htaken => hP a (h place a next far htaken)

theorem pure {a : α} (h : P a) : (Pure.pure a : Rule α).Yields P := by
  intro place b next far htaken
  change Outcome.taken a place 0 = _ at htaken
  cases htaken
  exact h

theorem bind {f : α → Rule β} (hr : r.Yields P) (hf : ∀ a, P a → (f a).Yields Q) :
    (r >>= f).Yields Q := by
  intro place b last far htaken
  change Rule.bind r f place = _ at htaken
  rw [Rule.bind] at htaken
  cases hfirst : r place with
  | refused far' =>
      rw [hfirst] at htaken
      cases htaken
  | taken a next far' =>
      rw [hfirst] at htaken
      dsimp only at htaken
      cases hsecond : f a next with
      | refused far'' =>
          rw [hsecond] at htaken
          cases htaken
      | taken b' last' far'' =>
          rw [hsecond] at htaken
          cases htaken
          exact hf a (hr place a next far' hfirst) next b last far'' hsecond

/-- Behind a rule whose value does not matter. -/
theorem after {f : α → Rule β} (hf : ∀ a, (f a).Yields Q) : (r >>= f).Yields Q :=
  bind (P := fun _ => True) (fun _ _ _ _ _ => trivial) fun a _ => hf a

theorem orElse (hr : r.Yields P) (hs : s.Yields P) : (r <|> s).Yields P := by
  intro place a next far htaken
  change Rule.orElse r (fun _ => s) place = _ at htaken
  rw [Rule.orElse] at htaken
  cases hfirst : r place with
  | taken b last far' =>
      rw [hfirst] at htaken
      cases htaken
      exact hr place a next far hfirst
  | refused far' =>
      rw [hfirst] at htaken
      dsimp only at htaken
      cases hsecond : s place with
      | refused far'' =>
          rw [hsecond] at htaken
          cases htaken
      | taken b last far'' =>
          rw [hsecond] at htaken
          cases htaken
          exact hs place a next far'' hsecond

/-- What passes a check is what the check makes of what was yielded. -/
theorem checked {check : α → Option β} (hr : r.Yields P)
    (hcheck : ∀ a b, P a → check a = some b → Q b) : (Grammar.checked r check).Yields Q := by
  intro place b next far htaken
  rw [Grammar.checked] at htaken
  cases hfirst : r place with
  | refused far' =>
      rw [hfirst] at htaken
      cases htaken
  | taken a last far' =>
      rw [hfirst] at htaken
      dsimp only at htaken
      cases hb : check a with
      | none =>
          rw [hb] at htaken
          cases htaken
      | some b' =>
          rw [hb] at htaken
          cases htaken
          exact hcheck a b (hr place a next far hfirst) hb

theorem optional (hr : r.Yields P) : (Grammar.optional r).Yields fun o => ∀ a ∈ o, P a := by
  intro place o next far htaken a ha
  rw [Grammar.optional] at htaken
  cases hfirst : r place with
  | refused far' =>
      rw [hfirst] at htaken
      cases htaken
      cases ha
  | taken b last far' =>
      rw [hfirst] at htaken
      cases htaken
      cases ha
      exact hr place a next far hfirst

-- ── Lists and braces ─────────────────────────────────────────────────────────────

/-- Every element behind a comma is yielded, up to whatever bound. -/
theorem commaBefore (hr : r.Yields P) (bound : Nat) :
    (Grammar.commaBefore r bound).Yields fun as => ∀ a ∈ as, P a := by
  induction bound with
  | zero => exact pure nofun
  | succ bound ih =>
      intro place as last far htaken
      simp only [Grammar.commaBefore] at htaken
      cases hfirst : Rule.bind comma (fun _ => r) place with
      | refused far' =>
          rw [hfirst] at htaken
          cases htaken
          exact nofun
      | taken a next far' =>
          rw [hfirst] at htaken
          dsimp only at htaken
          cases hothers : Grammar.commaBefore r bound next with
          | refused far'' =>
              rw [hothers] at htaken
              cases htaken
          | taken as' last' far'' =>
              rw [hothers] at htaken
              cases htaken
              have ha : P a :=
                after (r := comma) (f := fun _ => r) (fun _ => hr) place a next far' hfirst
              exact List.forall_mem_cons.mpr ⟨ha, ih next as' last far'' hothers⟩

theorem commaSeparated (hr : r.Yields P) :
    (Grammar.commaSeparated r).Yields fun as => ∀ a ∈ as, P a := by
  intro place as last far htaken
  rw [Grammar.commaSeparated] at htaken
  cases hfirst : r place with
  | refused far' =>
      rw [hfirst] at htaken
      cases htaken
      exact nofun
  | taken a next far' =>
      rw [hfirst] at htaken
      dsimp only at htaken
      cases hothers : Grammar.commaBefore r (next.rest.length + 1) next with
      | refused far'' =>
          rw [hothers] at htaken
          cases htaken
      | taken as' last' far'' =>
          rw [hothers] at htaken
          cases htaken
          exact List.forall_mem_cons.mpr
            ⟨hr place a next far' hfirst, commaBefore hr _ next as' last far'' hothers⟩

theorem braced (hr : r.Yields P) : (Grammar.braced r).Yields P :=
  after fun _ => after fun _ => bind hr fun _ ha => after fun _ => after fun _ => pure ha

theorem list (hr : r.Yields P) :
    (Grammar.braced (Grammar.commaSeparated r)).Yields fun as => ∀ a ∈ as, P a :=
  braced (commaSeparated hr)

-- ── Characters and runs ──────────────────────────────────────────────────────────

variable {p : Char → Bool}

theorem oneOf : (oneOf p).Yields fun c => p c = true := by
  intro place c next far htaken
  rw [Grammar.oneOf] at htaken
  split at htaken
  · split at htaken
    · next hp =>
      cases htaken
      exact hp
    · cases htaken
  · cases htaken

theorem run : (run p).Yields fun cs => ∀ c ∈ cs, p c = true := by
  intro place cs next far htaken
  cases htaken
  exact fun c hc => List.mem_takeWhile_imp hc

theorem run1 : (run1 p).Yields fun cs => cs ≠ [] ∧ ∀ c ∈ cs, p c = true := by
  intro place cs next far htaken
  rw [Grammar.run1] at htaken
  split at htaken
  · cases htaken
  · next hne =>
    refine ⟨?_, run place cs next far htaken⟩
    rintro rfl
    exact hne next far htaken

theorem upTo : (upTo p).Yields fun cs => ∀ c ∈ cs, p c = false := by
  intro place cs next far htaken
  cases htaken
  intro c hc
  simpa using List.mem_takeWhile_imp hc

theorem upTo1 : (upTo1 p).Yields fun cs => ∀ c ∈ cs, p c = false := by
  intro place cs next far htaken
  rw [Grammar.upTo1] at htaken
  split at htaken
  · cases htaken
  · exact upTo place cs next far htaken

end Yields

end Rule

/-- What a rule yields is true of the value of a whole text. -/
theorem Rule.Yields.whole {α : Type} {r : Rule α} {P : α → Prop} (h : r.Yields P)
    {text : List Char} {a : α} (ha : Grammar.whole r text = .ok a) : P a := by
  rw [Grammar.whole] at ha
  split at ha
  · next b place far htaken =>
    split at ha
    · cases ha
      exact h _ a place far htaken
    · cases ha
  · cases ha

end Grammar

end DirectoryAccess
