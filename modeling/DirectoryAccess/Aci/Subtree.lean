import DirectoryAccess.Entry.Basic

/-! # Subtree specifications — which entries of an area are meant

    A specification selects entries below an administrative point.  Its base and
    its exclusions are relative names anchored there, its bounds limit the depth
    below the base, and a refinement asks for object classes.

    A specification is written as a list of components, each of which may be given
    at most once and in any place. -/

namespace DirectoryAccess

/-- A condition on the object classes of an entry. -/
inductive Refinement where
  | item (name : String)
  | conjunction (refinements : List Refinement)
  | disjunction (refinements : List Refinement)
  | negation (refinement : Refinement)
  deriving Inhabited

namespace Refinement

mutual

/-- True if an entry meets the condition. -/
def isMetBy (e : Entry) : Refinement → Bool
  | item name => e.hasClass name
  | conjunction rs => allMetBy e rs
  | disjunction rs => someMetBy e rs
  | negation r => !isMetBy e r

/-- True if an entry meets every condition of a list. -/
def allMetBy (e : Entry) : List Refinement → Bool
  | [] => true
  | r :: rs => isMetBy e r && allMetBy e rs

/-- True if an entry meets some condition of a list. -/
def someMetBy (e : Entry) : List Refinement → Bool
  | [] => false
  | r :: rs => isMetBy e r || someMetBy e rs

end

end Refinement

/-- A selection of entries below an administrative point. -/
structure SubtreeSpecification where
  base : Dn
  chopBefore : List Dn
  chopAfter : List Dn
  minimum : Nat
  maximum : Option Nat
  refinement : Option Refinement

namespace SubtreeSpecification

/-- The specification that selects everything. -/
def everything : SubtreeSpecification := ⟨Dn.root, [], [], 0, none, none⟩

instance : Inhabited SubtreeSpecification := ⟨everything⟩

/-- True if a depth below the base lies within the bounds. -/
def admitsDepth (spec : SubtreeSpecification) (depth : Nat) : Bool :=
  spec.minimum ≤ depth
    && match spec.maximum with
      | some max => decide (depth ≤ max)
      | none => true

/-- True if an exclusion takes a name away.  One kind takes the named entry and all
    below it, the other only what is below it. -/
def excludes (spec : SubtreeSpecification) (base dn : Dn) : Bool :=
  spec.chopBefore.any (fun chop => dn.isWithin (chop.concat base))
    || spec.chopAfter.any (fun chop => dn.isDescendantOf (chop.concat base))

/-- True if the entry, where it is known, meets the refinement.  Without an entry no
    refinement is met. -/
def refines (spec : SubtreeSpecification) (entry : Option Entry) : Bool :=
  match spec.refinement, entry with
  | none, _ => true
  | some r, some e => r.isMetBy e
  | some _, none => false

/-- True if a name is selected below an administrative point. -/
def selects (spec : SubtreeSpecification) (adminPoint dn : Dn) (entry : Option Entry) :
    Bool :=
  let base := spec.base.concat adminPoint
  match dn.relativeTo? base with
  | none => false
  | some rel => spec.admitsDepth rel.depth && !spec.excludes base dn && spec.refines entry

end SubtreeSpecification

/-- A name below the base that is left out. -/
inductive Exclusion where
  | chopBefore (dn : Dn)
  | chopAfter (dn : Dn)
  deriving DecidableEq

/-- One component of a written specification. -/
inductive SubtreeComponent where
  | base (dn : Dn)
  | exclusions (list : List Exclusion)
  | minimum (n : Nat)
  | maximum (n : Nat)
  | filter (refinement : Refinement)

/-- The kinds of components. -/
inductive SubtreeComponentKind where
  | base
  | exclusions
  | minimum
  | maximum
  | filter
  deriving DecidableEq

namespace SubtreeComponent

/-- The kind of a component. -/
def kind : SubtreeComponent → SubtreeComponentKind
  | base _ => .base
  | exclusions _ => .exclusions
  | minimum _ => .minimum
  | maximum _ => .maximum
  | filter _ => .filter

/-- The names of one kind of exclusion, in the order written. -/
def chopsBefore (list : List Exclusion) : List Dn :=
  list.filterMap fun
    | .chopBefore dn => some dn
    | .chopAfter _ => none

/-- The names of the other kind of exclusion, in the order written. -/
def chopsAfter (list : List Exclusion) : List Dn :=
  list.filterMap fun
    | .chopAfter dn => some dn
    | .chopBefore _ => none

/-- A specification with one component written into it. -/
def writeInto (spec : SubtreeSpecification) : SubtreeComponent → SubtreeSpecification
  | base dn => { spec with base := dn }
  | exclusions list =>
      { spec with
        chopBefore := spec.chopBefore ++ chopsBefore list
        chopAfter := spec.chopAfter ++ chopsAfter list }
  | minimum n => { spec with minimum := n }
  | maximum n => { spec with maximum := some n }
  | filter r => { spec with refinement := some r }

end SubtreeComponent

/-- What is wrong with the components of a specification. -/
inductive SubtreeFault where
  | givenTwice
  | maximumBelowMinimum
  deriving DecidableEq

/-- The wording of a fault. -/
def SubtreeFault.message : SubtreeFault → String
  | givenTwice => "subtree specification component given twice"
  | maximumBelowMinimum => "subtree maximum is below minimum"

/-- A specification in the making: what has been written, and the kinds of the components
    it was written from. -/
structure SubtreeDraft where
  spec : SubtreeSpecification
  seen : List SubtreeComponentKind

namespace SubtreeDraft

/-- The draft that no component has been written into. -/
def blank : SubtreeDraft := ⟨SubtreeSpecification.everything, []⟩

/-- A draft with one component more.  A component whose kind has been seen is written as
    any other, and only then the draft is given up. -/
def add (draft : SubtreeDraft) (c : SubtreeComponent) : Except SubtreeFault SubtreeDraft :=
  let spec := SubtreeComponent.writeInto draft.spec c
  if draft.seen.contains c.kind then .error .givenTwice else .ok ⟨spec, c.kind :: draft.seen⟩

end SubtreeDraft

namespace SubtreeSpecification

/-- A specification whose bounds leave some depth. -/
def withBoundsChecked (spec : SubtreeSpecification) : Except SubtreeFault SubtreeSpecification :=
  match spec.maximum with
  | some max => if max < spec.minimum then .error .maximumBelowMinimum else .ok spec
  | none => .ok spec

/-- The specification of a list of components, written one after the other. -/
def ofComponents (components : List SubtreeComponent) :
    Except SubtreeFault SubtreeSpecification := do
  let draft ← components.foldlM SubtreeDraft.add SubtreeDraft.blank
  draft.spec.withBoundsChecked

/-- The specification of a list of components, if it has one. -/
def ofComponents? (components : List SubtreeComponent) : Option SubtreeSpecification :=
  (ofComponents components).toOption

end SubtreeSpecification

end DirectoryAccess
