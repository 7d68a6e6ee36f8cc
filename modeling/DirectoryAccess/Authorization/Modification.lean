import DirectoryAccess.Aci.Decision

/-! # Authorizing modifications — what every change needs

    A modification is checked against the projection that the ones before it left.
    Values that appear need `Add` and values that disappear need `Remove`.  An
    attribute that comes into being needs `Add` on its type, and one that ceases to
    be needs `Remove`. -/

namespace DirectoryAccess

/-- Ask for one micro operation on each value of a list. -/
def requireEach (check : AccessCheck) (attr : String) :
    List String → Except OperationError Unit
  | [] => .ok ()
  | v :: vs => do
      (check.onValue attr v).require
      requireEach check attr vs

/-- Check one modification against the projection `view`, and give the projection
    after it.  What is added is checked against the projection after the change, so
    that limits on the number of values see the number there would be. -/
def checkModification (requester : Requester) (entry : Entry) (tuples : List AciTuple)
    (view : Entry) (m : Modification) : Except OperationError Entry := do
  let attr := m.attr
  let post := view.project m
  let before := (view.values? attr).getD OrdSet.empty
  let after := (post.values? attr).getD OrdSet.empty
  let adding := (AccessCheck.onEntry requester entry [.add] tuples).withView post
  let removing := (AccessCheck.onEntry requester entry [.remove] tuples).withView view
  if before.isEmpty && !after.isEmpty then (adding.onAttribute attr).require
  requireEach removing attr (before.diff after).toList
  requireEach adding attr (after.diff before).toList
  if !before.isEmpty && after.isEmpty then (removing.onAttribute attr).require
  return post

/-- Check modifications one after the other, and give the projection after them. -/
def checkModifications (requester : Requester) (entry : Entry) (tuples : List AciTuple)
    (view : Entry) (mods : List Modification) : Except OperationError Entry :=
  mods.foldlM (checkModification requester entry tuples) view

end DirectoryAccess
