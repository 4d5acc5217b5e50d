import TimeOff.Entities

/-!
# The request state machine

`ALLOWED_TRANSITIONS` and the check of `assertTransition`. A request is *open*
while its days are to be held in `reserved_days`: until it is rejected or
cancelled, or until it is approved by the HCM and its days are used. (`from`
and `to` are tokens of Lean: a transition goes from its `source` to its
`target`.)
-/

namespace TimeOff

open Transaction

/-- `ALLOWED_TRANSITIONS` -/
def allowedTransitions : RequestStatus → List RequestStatus
  | .pending => [.approvedPendingHcm, .rejected, .cancelled]
  | .approvedPendingHcm => [.approved, .failed, .cancelled]
  | .approved => []
  | .rejected => []
  | .cancelled => []
  | .failed => [.approved]

/-- `canTransition` -/
def canTransition (source target : RequestStatus) : Bool :=
  (allowedTransitions source).contains target

/-- `assertTransition` -/
def assertTransition (source target : RequestStatus) : Tx Unit :=
  if canTransition source target then pure ()
  else throw (.badRequest s!"Cannot transition from {source.text} to {target.text}")

theorem assertTransition_ok {source target : RequestStatus} {s s' : Session} {u : Unit}
    (h : (assertTransition source target).run s = .ok u s') :
    canTransition source target ∧ s' = s :=
  check_eq_ok.1 h

namespace RequestStatus

/-- The statuses in which the days of a request are reserved. -/
def isOpen : RequestStatus → Bool
  | pending | approvedPendingHcm | failed => true
  | approved | rejected | cancelled => false

end RequestStatus

/-- A transition leaves an open status. -/
theorem isOpen_of_canTransition {source target : RequestStatus} (h : canTransition source target) :
    source.isOpen := by
  cases source <;> first | rfl | cases h

theorem ne_pending_of_canTransition {source target : RequestStatus}
    (h : canTransition source target) : target ≠ .pending := by
  rintro rfl
  cases source <;> cases h

theorem eq_pending_of_canTransition {source : RequestStatus}
    (h : canTransition source .rejected) : source = .pending := by
  cases source <;> first | rfl | cases h

theorem ne_of_canTransition {source target : RequestStatus} (h : canTransition source target) :
    source ≠ target := by
  rintro rfl
  cases source <;> cases h

end TimeOff
