import Routeplane.Types.Chat

/-!
# Classification and the residency requirement

What the residency engine finds in a text, and when it locks routing to a region: a region
was asked for and the text carries personal data.
-/

namespace Routeplane

inductive EntityType
  | email
  | phone
  | aadhaar
  | pan
  | ssn
  | iban
  | cpf
  | nric
  | emiratesId
  | saudiId
  | ifsc
  | gstin
  | tfn
  | myNumber
  deriving DecidableEq, Repr, Inhabited

def EntityType.label : EntityType → String
  | .email => "email"
  | .phone => "phone"
  | .aadhaar => "aadhaar"
  | .pan => "pan"
  | .ssn => "ssn"
  | .iban => "iban"
  | .cpf => "cpf"
  | .nric => "nric"
  | .emiratesId => "emirates_id"
  | .saudiId => "saudi_id"
  | .ifsc => "ifsc"
  | .gstin => "gstin"
  | .tfn => "tfn"
  | .myNumber => "my_number"

structure Classification where
  containsPersonalData : Bool
  entities : List EntityType
  deriving DecidableEq, Repr, Inhabited

/-- The region routing is locked to, if any. -/
def requiredRegion (requested : Option Region) (classification : Classification) : Option Region :=
  match requested with
  | some region => if classification.containsPersonalData then some region else none
  | none => none

end Routeplane
