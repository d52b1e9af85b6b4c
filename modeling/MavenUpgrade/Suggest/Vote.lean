import MavenUpgrade.Template.Matching

/-!
# Voting on the value of a property

Each member of a property is a template with the text that it should render to. A member proposes
the value that its template needs for this; the proposal that suits the most members wins, and of
two that suit as many the earlier one.
-/

namespace MavenUpgrade

/-- A member of a property: its template, and the text that it should render to. -/
structure Voter where
  template : Template
  desired : String
  deriving DecidableEq, Repr

namespace Voter

/-- The value that a member proposes for a property. -/
def proposal? (v : Voter) (name : String) : Option String :=
  (v.template.matches? v.desired).bind fun values => values.lookup name

/-- Whether a value of a property lets a member render to its text. -/
def isSuitedBy (v : Voter) (name value : String) : Bool :=
  ((v.template.substitute name value).matches? v.desired).isSome

/-- The proposals for a property, each where it is first made. -/
def proposals (voters : List Voter) (name : String) : List String :=
  distinct (voters.filterMap (·.proposal? name))

/-- The number of members that a value suits. -/
def support (voters : List Voter) (name value : String) : Nat :=
  voters.countP (·.isSuitedBy name value)

/-- The first of the values with the most support. -/
def mostSupported? (voters : List Voter) (name : String) : List String → Option String
  | [] => none
  | value :: values =>
    some (values.foldl (fun best value =>
      if support voters name best < support voters name value then value else best) value)

/-- The value that the members choose for a property. -/
def chooseValue? (voters : List Voter) (name : String) : Option String :=
  mostSupported? voters name (proposals voters name)

end Voter

end MavenUpgrade
