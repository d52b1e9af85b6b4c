import MavenUpgrade.Text.Lines

/-!
# Where a declaration stands

A dependency is declared in a section of the project, in its parent reference, or in a section of
a profile; a property belongs to the project or to a profile. Both are written as tags joined by
at signs, so that a report can name a declaration and be read back. The empty text stands for the
project's own dependencies, and for the project's own properties.
-/

namespace MavenUpgrade

/-- A section of a profile. -/
inductive ProfileSection where
  | direct
  | management
  /-- The dependencies of a build plugin, given by its coordinates. -/
  | plugin (plugin : String)
  deriving DecidableEq, Repr

/-- The place where a dependency is declared. -/
inductive Origin where
  | direct
  | management
  | parent
  /-- The dependencies of a build plugin, given by its coordinates. -/
  | plugin (plugin : String)
  | profile (id : String) (part : ProfileSection)
  deriving DecidableEq, Repr

/-- The place where a property is declared. -/
inductive Scope where
  | root
  | profile (id : String)
  deriving DecidableEq, Repr

/-- The tags that a text joins. -/
def tags (text : String) : List String :=
  (Text.splitWhere (· == '@') text.toList).map String.ofList

namespace Scope

/-- The written form of a scope. -/
def text : Scope → String
  | root => ""
  | profile id => "profile@" ++ id

/-- The scope that a text writes. -/
def read? (text : String) : Option Scope :=
  match tags text with
  | [""] => some root
  | ["profile", id] => if id.isEmpty then none else some (profile id)
  | _ => none

/-- The wording for a text that writes no scope. -/
def refusal (text : String) : String :=
  "invalid property scope '" ++ text ++ "'"

/-- The id of the profile, which orders the scopes; the project comes first. -/
def profileId? : Scope → Option String
  | root => none
  | profile id => some id

instance : Ord Scope where
  compare := compareOn profileId?

instance : Std.TransOrd Scope :=
  inferInstanceAs (Std.TransCmp (compareOn profileId?))

theorem profileId?_injective {s t : Scope} (h : s.profileId? = t.profileId?) : s = t := by
  cases s <;> cases t <;> simp_all [profileId?]

instance : Std.LawfulEqOrd Scope where
  eq_of_compare h := profileId?_injective (Std.LawfulEqOrd.eq_of_compare (α := Option String) h)

end Scope

namespace Origin

/-- The profile that a declaration stands in. -/
def profileId? : Origin → Option String
  | profile id _ => some id
  | _ => none

/-- Whether a declaration stands in a dependency management section. -/
def isManagement : Origin → Bool
  | management | profile _ .management => true
  | _ => false

/-- The scope in which the placeholders of a declaration are looked up first. -/
def scope : Origin → Scope
  | profile id _ => .profile id
  | _ => .root

/-- The written form of an origin. -/
def text : Origin → String
  | direct => ""
  | management => "management"
  | parent => "parent"
  | plugin p => "plugin@" ++ p
  | profile id .direct => "profile@" ++ id
  | profile id .management => "profile@" ++ id ++ "@management"
  | profile id (.plugin p) => "profile@" ++ id ++ "@plugin@" ++ p

/-- The origin that a text writes. -/
def read? (text : String) : Option Origin :=
  match tags text with
  | [""] => some direct
  | ["management"] => some management
  | ["parent"] => some parent
  | ["plugin", p] => if p.isEmpty then none else some (plugin p)
  | ["profile", id] => if id.isEmpty then none else some (profile id .direct)
  | ["profile", id, "management"] => if id.isEmpty then none else some (profile id .management)
  | ["profile", id, "plugin", p] =>
    if id.isEmpty || p.isEmpty then none else some (profile id (.plugin p))
  | _ => none

/-- The wording for a text that writes no origin. -/
def refusal (text : String) : String :=
  "invalid dependency origin '" ++ text ++ "'"

end Origin

end MavenUpgrade
