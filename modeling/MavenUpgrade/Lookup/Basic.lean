import MavenUpgrade.Requirement

/-!
# Lookups

What asking a registry for the versions of a package may come to.
-/

namespace MavenUpgrade

/-- Why a registry gave no versions. -/
inductive LookupFault where
  | unknownPackage
  | network (message : String)
  | rateLimited
  | invalidResponse (message : String)
  | timedOut
  /-- The name of the package does not tell where to look. -/
  | invalidName
  deriving DecidableEq, Repr

/-- A failed lookup of a package in a registry. -/
structure LookupError where
  fault : LookupFault
  package : String
  registry : String
  deriving DecidableEq, Repr

namespace LookupError

/-- The wording of a failed lookup. -/
def message (e : LookupError) : String :=
  match e.fault with
  | .unknownPackage => "package '" ++ e.package ++ "' not found in " ++ e.registry ++ " registry"
  | .network text =>
    "failed to fetch package '" ++ e.package ++ "' from " ++ e.registry ++ ": " ++ text
  | .rateLimited => "rate limit exceeded for " ++ e.registry ++ " registry"
  | .invalidResponse text =>
    "invalid response from " ++ e.registry ++ " for '" ++ e.package ++ "': " ++ text
  | .timedOut => "timeout while fetching '" ++ e.package ++ "' from " ++ e.registry
  | .invalidName => "invalid package name '" ++ e.package ++ "' for " ++ e.registry

/-- Whether the registry could not be reached or gave no usable answer. -/
def isUnreachable (e : LookupError) : Bool :=
  match e.fault with
  | .network _ | .rateLimited | .invalidResponse _ | .timedOut => true
  | .unknownPackage | .invalidName => false

/-- Whether the registry does not know the package. -/
def isUnknownPackage (e : LookupError) : Bool :=
  !e.isUnreachable

end LookupError

/-- The outcome of looking up one package. -/
inductive Lookup where
  | found (versions : List String)
  | failed (error : LookupError)
  /-- The lookup was given up before it was answered. -/
  | cancelled
  deriving DecidableEq, Repr

/-- Whether a lookup gave versions. -/
def Lookup.isFound : Lookup → Bool
  | found _ => true
  | _ => false

end MavenUpgrade
