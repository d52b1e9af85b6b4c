import Mathlib
import MavenUpgrade.Exchange.Decode
import MavenUpgrade.Proofs.Collection.Traverse
import MavenUpgrade.Proofs.Json.Layout
import MavenUpgrade.Proofs.Origin

/-!
# Values that are read back

What is written as JSON is read back, but for places: these stand in their written form, which has
to be readable itself. So each value that holds places is read back exactly when the names of its
places are tags. So is a summary, from its text in both layouts, if its path is a text; else it has
no JSON form (`Summary.read_back_iff`).
-/

namespace MavenUpgrade

/-! ## Maps -/

namespace SortedMap

variable {α β : Type} [Ord α] [Std.TransOrd α]

omit [Std.TransOrd α] in
/-- A value under a key behind all others comes last. -/
theorem put_of_forall_lt [Std.OrientedOrd α] {key : α} {entries : List (α × β)}
    (h : ∀ e ∈ entries, compare e.1 key = .lt) (value : β) :
    put key value entries = entries ++ [(key, value)] := by
  induction entries with
  | nil => rfl
  | cons e entries ih =>
    obtain ⟨k, v⟩ := e
    have hgt : compare key k = .gt := Std.OrientedCmp.gt_of_lt (h (k, v) List.mem_cons_self)
    rw [put, hgt]
    show (k, v) :: put key value entries = _
    rw [ih fun e he => h e (List.mem_cons_of_mem _ he)]
    rfl

/-- Entries by increasing key are put behind each other. -/
theorem entries_foldl_insert {m : SortedMap α β} {entries : List (α × β)}
    (h : (m.entries ++ entries).Pairwise fun x y => compare x.1 y.1 = .lt) :
    (entries.foldl (fun m e => m.insert e.1 e.2) m).entries = m.entries ++ entries := by
  induction entries generalizing m with
  | nil => exact (List.append_nil _).symm
  | cons e entries ih =>
    have hlast : (m.insert e.1 e.2).entries = m.entries ++ [e] :=
      put_of_forall_lt (fun x hx => (List.pairwise_append.mp h).2.2 x hx e List.mem_cons_self) e.2
    rw [List.foldl_cons, ih, hlast, List.append_assoc]
    · rfl
    · rw [hlast, List.append_assoc]
      exact h

/-- A map is made of its entries. -/
theorem ofList_entries (m : SortedMap α β) : ofList m.entries = m := by
  have h : (ofList m.entries).entries = m.entries := entries_foldl_insert m.increasing
  generalize ofList m.entries = m' at h
  cases m
  cases m'
  obtain rfl := h
  rfl

/-- A key of a map that entries are inserted in is one of theirs, or was there before. -/
theorem exists_mem_of_mem_foldl_insert {entries : List (α × β)} {m : SortedMap α β} {e : α × β}
    (h : e ∈ (entries.foldl (fun m e => m.insert e.1 e.2) m).entries) :
    (∃ d ∈ entries, d.1 = e.1) ∨ ∃ d ∈ m.entries, d.1 = e.1 := by
  induction entries generalizing m with
  | nil => exact Or.inr ⟨e, h, rfl⟩
  | cons d entries ih =>
    rcases ih h with ⟨d', hd', he⟩ | ⟨d', hd', he⟩
    · exact Or.inl ⟨d', List.mem_cons_of_mem _ hd', he⟩
    · rcases fst_mem_put hd' with hkey | ⟨d'', hd'', he'⟩
      · exact Or.inl ⟨d, List.mem_cons_self, hkey.symm.trans he⟩
      · exact Or.inr ⟨d'', hd'', he'.trans he⟩

/-- The keys of a map that is made of entries are among those of the entries. -/
theorem exists_mem_of_mem_ofList {entries : List (α × β)} {e : α × β}
    (h : e ∈ (ofList entries).entries) : ∃ d ∈ entries, d.1 = e.1 := by
  rcases exists_mem_of_mem_foldl_insert h with h | ⟨d, hd, -⟩
  · exact h
  · cases hd

end SortedMap

/-! ## Parts -/

/-- A value with one part that may fail to be read is read exactly when this part is. -/
theorem bind_some_eq_iff {α β : Type} {f : α → β} (hf : Function.Injective f) {x : Option α}
    {a : α} : (x.bind fun a => some (f a)) = some (f a) ↔ x = some a := by
  rw [Option.bind_eq_some_iff]
  constructor
  · rintro ⟨b, hb, he⟩
    rw [hb, hf (Option.some.inj he)]
  · rintro rfl
    exact ⟨a, rfl, rfl⟩

/-- A value with two parts that may fail to be read is read exactly when both parts are. -/
theorem bind_bind_some_eq_iff {α β γ : Type} {f : α → β → γ} (hf : Function.Injective2 f)
    {x : Option α} {y : Option β} {a : α} {b : β} :
    (x.bind fun a => y.bind fun b => some (f a b)) = some (f a b) ↔ x = some a ∧ y = some b := by
  rw [Option.bind_eq_some_iff]
  constructor
  · rintro ⟨a', ha, h⟩
    obtain ⟨b', hb, he⟩ := Option.bind_eq_some_iff.mp h
    obtain ⟨rfl, rfl⟩ := hf (Option.some.inj he)
    exact ⟨ha, hb⟩
  · rintro ⟨rfl, rfl⟩
    exact ⟨a, rfl, rfl⟩

/-- A list is read back exactly when each of its members is. -/
theorem Json.listOf?_ofList_iff {α : Type} {encode : α → Json} {decode : Json → Option α}
    {xs : List α} :
    (ofList encode xs).listOf? decode = some xs ↔ ∀ x ∈ xs, decode (encode x) = some x := by
  show (xs.map encode).mapM decode = some xs ↔ _
  rw [mapM_eq_some_iff, List.forall₂_map_left_iff, List.forall₂_same]

/-! ## Values without places -/

/-- A package is read back. -/
theorem Package.ofJson?_toJson (place : JsonPlace) (p : Package) :
    ofJson? place p.toJson = some p := by
  obtain ⟨⟨⟩, name⟩ := p
  rfl

/-- A reason is read back. -/
theorem SkipReason.ofJson?_toJson (place : JsonPlace) (reason : SkipReason) :
    ofJson? place reason.toJson = some reason := by
  cases reason <;> rfl

/-- Tags are read back, also where they are left out since there are none. -/
theorem Requirement.tags?_lookup (tags : List String) :
    tags? ((tagFields tags).lookup "scope_tags") = some tags := by
  cases tags with
  | nil => rfl
  | cons tag tags => exact Json.listOf?_ofList_iff.mpr fun _ _ => rfl

/-- New values of properties are read back. -/
theorem PropertyPatches.values?_object (values : SortedMap String String) :
    values? (.object (values.entries.map fun e => (e.1, .string e.2))) = some values := by
  have hentries : (values.entries.map fun e => (e.1, Json.string e.2)).mapM value? =
      some values.entries := by
    rw [mapM_eq_some_iff, List.forall₂_map_left_iff, List.forall₂_same]
    exact fun _ _ => rfl
  show ((values.entries.map fun e => (e.1, Json.string e.2)).mapM value?).map SortedMap.ofList = _
  rw [hentries, Option.map_some, SortedMap.ofList_entries]

/-! ## Values with places -/

/-- An origin is read back exactly when its names are tags. -/
theorem Origin.ofJson?_toJson_iff (o : Origin) :
    ofJson? o.toJson = some o ↔ ∀ name ∈ o.names, IsTag name :=
  o.read?_text_iff

/-- A scope is read back exactly when its name is a tag. -/
theorem Scope.ofJson?_toJson_iff (s : Scope) :
    ofJson? s.toJson = some s ↔ ∀ name ∈ s.names, IsTag name :=
  s.read?_text_iff

/-- The parts of a requirement are those that are written. -/
theorem Requirement.parts?_toJson (r : Requirement) :
    r.toJson.parts? ["package", "declared", "resolved", "origin", "scope_tags"] =
      some [some r.package.toJson, some (.string r.declared), some (.string r.resolved),
        some r.origin.toJson, (tagFields r.scopeTags).lookup "scope_tags"] := by
  obtain ⟨package, declared, resolved, origin, tags⟩ := r
  cases tags <;> rfl

/-- **A requirement is read back exactly when the names of its origin are tags.** -/
theorem Requirement.ofJson?_toJson_iff (place : JsonPlace) (r : Requirement) :
    ofJson? place r.toJson = some r ↔ ∀ name ∈ r.origin.names, IsTag name := by
  rw [← Origin.ofJson?_toJson_iff, ofJson?, parts?_toJson]
  simp only [Package.ofJson?_toJson, Json.text?, tags?_lookup, Option.bind_eq_bind,
    Option.bind_some]
  exact bind_some_eq_iff (f := fun o => Requirement.mk r.package r.declared r.resolved o
    r.scopeTags) fun o o' h => congrArg Requirement.origin h

/-- The names of the places that a route holds. -/
def Route.placeNames : Route → List String
  | property scope _ => scope.names
  | direct | pinned => []

/-- **A route is read back exactly when the name of its scope is a tag.** -/
theorem Route.ofJson?_toJson_iff (place : JsonPlace) (via : Route) :
    ofJson? place via.toJson = some via ↔ ∀ name ∈ via.placeNames, IsTag name := by
  cases via with
  | direct =>
    refine iff_of_true ?_ nofun
    cases place <;> rfl
  | pinned =>
    refine iff_of_true ?_ nofun
    cases place <;> rfl
  | property scope name =>
    have hparts : ofJson? place (property scope name).toJson =
        (Scope.ofJson? scope.toJson).bind fun s => some (property s name) := by
      cases place <;> rfl
    rw [hparts]
    show _ ↔ ∀ name ∈ scope.names, IsTag name
    rw [← Scope.ofJson?_toJson_iff]
    exact bind_some_eq_iff fun s s' h => (Route.property.inj h).1

/-- The names of the places that an outcome holds. -/
def Outcome.placeNames : Outcome → List String
  | update r _ via => r.origin.names ++ via.placeNames
  | skip r _ => r.origin.names

/-- **An outcome is read back exactly when the names of its places are tags.** -/
theorem Outcome.ofJson?_toJson_iff (outcome : Outcome) :
    ofJson? outcome.toJson = some outcome ↔ ∀ name ∈ outcome.placeNames, IsTag name := by
  cases outcome with
  | update r version via =>
    have hparts : ofJson? (update r version via).toJson =
        (Requirement.ofJson? .insideOutcome r.toJson).bind fun r =>
          (Route.ofJson? .insideOutcome via.toJson).bind fun via =>
            some (update r version via) := rfl
    have hinj : Function.Injective2 fun r via => update r version via := by
      intro r r' via via' h
      obtain ⟨hr, -, hvia⟩ := Outcome.update.inj h
      exact ⟨hr, hvia⟩
    rw [hparts]
    refine (bind_bind_some_eq_iff hinj).trans ?_
    rw [Requirement.ofJson?_toJson_iff, Route.ofJson?_toJson_iff]
    exact List.forall_mem_append.symm
  | skip r reason =>
    have hparts : ofJson? (skip r reason).toJson =
        (Requirement.ofJson? .insideOutcome r.toJson).bind fun r =>
          (SkipReason.ofJson? .insideOutcome reason.toJson).bind fun reason =>
            some (skip r reason) := rfl
    rw [hparts, SkipReason.ofJson?_toJson]
    show ((Requirement.ofJson? .insideOutcome r.toJson).bind fun r => some (skip r reason)) = _ ↔ _
    refine (bind_some_eq_iff fun r r' h => (Outcome.skip.inj h).1).trans ?_
    exact Requirement.ofJson?_toJson_iff .insideOutcome r

/-- **A new version text for a declaration is read back exactly when the names of its origin are
tags.** -/
theorem DependencyPatch.ofJson?_toJson_iff (d : DependencyPatch) :
    ofJson? d.toJson = some d ↔ ∀ name ∈ d.origin.names, IsTag name := by
  have hparts : ofJson? d.toJson = (Package.ofJson? .elsewhere d.package.toJson).bind fun p =>
      (Origin.ofJson? d.origin.toJson).bind fun o => some ⟨p, o, d.newRequire⟩ := rfl
  rw [hparts, Package.ofJson?_toJson, Option.bind_some, ← Origin.ofJson?_toJson_iff]
  exact bind_some_eq_iff (f := fun o => DependencyPatch.mk d.package o d.newRequire)
    fun o o' h => congrArg DependencyPatch.origin h

/-- **New values of properties are read back exactly when the names of their scopes are tags.** -/
theorem PropertyPatches.ofJson?_toJson_iff (properties : PropertyPatches) :
    ofJson? (toJson properties) = some properties ↔
      ∀ e ∈ properties.entries, ∀ name ∈ e.1.names, IsTag name := by
  have hscope (e : Scope × SortedMap String String) (s : Scope × SortedMap String String) :
      scope? (e.1.text, .object (e.2.entries.map fun c => (c.1, .string c.2))) = some s ↔
        Scope.read? e.1.text = some s.1 ∧ e.2 = s.2 := by
    have hparts : scope? (e.1.text, .object (e.2.entries.map fun c => (c.1, .string c.2))) =
        (Scope.read? e.1.text).bind fun s =>
          (values? (.object (e.2.entries.map fun c => (c.1, .string c.2)))).bind fun values =>
            some (s, values) := rfl
    rw [hparts]
    refine (bind_bind_some_eq_iff fun s s' vs vs' h => Prod.mk.inj h).trans ?_
    rw [values?_object, Option.some_inj]
  have hfields : ofJson? (toJson properties) = ((properties.entries.map fun e =>
      (e.1.text, Json.object (e.2.entries.map fun c => (c.1, .string c.2)))).mapM scope?).map
        SortedMap.ofList := rfl
  rw [hfields, Option.map_eq_some_iff]
  constructor
  · -- each scope is one that has been read
    rintro ⟨read, hread, rfl⟩ e he
    obtain ⟨d, hd, hkey⟩ := SortedMap.exists_mem_of_mem_ofList he
    rw [mapM_eq_some_iff, List.forall₂_map_left_iff] at hread
    obtain ⟨e', -, he'⟩ := exists_mem_of_forall₂ hread.flip hd
    rw [← hkey]
    exact Scope.isTag_of_read? ((hscope e' d).mp he').1
  · intro h
    refine ⟨properties.entries, ?_, SortedMap.ofList_entries properties⟩
    rw [mapM_eq_some_iff, List.forall₂_map_left_iff, List.forall₂_same]
    exact fun e he => (hscope e e).mpr ⟨e.1.read?_text_iff.mpr (h e he), rfl⟩

/-- The names of the places that a patch holds. -/
def Patch.placeNames (p : Patch) : List String :=
  p.dependencies.flatMap (·.origin.names) ++ p.properties.entries.flatMap (·.1.names)

/-- **A patch is read back exactly when the names of its places are tags.** -/
theorem Patch.ofJson?_toJson_iff (p : Patch) :
    ofJson? p.toJson = some p ↔ ∀ name ∈ p.placeNames, IsTag name := by
  have hparts : ofJson? p.toJson =
      ((Json.ofList DependencyPatch.toJson p.dependencies).listOf? DependencyPatch.ofJson?).bind
        fun ds => (PropertyPatches.ofJson? p.properties.toJson).bind fun ps => some ⟨ds, ps⟩ := rfl
  have hinj : Function.Injective2 Patch.mk := by
    intro ds ds' ps ps' h
    exact Patch.mk.inj h
  rw [hparts]
  refine (bind_bind_some_eq_iff hinj).trans ?_
  rw [Json.listOf?_ofList_iff, PropertyPatches.ofJson?_toJson_iff, placeNames,
    List.forall_mem_append, List.forall_mem_flatMap, List.forall_mem_flatMap]
  exact and_congr_left fun _ => forall₂_congr fun d _ => d.ofJson?_toJson_iff

/-- The names of the places that a summary holds: in its outcomes and in its patch. -/
def Summary.placeNames (s : Summary) : List String :=
  s.results.flatMap Outcome.placeNames ++ s.patch.placeNames

/-- A path that has a JSON form is read back from it. -/
theorem Path.ofJson?_of_toJson? {p : Path} {value : Json} (h : p.toJson? = some value) :
    ofJson? value = some p := by
  obtain ⟨text, ht, rfl⟩ := Option.map_eq_some_iff.mp h
  rw [text?_eq_some_iff.mp ht]
  rfl

/-- **A summary is read back from a JSON form of it exactly when the names of its places are
tags.** -/
theorem Summary.ofJson?_of_toJson?_iff {s : Summary} {value : Json} (h : s.toJson? = some value) :
    ofJson? value = some s ↔ ∀ name ∈ s.placeNames, IsTag name := by
  obtain ⟨path, hpath, rfl⟩ := Option.map_eq_some_iff.mp h
  have hparts : ofJson? (s.toJsonAt path) = (Path.ofJson? path).bind fun p =>
      ((Json.ofList Outcome.toJson s.results).listOf? Outcome.ofJson?).bind fun results =>
        (Patch.ofJson? s.patch.toJson).bind fun patch =>
          some ⟨p, s.ecosystem, s.root, results, patch, s.modified⟩ := rfl
  have hinj : Function.Injective2 fun results patch =>
      Summary.mk s.path s.ecosystem s.root results patch s.modified := by
    intro rs rs' p p' h
    exact ⟨congrArg Summary.results h, congrArg Summary.patch h⟩
  rw [hparts, Path.ofJson?_of_toJson? hpath, Option.bind_some]
  refine (bind_bind_some_eq_iff hinj).trans ?_
  rw [Json.listOf?_ofList_iff, Patch.ofJson?_toJson_iff, placeNames, List.forall_mem_append,
    List.forall_mem_flatMap]
  exact and_congr_left fun _ => forall₂_congr fun outcome _ => outcome.ofJson?_toJson_iff

/-! ## Values as texts -/

/-- A list is written without numbers if its members are. -/
theorem Json.isProper_ofList {α : Type} {encode : α → Json} {xs : List α}
    (h : ∀ x ∈ xs, (encode x).IsProper) : (ofList encode xs).IsProper :=
  .array (List.forall_mem_map.mpr h)

theorem Package.isProper_toJson (p : Package) : p.toJson.IsProper := by
  refine .object ?_
  simp [Ecosystem.toJson, Json.IsProper.string]

theorem Requirement.isProper_toJson (r : Requirement) : r.toJson.IsProper := by
  refine .object (List.forall_mem_append.mpr ⟨?_, ?_⟩)
  · simp [Package.isProper_toJson, Origin.toJson, Json.IsProper.string]
  · rw [tagFields]
    split
    · exact nofun
    · simp [Json.isProper_ofList, Json.IsProper.string]

theorem Route.isProper_toJson (via : Route) : via.toJson.IsProper := by
  cases via <;> exact .object (by simp [Scope.toJson, Json.IsProper.string])

theorem SkipReason.isProper_toJson (reason : SkipReason) : reason.toJson.IsProper := by
  cases reason with
  | alreadyLatest | excluded | nonProduction | noVersionsAvailable | cancelled => exact .string _
  | fetchFailed text | unresolvedProperty text | invalidSpecifier text =>
    exact .object (by simp [Json.IsProper.string])

theorem Outcome.isProper_toJson (outcome : Outcome) : outcome.toJson.IsProper := by
  cases outcome with
  | update r version via =>
    refine .object ?_
    simp [r.isProper_toJson, via.isProper_toJson, Json.IsProper.string]
  | skip r reason =>
    refine .object ?_
    simp [r.isProper_toJson, reason.isProper_toJson, Json.IsProper.string]

theorem DependencyPatch.isProper_toJson (d : DependencyPatch) : d.toJson.IsProper := by
  refine .object ?_
  simp [Package.isProper_toJson, Origin.toJson, Json.IsProper.string]

theorem PropertyPatches.isProper_toJson (properties : PropertyPatches) :
    (toJson properties).IsProper := by
  refine .object (List.forall_mem_map.mpr fun scope _ => ?_)
  exact .object (List.forall_mem_map.mpr fun value _ => .string value.2)

theorem Patch.isProper_toJson (p : Patch) : p.toJson.IsProper := by
  refine .object ?_
  simp [Json.isProper_ofList, DependencyPatch.isProper_toJson, PropertyPatches.isProper_toJson]

theorem Summary.isProper_of_toJson? {s : Summary} {value : Json} (h : s.toJson? = some value) :
    value.IsProper := by
  obtain ⟨path, hpath, rfl⟩ := Option.map_eq_some_iff.mp h
  obtain ⟨text, -, rfl⟩ := Option.map_eq_some_iff.mp hpath
  refine .object ?_
  simp [Json.isProper_ofList, Outcome.isProper_toJson, Patch.isProper_toJson, Ecosystem.toJson,
    Json.IsProper.string, Json.IsProper.bool]

/-- A summary has a JSON form exactly when its path is a text. -/
theorem Summary.isSome_toJson?_iff (s : Summary) : s.toJson?.isSome = true ↔ s.path.IsText := by
  rw [toJson?, Path.toJson?, Option.isSome_map, Option.isSome_map, Path.isSome_text?_iff]

/-- A reader that reads the JSON form of a summary as `ofJson?` does gives it back exactly when its
path is a text and the names of its places are tags. -/
theorem Summary.bind_toJson?_iff {s : Summary} {reread : Json → Option Summary}
    (h : ∀ value, s.toJson? = some value → reread value = ofJson? value) :
    s.toJson?.bind reread = some s ↔ s.path.IsText ∧ ∀ name ∈ s.placeNames, IsTag name := by
  rw [← s.isSome_toJson?_iff, Option.isSome_iff_exists, Option.bind_eq_some_iff]
  constructor
  · rintro ⟨value, hv, hread⟩
    rw [h value hv, ofJson?_of_toJson?_iff hv] at hread
    exact ⟨⟨value, hv⟩, hread⟩
  · rintro ⟨⟨value, hv⟩, htags⟩
    exact ⟨value, hv, (h value hv).trans ((ofJson?_of_toJson?_iff hv).mpr htags)⟩

/-- **A summary is read back from its JSON form, and from the text of it, on one line or over lines,
exactly when its path is a text and the names of its places are tags**, as those of all places are
that can be read. It has a JSON form exactly when its path is a text. -/
theorem Summary.read_back_iff (s : Summary) :
    (s.toJson?.isSome = true ↔ s.path.IsText) ∧
      (s.toJson?.bind ofJson? = some s ↔
        s.path.IsText ∧ ∀ name ∈ s.placeNames, IsTag name) ∧
      (s.toJson?.bind (fun value => (Json.ofText? value.compact).bind ofJson?) = some s ↔
        s.path.IsText ∧ ∀ name ∈ s.placeNames, IsTag name) ∧
      (s.toJson?.bind (fun value => (Json.ofText? value.pretty).bind ofJson?) = some s ↔
        s.path.IsText ∧ ∀ name ∈ s.placeNames, IsTag name) := by
  refine ⟨s.isSome_toJson?_iff, bind_toJson?_iff fun value hv => rfl,
    bind_toJson?_iff fun value hv => ?_, bind_toJson?_iff fun value hv => ?_⟩
  · rw [Json.ofText?_compact (isProper_of_toJson? hv), Option.bind_some]
  · rw [Json.ofText?_pretty (isProper_of_toJson? hv), Option.bind_some]

end MavenUpgrade
