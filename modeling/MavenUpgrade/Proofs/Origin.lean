import Mathlib
import MavenUpgrade.Proofs.Manifest.Applying
import MavenUpgrade.Proofs.Suggest.Written
import MavenUpgrade.Proofs.Text.Splitting

/-!
# Written places

A place is read back from its written form exactly when its names are not empty and hold no at
sign (`Origin.read?_text_iff`, `Scope.read?_text_iff`), and nothing else is read
(`places_read_exactly`). A document gives no empty names, but it may well give names with an at
sign: such a name can imitate another place (`Manifest.written_places_imitate`).
-/

namespace MavenUpgrade

/-! ## Names -/

/-- The names that a section of a profile is made of. -/
def ProfileSection.names : ProfileSection → List String
  | plugin p => [p]
  | _ => []

/-- The names that an origin is made of: the id of a profile, the coordinates of a plugin. -/
def Origin.names : Origin → List String
  | plugin p => [p]
  | profile id part => id :: part.names
  | _ => []

/-- The name that a scope is made of. -/
def Scope.names : Scope → List String
  | root => []
  | profile id => [id]

/-- A name that cannot be mistaken for several tags. -/
def IsTag (name : String) : Prop :=
  name ≠ "" ∧ '@' ∉ name.toList

instance (name : String) : Decidable (IsTag name) :=
  inferInstanceAs (Decidable (_ ∧ _))

/-! ## Tags -/

/-- No tag holds an at sign. -/
theorem not_mem_of_mem_tags {text tag : String} (h : tag ∈ tags text) : '@' ∉ tag.toList := by
  obtain ⟨piece, hp, rfl⟩ := List.mem_map.mp h
  rw [String.toList_ofList]
  exact Text.not_mem_of_mem_splitWhere hp

/-- A name without an at sign is a single tag. -/
theorem tags_of_not_mem {name : String} (h : '@' ∉ name.toList) : tags name = [name] := by
  rw [tags, Text.splitWhere_of_not_mem h, List.map_singleton, String.ofList_toList]

/-- A text that is joined at an at sign has the tags of both sides. -/
theorem tags_join (before after : String) :
    tags (before ++ "@" ++ after) = tags before ++ tags after := by
  have hjoin : (before ++ "@" ++ after).toList = before.toList ++ '@' :: after.toList := by
    simp
  rw [tags, hjoin, Text.splitWhere_append_cons (by decide), List.map_append]
  rfl

/-- The tags of a text joined again give the text back. -/
theorem intercalate_tags (text : String) : "@".intercalate (tags text) = text := by
  have hpieces : (tags text).map String.toList = Text.splitWhere (· == '@') text.toList := by
    rw [tags, List.map_map]
    exact List.map_id'' (fun _ => String.toList_ofList) _
  rw [← String.toList_inj, String.toList_intercalate, hpieces]
  exact Text.intercalate_splitWhere '@' text.toList

/-- Names without at signs are the tags of the text that they are joined to. -/
theorem tags_intercalate {parts : List String} (hne : parts ≠ [])
    (h : ∀ part ∈ parts, '@' ∉ part.toList) : tags ("@".intercalate parts) = parts := by
  induction parts with
  | nil => exact absurd rfl hne
  | cons first rest ih =>
    have hfirst : tags first = [first] := tags_of_not_mem (h first List.mem_cons_self)
    cases rest with
    | nil => rw [String.intercalate_singleton, hfirst]
    | cons second rest =>
      have hrest := ih (List.cons_ne_nil second rest) fun part hp =>
        h part (List.mem_cons_of_mem first hp)
      rw [String.intercalate_cons_cons, tags_join, hfirst, hrest]
      rfl

/-- **A text has the given tags exactly when it joins them**, and none of them holds an at sign. -/
theorem tags_eq_iff {parts : List String} (hne : parts ≠ []) (text : String) :
    tags text = parts ↔ "@".intercalate parts = text ∧ ∀ part ∈ parts, '@' ∉ part.toList := by
  constructor
  · rintro rfl
    exact ⟨intercalate_tags text, fun _ => not_mem_of_mem_tags⟩
  · rintro ⟨rfl, h⟩
    exact tags_intercalate hne h

/-! ## Reading places -/

namespace Scope

/-- The tags that the written form of a scope joins. -/
def parts : Scope → List String
  | root => [""]
  | profile id => ["profile", id]

theorem intercalate_parts (scope : Scope) : "@".intercalate scope.parts = scope.text := by
  cases scope <;> rfl

/-- A scope is read from its own tags only. -/
theorem read?_eq_some_iff_tags (text : String) (scope : Scope) :
    read? text = some scope ↔ tags text = scope.parts ∧ ∀ name ∈ scope.names, name ≠ "" := by
  constructor
  · intro h
    rw [read?] at h
    split at h
    · next ht =>
      obtain rfl := Option.some.inj h
      exact ⟨ht, fun _ hname => absurd hname List.not_mem_nil⟩
    · next id ht =>
      obtain ⟨hid, h⟩ := Option.ite_none_left_eq_some.mp h
      obtain rfl := Option.some.inj h
      exact ⟨ht, List.forall_mem_singleton.mpr (String.isEmpty_iff.not.mp hid)⟩
    · cases h
  · rintro ⟨ht, hne⟩
    cases scope with
    | root =>
      rw [read?, ht]
      rfl
    | profile id =>
      rw [read?, ht]
      exact if_neg (String.isEmpty_iff.not.mpr (hne id List.mem_cons_self))

/-- No tag of a scope holds an at sign if its name does not. -/
theorem forall_mem_parts_iff (scope : Scope) :
    (∀ part ∈ scope.parts, '@' ∉ part.toList) ↔ ∀ name ∈ scope.names, '@' ∉ name.toList := by
  cases scope <;> simp [parts, names]

/-- **A scope is read from its written form only, if its name is a tag.** -/
theorem read?_eq_some_iff (text : String) (scope : Scope) :
    read? text = some scope ↔ scope.text = text ∧ ∀ name ∈ scope.names, IsTag name := by
  have hne : scope.parts ≠ [] := by cases scope <;> exact List.cons_ne_nil _ _
  rw [read?_eq_some_iff_tags, tags_eq_iff hne, intercalate_parts, forall_mem_parts_iff, and_assoc,
    ← forall₂_and]
  exact and_congr_right fun _ => forall₂_congr fun _ _ => and_comm

/-- The name of a scope that is read is a tag. -/
theorem isTag_of_read? {text : String} {scope : Scope} (h : read? text = some scope) :
    ∀ name ∈ scope.names, IsTag name :=
  ((read?_eq_some_iff text scope).mp h).2

/-- **A scope is read back exactly when its name is a tag.** -/
theorem read?_text_iff (scope : Scope) :
    read? scope.text = some scope ↔ ∀ name ∈ scope.names, IsTag name :=
  (read?_eq_some_iff scope.text scope).trans (and_iff_right rfl)

end Scope

namespace Origin

/-- The tags that the written form of an origin joins. -/
def parts : Origin → List String
  | direct => [""]
  | management => ["management"]
  | parent => ["parent"]
  | plugin p => ["plugin", p]
  | profile id .direct => ["profile", id]
  | profile id .management => ["profile", id, "management"]
  | profile id (.plugin p) => ["profile", id, "plugin", p]

theorem intercalate_parts (o : Origin) : "@".intercalate o.parts = o.text := by
  cases o with
  | profile id part =>
    cases part with
    | direct => rfl
    | management =>
      show "profile@" ++ id ++ "@" ++ "management" = "profile@" ++ id ++ ("@" ++ "management")
      simp only [String.append_assoc]
    | plugin p =>
      show "profile@" ++ id ++ "@" ++ "plugin" ++ "@" ++ p =
        "profile@" ++ id ++ ("@" ++ "plugin" ++ "@") ++ p
      simp only [String.append_assoc]
  | _ => rfl

/-- An origin is read from its own tags only. -/
theorem read?_eq_some_iff_tags (text : String) (o : Origin) :
    read? text = some o ↔ tags text = o.parts ∧ ∀ name ∈ o.names, name ≠ "" := by
  constructor
  · intro h
    rw [read?] at h
    split at h
    case h_4 ht | h_5 ht | h_6 ht =>
      obtain ⟨hne, h⟩ := Option.ite_none_left_eq_some.mp h
      obtain rfl := Option.some.inj h
      exact ⟨ht, List.forall_mem_singleton.mpr (String.isEmpty_iff.not.mp hne)⟩
    case h_7 ht =>
      obtain ⟨hne, h⟩ := Option.ite_none_left_eq_some.mp h
      rw [Bool.or_eq_true, not_or] at hne
      obtain rfl := Option.some.inj h
      exact ⟨ht, List.forall_mem_cons.mpr ⟨String.isEmpty_iff.not.mp hne.1,
        List.forall_mem_singleton.mpr (String.isEmpty_iff.not.mp hne.2)⟩⟩
    case h_8 => cases h
    all_goals
      next ht =>
      obtain rfl := Option.some.inj h
      exact ⟨ht, fun _ hname => absurd hname List.not_mem_nil⟩
  · rintro ⟨ht, hne⟩
    cases o with
    | plugin p =>
      rw [read?, ht]
      exact if_neg (String.isEmpty_iff.not.mpr (hne p List.mem_cons_self))
    | profile id part =>
      have hid := String.isEmpty_iff.not.mpr (hne id List.mem_cons_self)
      cases part with
      | plugin p =>
        have hp := String.isEmpty_iff.not.mpr (hne p (.tail _ (.head _)))
        rw [read?, ht]
        exact if_neg fun h => ((Bool.or_eq_true _ _).mp h).elim hid hp
      | _ =>
        rw [read?, ht]
        exact if_neg hid
    | _ =>
      rw [read?, ht]
      rfl

/-- No tag of an origin holds an at sign if none of its names does. -/
theorem forall_mem_parts_iff (o : Origin) :
    (∀ part ∈ o.parts, '@' ∉ part.toList) ↔ ∀ name ∈ o.names, '@' ∉ name.toList := by
  cases o with
  | profile id part => cases part <;> simp [parts, names, ProfileSection.names]
  | _ => simp [parts, names]

/-- **An origin is read from its written form only, if its names are tags.** -/
theorem read?_eq_some_iff (text : String) (o : Origin) :
    read? text = some o ↔ o.text = text ∧ ∀ name ∈ o.names, IsTag name := by
  have hne : o.parts ≠ [] := by
    unfold parts
    split <;> exact List.cons_ne_nil _ _
  rw [read?_eq_some_iff_tags, tags_eq_iff hne, intercalate_parts, forall_mem_parts_iff, and_assoc,
    ← forall₂_and]
  exact and_congr_right fun _ => forall₂_congr fun _ _ => and_comm

/-- **An origin is read back exactly when its names are tags.** -/
theorem read?_text_iff (o : Origin) :
    read? o.text = some o ↔ ∀ name ∈ o.names, IsTag name :=
  (read?_eq_some_iff o.text o).trans (and_iff_right rfl)

end Origin

/-- **Places are read exactly.** A text is read as an origin, or as a scope, exactly when it is the
written form of this origin or scope and all of its names are tags: they are not empty and hold no
at sign. So what is read gives the text back when it is written, and every other text is refused. -/
theorem places_read_exactly (text : String) :
    (∀ o : Origin, Origin.read? text = some o ↔
        o.text = text ∧ ∀ name ∈ o.names, name ≠ "" ∧ '@' ∉ name.toList) ∧
      (∀ scope : Scope, Scope.read? text = some scope ↔
        scope.text = text ∧ ∀ name ∈ scope.names, name ≠ "" ∧ '@' ∉ name.toList) :=
  ⟨Origin.read?_eq_some_iff text, Scope.read?_eq_some_iff text⟩

/-! ## Names in documents -/

namespace Pom

open Xml (Node)

/-- A child that is read says something. -/
theorem ne_empty_of_childText? {node : Node} {name said : String}
    (h : node.childText? name = some said) : said ≠ "" := by
  obtain ⟨-, hsaid⟩ := Option.filter_eq_some_iff.mp h
  rintro rfl
  exact absurd hsaid (by decide)

/-- The name of a build plugin holds a colon. -/
theorem pluginName_ne_empty (plugin : Node) : pluginName plugin ≠ "" := by
  intro h
  have hl := congrArg String.toList h
  rw [pluginName, String.toList_append, String.toList_append] at hl
  have hcolon : ':' ∈ ("" : String).toList := by
    rw [← hl]
    exact List.mem_append_left _ (List.mem_append_right _ (List.mem_singleton_self _))
  cases hcolon

/-- A section that a document has is not without a name. -/
theorem ne_empty_of_mem_names_sectionOf {nodes : List Node} {name : String}
    (h : name ∈ (sectionOf nodes).names) : name ≠ "" := by
  unfold sectionOf at h
  split at h
  case h_2 plugin _ | h_3 plugin _ =>
    obtain rfl := List.mem_singleton.mp h
    exact pluginName_ne_empty plugin
  all_goals cases h

theorem names_projectOrigin (part : ProfileSection) :
    (projectOrigin part).names = part.names := by
  cases part <;> rfl

/-- No name of a declared dependency's origin is empty. -/
theorem ne_empty_of_mem_declarations {project : Node} {d : DependencyDeclaration}
    (h : d ∈ declarations project) : ∀ name ∈ d.origin.names, name ≠ "" := by
  intro name hname
  rw [declarations, List.mem_append, List.mem_append] at h
  rcases h with (h | h) | h
  · obtain ⟨node, -, hd⟩ := Option.bind_eq_some_iff.mp (Option.mem_toList.mp h)
    obtain ⟨parent, -, hd⟩ := Option.bind_eq_some_iff.mp hd
    obtain ⟨version, -, hd⟩ := Option.bind_eq_some_iff.mp hd
    obtain rfl := eq_of_dependencyOf? hd
    cases hname
  · obtain ⟨first, between, -, -, -, -, ho, -⟩ := exists_of_mem_sectionDependencies h
    rw [ho, names_projectOrigin] at hname
    exact ne_empty_of_mem_names_sectionOf hname
  · obtain ⟨⟨id, profile⟩, hp, hd⟩ := List.mem_flatMap.mp h
    obtain ⟨-, -, -, hid⟩ := leads_of_mem_profilesIn hp
    obtain ⟨first, between, -, -, -, -, ho, -⟩ := exists_of_mem_sectionDependencies hd
    rw [ho] at hname
    rcases List.mem_cons.mp hname with rfl | hname
    · exact ne_empty_of_childText? hid
    · exact ne_empty_of_mem_names_sectionOf hname

/-- No name of a declared property's scope is empty. -/
theorem ne_empty_of_mem_allProperties {project : Node} {p : PropertyDeclaration}
    (h : p ∈ allProperties project) : ∀ name ∈ p.scope.names, name ≠ "" := by
  intro name hname
  rw [allProperties, List.mem_append] at h
  rcases h with h | h
  · obtain ⟨-, -, -, -, hs⟩ := propertyBy_of_mem_propertiesIn h
    rw [hs] at hname
    cases hname
  · obtain ⟨⟨id, profile⟩, hp, hd⟩ := List.mem_flatMap.mp h
    obtain ⟨-, -, -, hid⟩ := leads_of_mem_profilesIn hp
    obtain ⟨-, -, -, -, hs⟩ := propertyBy_of_mem_propertiesIn hd
    rw [hs] at hname
    obtain rfl := List.mem_singleton.mp hname
    exact ne_empty_of_childText? hid

end Pom

/-- A package is known by its name. -/
theorem Package.eq_of_name {p q : Package} (h : p.name = q.name) : p = q := by
  obtain ⟨⟨⟩, p⟩ := p
  obtain ⟨⟨⟩, q⟩ := q
  exact congrArg _ h

namespace Manifest

variable {text : String} {m : Manifest}

/-- The origin of a requirement is read back exactly when none of its names holds an at sign. -/
theorem read?_origin_iff (hm : read text = .ok m) {r : Requirement} (hr : r ∈ m.requirements) :
    Origin.read? r.origin.text = some r.origin ↔
      ∀ name ∈ r.origin.names, '@' ∉ name.toList := by
  obtain ⟨pom, hread, rfl⟩ := exists_of_read hm
  obtain ⟨project, root, -, -, -, rfl⟩ := Pom.exists_of_read hread
  obtain ⟨d, hd, rfl⟩ := List.mem_map.mp hr
  have hne := Pom.ne_empty_of_mem_declarations
    (Pom.mem_declaring_dependencies.mp (mem_of_mem_distinctBy hd))
  rw [Origin.read?_text_iff]
  exact ⟨fun h name hn => (h name hn).2, fun h name hn => ⟨hne name hn, h name hn⟩⟩

/-- The scope of a property is read back exactly when its name holds no at sign. -/
theorem read?_scope_iff (hm : read text = .ok m) {scope : Scope} {name : String}
    (hp : (m.properties.get? scope name).isSome = true) :
    Scope.read? scope.text = some scope ↔ ∀ id ∈ scope.names, '@' ∉ id.toList := by
  obtain ⟨pom, hread, rfl⟩ := exists_of_read hm
  obtain ⟨project, root, -, -, -, rfl⟩ := Pom.exists_of_read hread
  have hget : ((environmentOf (Pom.declaring project root)).properties.get? scope name).isSome =
    true := hp
  rw [get?_environmentOf, Option.isSome_map, Option.isSome_iff_exists] at hget
  obtain ⟨p, hp⟩ := hget
  obtain ⟨hmem, hkey⟩ := List.mem_filter.mp (List.mem_of_getLast? hp)
  obtain ⟨rfl, -⟩ := of_decide_eq_true hkey
  have hne := Pom.ne_empty_of_mem_allProperties hmem
  rw [Scope.read?_text_iff]
  exact ⟨fun h id hid => (h id hid).2, fun h id hid => ⟨hne id hid, h id hid⟩⟩

/-- **Written places identify declarations, as far as no name holds an at sign.** An origin and a
scope are read back exactly when none of their names does, and two requirements on one package are
written alike only if some name of their origins does. -/
theorem written_places_identify (hm : read text = .ok m) :
    (∀ r ∈ m.requirements, Origin.read? r.origin.text = some r.origin ↔
      ∀ name ∈ r.origin.names, '@' ∉ name.toList) ∧
    (∀ scope name, (m.properties.get? scope name).isSome = true →
      (Scope.read? scope.text = some scope ↔ ∀ id ∈ scope.names, '@' ∉ id.toList)) ∧
    m.requirements.Pairwise fun r s => r.name = s.name → r.origin.text = s.origin.text →
      ∃ name ∈ r.origin.names ++ s.origin.names, '@' ∈ name.toList := by
  refine ⟨fun r => read?_origin_iff hm, fun scope name => read?_scope_iff hm, ?_⟩
  have hkeys : m.requirements.Pairwise fun r s => r.key ≠ s.key := by
    obtain ⟨pom, -, rfl⟩ := exists_of_read hm
    exact List.pairwise_map.mp (nodup_keys pom)
  refine hkeys.imp_of_mem fun {r s} hr hs hne hname htext => ?_
  by_contra hnone
  push Not at hnone
  -- both origins are read back from the same text
  have hreadr : Origin.read? r.origin.text = some r.origin :=
    (read?_origin_iff hm hr).mpr fun name hn => hnone name (List.mem_append_left _ hn)
  have hreads : Origin.read? s.origin.text = some s.origin :=
    (read?_origin_iff hm hs).mpr fun name hn => hnone name (List.mem_append_right _ hn)
  have horigin : r.origin = s.origin := by
    rw [htext, hreads] at hreadr
    exact (Option.some.inj hreadr).symm
  exact hne (Prod.ext (Package.eq_of_name hname) horigin)

/-- A document in pieces, with two profiles of the given ids: the first one manages the version of a
dependency, the second one declares it. -/
def twoProfiles (first second : String) : List String :=
  ["<project><groupId>g</groupId>", "<artifactId>a</artifactId>", "<version>1</version>",
    "<profiles><profile><id>", first, "</id><dependencyManagement>", "<dependencies><dependency>",
    "<groupId>g</groupId>", "<artifactId>b</artifactId>", "<version>2.0</version>",
    "</dependency></dependencies>", "</dependencyManagement></profile>", "<profile><id>", second,
    "</id><dependencies><dependency>", "<groupId>g</groupId>", "<artifactId>b</artifactId>",
    "<version>1.0</version>", "</dependency></dependencies></profile></profiles></project>"]

/-- The two dependencies of a document whose profiles have plain ids are told apart. -/
theorem written_places_identify_plain : ∃ m, read (String.join (twoProfiles "x" "y")) = .ok m ∧
    (∀ r ∈ m.requirements, Origin.read? r.origin.text = some r.origin) ∧
      (m.requirements.map (·.origin.text)) = ["profile@x@management", "profile@y"] := by
  obtain ⟨m, hm, hc⟩ := exists_of_any (twoProfiles "x" "y") (fun m =>
    m.requirements.map (·.origin) = [.profile "x" .management, .profile "y" .direct])
    (by decide +kernel)
  have horigins : m.requirements.map (·.origin) =
      [.profile "x" .management, .profile "y" .direct] := of_decide_eq_true hc
  obtain ⟨hread, -, -⟩ := written_places_identify hm
  have htag : ∀ o ∈ m.requirements.map (·.origin), ∀ name ∈ o.names, '@' ∉ name.toList := by
    rw [horigins]
    decide
  refine ⟨m, hm, fun r hr => (hread r hr).mpr (htag _ (List.mem_map_of_mem hr)), ?_⟩
  have htexts := congrArg (List.map Origin.text) horigins
  rw [List.map_map] at htexts
  exact htexts

/-- The id of a profile can imitate the section of another one: the two dependencies are written
alike, and the second origin is not read back. -/
theorem written_places_imitate : ∃ m r s,
    read (String.join (twoProfiles "x" "x@management")) = .ok m ∧ m.requirements = [r, s] ∧
      r.name = s.name ∧ r ≠ s ∧ r.origin.text = s.origin.text ∧
        Origin.read? s.origin.text ≠ some s.origin := by
  obtain ⟨m, hm, h⟩ := exists_of_any (twoProfiles "x" "x@management") (fun m =>
    m.requirements[0]?.any fun r => m.requirements[1]?.any fun s =>
      m.requirements = [r, s] ∧ r.name = s.name ∧ r ≠ s ∧ r.origin.text = s.origin.text ∧
        Origin.read? s.origin.text ≠ some s.origin)
    (by decide +kernel)
  obtain ⟨r, -, h⟩ := (Option.any_eq_true _ _).mp h
  obtain ⟨s, -, h⟩ := (Option.any_eq_true _ _).mp h
  exact ⟨m, r, s, hm, of_decide_eq_true h⟩

end Manifest

end MavenUpgrade
