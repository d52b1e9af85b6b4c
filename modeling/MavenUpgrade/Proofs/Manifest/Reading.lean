import Mathlib
import MavenUpgrade.Manifest.Basic
import MavenUpgrade.Proofs.Collection.Sort

/-!
# Reading a document

The order of the dependencies is that of an insertion, one declaration after the other, which lets
the manifest of a given text be computed. What a computation finds of it holds of the manifest.
-/

namespace MavenUpgrade

/-- The dependencies of a document, put in order one by one. -/
theorem mergeSort_position (ds : List DependencyDeclaration) :
    ds.mergeSort (fun d e => d.position ≤ e.position) =
      ds.insertionSort fun d e => d.position ≤ e.position := by
  have h := mergeSort_eq_insertionSort
    (fun d e : DependencyDeclaration => decide (d.position ≤ e.position))
    (by simp only [decide_eq_true_eq]; omega)
    (by simp only [Bool.or_eq_true, decide_eq_true_eq]; omega) ds
  simpa only [decide_eq_true_eq] using h

namespace Pom

open Xml (Node)

/-- The dependencies of a project in the order of their sections. -/
def declarations (project : Node) : List DependencyDeclaration :=
  (parentDependency? project).toList ++ sectionDependencies projectOrigin project ++
    (profilesIn project).flatMap fun (id, node) => sectionDependencies (.profile id) node

/-- The properties of a project and of its profiles. -/
def allProperties (project : Node) : List PropertyDeclaration :=
  propertiesIn .root project ++
    (profilesIn project).flatMap fun (id, node) => propertiesIn (.profile id) node

/-- What a project with the given coordinates declares. -/
def declaring (project : Node) (root : Coordinates) : Pom where
  root := root
  parent? := parentOf? project
  dependencies := (declarations project).insertionSort fun d e => d.position ≤ e.position
  properties := allProperties project

/-- A project declares something exactly when it has coordinates. -/
theorem ofProject_eq (project : Node) :
    ofProject project = (rootOf project).map (declaring project) := by
  rw [ofProject]
  cases rootOf project with
  | error e => rfl
  | ok root =>
    show Except.ok _ = Except.ok (declaring project root)
    rw [declaring, ← mergeSort_position]
    rfl

/-- What the text of a project declares. -/
theorem read_of_root {text : String} {cs : List Char} {project : Node} (ht : text.toList = cs)
    (hd : Xml.readDocument? cs = some project) (hn : project.name? = some "project") :
    read text = (rootOf project).map (declaring project) := by
  unfold read
  rw [ht, hd]
  simp only [hn, ofProject_eq]

/-- A project that passes a check is read where one is computed that passes it. -/
theorem exists_of_any (pieces : List String) (check : Pom → Bool)
    (h : (Xml.readDocument? (pieces.flatMap String.toList)).any (fun project =>
      project.name? = some "project" && (rootOf project).toOption.any fun root =>
        check (declaring project root)) = true) :
    ∃ pom, read (String.join pieces) = .ok pom ∧ check pom = true := by
  obtain ⟨project, hd, h⟩ := (Option.any_eq_true _ _).mp h
  obtain ⟨hn, h⟩ := (Bool.and_eq_true _ _).mp h
  obtain ⟨root, hr, h⟩ := (Option.any_eq_true _ _).mp h
  refine ⟨declaring project root, ?_, h⟩
  rw [read_of_root String.toList_join hd (of_decide_eq_true hn)]
  cases hroot : rootOf project with
  | error e =>
    rw [hroot] at hr
    cases hr
  | ok c =>
    rw [hroot] at hr
    obtain rfl := Option.some.inj hr
    rfl

end Pom

namespace Manifest

/-- A manifest that is read is that of a document. -/
theorem exists_of_read {text : String} {m : Manifest} (hm : read text = .ok m) :
    ∃ pom, Pom.read text = .ok pom ∧ ofPom pom = m := by
  rw [read] at hm
  cases hp : Pom.read text with
  | error e =>
    rw [hp] at hm
    cases hm
  | ok pom =>
    rw [hp] at hm
    exact ⟨pom, rfl, Except.ok.inj hm⟩

/-- A requirement has the value of its version text as seen from its place. -/
theorem resolved_of_mem_ofPom {pom : Pom} {r : Requirement} (hr : r ∈ (ofPom pom).requirements) :
    r.resolved = (ofPom pom).resolve r.origin.scope r.declared := by
  obtain ⟨d, -, rfl⟩ := List.mem_map.mp hr
  rfl

/-- A requirement that is read has the value of its version text as seen from its place. -/
theorem resolved_of_mem {text : String} {m : Manifest} (hm : read text = .ok m) {r : Requirement}
    (hr : r ∈ m.requirements) : r.resolved = m.resolve r.origin.scope r.declared := by
  obtain ⟨pom, -, rfl⟩ := exists_of_read hm
  exact resolved_of_mem_ofPom hr

/-- A manifest that passes a check is read where one is computed that passes it. -/
theorem exists_of_any (pieces : List String) (check : Manifest → Bool)
    (h : (Xml.readDocument? (pieces.flatMap String.toList)).any (fun project =>
      project.name? = some "project" && (Pom.rootOf project).toOption.any fun root =>
        check (ofPom (Pom.declaring project root))) = true) :
    ∃ m, read (String.join pieces) = .ok m ∧ check m = true := by
  obtain ⟨pom, hp, hc⟩ := Pom.exists_of_any pieces (fun pom => check (ofPom pom)) h
  refine ⟨ofPom pom, ?_, hc⟩
  rw [read, hp]
  rfl

end Manifest

/-- A document in pieces, with the given properties and one dependency of the given version. -/
def oneDependency (properties version : String) : List String :=
  ["<project><groupId>g</groupId>", "<artifactId>a</artifactId>", "<version>1</version>",
    "<properties>", properties, "</properties>", "<dependencies><dependency>",
    "<groupId>g</groupId>", "<artifactId>b</artifactId>", "<version>", version, "</version>",
    "</dependency></dependencies></project>"]

/-- A document in pieces: the first of its two dependencies takes its version from a property; the
project and the second dependency have the given ones. -/
def twoDependencies (version second : String) : List String :=
  ["<project><groupId>g</groupId>", "<artifactId>a</artifactId>", "<version>", version,
    "</version>", "<properties><v>1.0</v></properties>", "<dependencies><dependency>",
    "<groupId>g</groupId>", "<artifactId>b</artifactId>", "<version>$\x7bv\x7d</version>",
    "</dependency><dependency>", "<groupId>g</groupId>", "<artifactId>c</artifactId>",
    "<version>", second, "</version>", "</dependency></dependencies></project>"]

end MavenUpgrade
