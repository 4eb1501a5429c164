/-
# EdgeResolution.Stored -- the serialised form of each type

Written, every field of a record is there, an absent option as null.  Read back, a
record may leave out the fields that have a default.
-/
import EdgeResolution.Datum
import EdgeResolution.Selector
import EdgeResolution.Settings

namespace EdgeResolution

set_option autoImplicit false

open Stored (write read? required optional)

/-! ## Versions and selectors -/

instance : Stored Version.Constraint where
  write c := .record [("require", write c.require), ("prefer", write c.prefer),
    ("strictly", write c.strictly), ("reject", write c.reject), ("branch", write c.branch)]
  read? surplus d := do
    match ← d.slots? surplus ["require", "prefer", "strictly", "reject", "branch"] with
    | [require, prefer, strictly, reject, branch] =>
        return ⟨← optional surplus none require, ← optional surplus none prefer,
          ← optional surplus none strictly, ← optional surplus [] reject,
          ← optional surplus none branch⟩
    | _ => none

instance : Stored Selector.Module where
  write s := .record [("group", write s.group), ("module", write s.module),
    ("version", write s.version)]
  read? surplus d := do
    match ← d.slots? surplus ["group", "module", "version"] with
    | [group, module, version] =>
        return ⟨← required surplus group, ← required surplus module,
          ← optional surplus .free version⟩
    | _ => none

instance : Stored ProjectPath where
  write p := .record [("build_path", write p.build), ("project_path", write p.project)]
  read? surplus d := do
    match ← d.slots? surplus ["build_path", "project_path"] with
    | [build, project] => return ⟨← required surplus build, ← required surplus project⟩
    | _ => none

instance : Stored Selector.Library where
  write s := .record [("project_path", write s.project), ("library_name", write s.library),
    ("variant", write s.variant)]
  read? surplus d := do
    match ← d.slots? surplus ["project_path", "library_name", "variant"] with
    | [project, library, variant] =>
        return ⟨← required surplus project, ← required surplus library,
          ← optional surplus none variant⟩
    | _ => none

/-! ## Artifacts and exclusions -/

instance : Stored Artifact where
  write a := .record [("name", write a.name), ("type", write a.kind),
    ("extension", write a.extension), ("classifier", write a.classifier)]
  read? surplus d := do
    match ← d.slots? surplus ["name", "type", "extension", "classifier"] with
    | [name, kind, extension, classifier] =>
        return ⟨← required surplus name, ← required surplus kind,
          ← optional surplus none extension, ← optional surplus none classifier⟩
    | _ => none

instance : Stored Exclusion where
  write e := .record [("group", write e.group), ("module", write e.module),
    ("artifact", write e.artifact), ("configurations", write e.configurations)]
  read? surplus d := do
    match ← d.slots? surplus ["group", "module", "artifact", "configurations"] with
    | [group, module, artifact, configurations] =>
        return ⟨← optional surplus none group, ← optional surplus none module,
          ← optional surplus none artifact, ← optional surplus [] configurations⟩
    | _ => none

/-! ## Settings -/

instance : Stored AttributeRule where
  write r := .record [("compatible", write r.compatible), ("prefer", write r.prefer)]
  read? surplus d := do
    match ← d.slots? surplus ["compatible", "prefer"] with
    | [compatible, prefer] =>
        return ⟨← optional surplus [] compatible, ← optional surplus [] prefer⟩
    | _ => none

instance : Stored Settings where
  write s := .record [("attributes", write s.attributes), ("schema", write s.schema)]
  read? surplus d := do
    match ← d.slots? surplus ["attributes", "schema"] with
    | [attributes, schema] =>
        return ⟨← optional surplus NameMap.empty attributes,
          ← optional surplus NameMap.empty schema⟩
    | _ => none

end EdgeResolution
