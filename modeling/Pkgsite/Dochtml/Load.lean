import Mathlib.Data.List.Basic

/-!
# Loading the templates once

`LoadTemplates` parses the body, outline and side-navigation templates inside `loadOnce.Do`, so
only its first call parses. `sync.Once` marks that call done even when `template.Must` panics on
a parse error, after the templates before the failing one are set. Every later call, whatever
file system it is given, changes nothing and does not panic.

* `TemplateVars` (the package variables), `loadBody`, `loadTemplates`, `templates`, `runLoad`,
  `runLoadPanics`;
* `loadTemplates_of_done`, `runLoadPanics_of_done`: a call after the first is a no-op and does
  not panic;
* `runLoad_cons`: over any run of calls, the state is the one the first call left.
-/

namespace Pkgsite.Dochtml

/-- `loadOnce` and the three template variables of the package. -/
structure TemplateVars (T : Type) where
  done : Bool
  bodyTemplate : Option T
  outlineTemplate : Option T
  sidenavTemplate : Option T

variable {FS T E : Type}

/-- Before any call: `loadOnce` unused and the three variables `nil`. -/
def TemplateVars.init : TemplateVars T := ⟨false, none, none, none⟩

/-- `path.Join(dir, name)` of two clean relative names. -/
def pathJoin (dir name : String) : String := dir ++ "/" ++ name

section Parse

-- `parseFS fsys name patterns` is `template.New(name).Funcs(tmpl).ParseFS(fsys, patterns...)`.
variable (parseFS : FS → String → List String → Except E T)

/-- The function run by `loadOnce.Do`: the three `template.Must(...)` assignments in order; the
first parse error panics, with the assignments before it done. -/
def loadBody (fsys : FS) (v : TemplateVars T) : TemplateVars T × Option E :=
  let dir := "doc"
  match parseFS fsys "body.tmpl"
      [pathJoin dir "body.tmpl", pathJoin dir "declaration.tmpl", pathJoin dir "example.tmpl"] with
  | .error e => (v, some e)
  | .ok body =>
    let v := { v with bodyTemplate := some body }
    match parseFS fsys "outline.tmpl" [pathJoin dir "outline.tmpl"] with
    | .error e => (v, some e)
    | .ok outline =>
      let v := { v with outlineTemplate := some outline }
      match parseFS fsys "sidenav-mobile.tmpl" [pathJoin dir "sidenav-mobile.tmpl"] with
      | .error e => (v, some e)
      | .ok sidenav => ({ v with sidenavTemplate := some sidenav }, none)

/-- `LoadTemplates(fsys)`: the state after the call, and the panic it raises, if any. The body
runs while `loadOnce` is unused; `done` is stored by a deferred call, so also after a panic. -/
def loadTemplates (fsys : FS) (v : TemplateVars T) : TemplateVars T × Option E :=
  if v.done then (v, none)
  else
    let r := loadBody parseFS fsys v
    ({ r.1 with done := true }, r.2)

/-- A run of `LoadTemplates` calls, one file system each, in order. -/
def runLoad : List FS → TemplateVars T → TemplateVars T
  | [], v => v
  | fsys :: calls, v => runLoad calls (loadTemplates parseFS fsys v).1

/-- What each call of such a run panics with, in order. -/
def runLoadPanics : List FS → TemplateVars T → List (Option E)
  | [], _ => []
  | fsys :: calls, v =>
    (loadTemplates parseFS fsys v).2 :: runLoadPanics calls (loadTemplates parseFS fsys v).1

end Parse

/-- `Templates()`. -/
def templates (v : TemplateVars T) : List (Option T) :=
  [v.bodyTemplate, v.outlineTemplate, v.sidenavTemplate]

section Run

variable {parseFS : FS → String → List String → Except E T}

@[simp] theorem loadBody_done (fsys : FS) (v : TemplateVars T) :
    (loadBody parseFS fsys v).1.done = v.done := by
  unfold loadBody
  dsimp only
  repeat' split
  all_goals rfl

@[simp] theorem loadTemplates_done (fsys : FS) (v : TemplateVars T) :
    (loadTemplates parseFS fsys v).1.done = true := by
  unfold loadTemplates
  split <;> simp_all

theorem loadTemplates_of_done {v : TemplateVars T} (h : v.done = true) (fsys : FS) :
    loadTemplates parseFS fsys v = (v, none) := by
  simp [loadTemplates, h]

theorem runLoad_of_done {v : TemplateVars T} (h : v.done = true) :
    ∀ calls : List FS, runLoad parseFS calls v = v
  | [] => rfl
  | fsys :: calls => by rw [runLoad, loadTemplates_of_done h, runLoad_of_done h calls]

theorem runLoadPanics_of_done {v : TemplateVars T} (h : v.done = true) :
    ∀ calls : List FS, runLoadPanics parseFS calls v = calls.map fun _ => none
  | [] => rfl
  | fsys :: calls => by
    rw [runLoadPanics, loadTemplates_of_done h, runLoadPanics_of_done h calls, List.map_cons]

/-- **The first call fixes the state**: the calls after it change nothing. -/
theorem runLoad_cons (fsys : FS) (calls : List FS) (v : TemplateVars T) :
    runLoad parseFS (fsys :: calls) v = (loadTemplates parseFS fsys v).1 :=
  runLoad_of_done (loadTemplates_done fsys v) calls

theorem loadTemplates_init (fsys : FS) :
    loadTemplates parseFS fsys (.init : TemplateVars T) =
      ({ (loadBody parseFS fsys .init).1 with done := true }, (loadBody parseFS fsys .init).2) :=
  rfl

end Run

end Pkgsite.Dochtml
