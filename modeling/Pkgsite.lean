import Pkgsite.Go.Strings
import Pkgsite.Go.Strconv
import Pkgsite.Go.Regexp
import Pkgsite.Go.Semver
import Pkgsite.Dochtml.Pattern
import Pkgsite.Dochtml.Template
import Pkgsite.Dochtml.Load
import Pkgsite.Dochtml.Once
import Pkgsite.Postgres.DistinctOn
import Pkgsite.Postgres.SymbolSearch
import Pkgsite.Postgres.SymbolQuery
import Pkgsite.Postgres.SymbolUpsert
import Pkgsite.Frontend.Details
