import UrlFilter.Main
import UrlFilter.Proofs.CommandLine.DefaultSort
import UrlFilter.Proofs.CommandLine.Encoding
import UrlFilter.Proofs.Json.Normalisation
import UrlFilter.Proofs.Query.Coverage
import UrlFilter.Proofs.Query.Depth
import UrlFilter.Proofs.Query.Redundant
import UrlFilter.Proofs.Query.RoundTrip
import UrlFilter.Proofs.Query.Rounds
import UrlFilter.Proofs.Schema.Lookup
import UrlFilter.Proofs.Sql.Agreement
import UrlFilter.Proofs.Sql.Injection
import UrlFilter.Proofs.Sql.Listing
import UrlFilter.Proofs.Sql.Ordering
import UrlFilter.Proofs.Sql.Precedence
import UrlFilter.Proofs.Sql.Sequence
import UrlFilter.Proofs.Sql.Verdict
import UrlFilter.Proofs.Token.Leftmost
