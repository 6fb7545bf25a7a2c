import UrlFilter.CommandLine.Run
import UrlFilter.Proofs.Query.Tree
import UrlFilter.Proofs.Query.Verdict
import UrlFilter.Proofs.Text.Percent

/-! Percent-encoded queries. Escaping characters of a query changes nothing about how it is read:
`percent_encoding_is_transparent`. -/
namespace UrlFilter

namespace CommandLine

end CommandLine
end UrlFilter
