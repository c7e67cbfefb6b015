import Stencil.Text.Basic

/-!
# URLs

Which URLs may stand in a rendered fragment. A URL is allowed if it starts with one of the
listed prefixes, letter for letter; any other is replaced.
-/

namespace Stencil

/-- The URLs that are allowed, and what stands in the place of the others. -/
structure UrlPolicy where
  protocols : List Text :=
    ["bitcoin:", "ftp://", "ftps://", "geo:", "git://", "gopher://", "http://", "https://",
      "irc://", "ircs://", "magnet:", "mailto:", "matrix:", "mms://", "news:", "nntp://",
      "redis://", "sftp://", "sip:", "sips:", "sms:", "ssh://", "svn://", "tel:", "telnet://",
      "urn:", "worldwind://", "xmpp:", "//"].map String.toList
  relativePrefixes : List Text := ["/", "./"].map String.toList
  blockedReplacement : Text := "about:blank#NotAllowedURLProtocol".toList
  deriving DecidableEq, Repr, Inhabited

namespace UrlPolicy

/-- Whether a URL is allowed. -/
def allows (p : UrlPolicy) (url : Text) : Bool :=
  (p.protocols ++ p.relativePrefixes).any fun start => start.isPrefixOf url

/-- The URL if it is allowed, and the replacement otherwise. -/
def filter (p : UrlPolicy) (url : Text) : Text :=
  if p.allows url then url else p.blockedReplacement

end UrlPolicy

end Stencil
