import ObjCSword.Foundation.NSString

/-!
# URLs

The parts of an `NSURL` that the link decoder asks for. The path is kept as it is written in the
URL; `path` answers with its escapes decoded, while `query` answers with the query as written.
-/

namespace ObjCSword

/-- A parsed URL. -/
structure NSURL where
  scheme : String
  host : Option String
  /-- The path as written, its escapes included. -/
  rawPath : String
  /-- The query as written. -/
  query : Option String
deriving DecidableEq, Repr

namespace NSURL

/-- `path` decodes the escapes. -/
def path (aURL : NSURL) : Option String := NSString.stringByReplacingPercentEscapes aURL.rawPath

end NSURL

end ObjCSword
