/-
# `Session.Cache` — scans that need not be repeated

A cache keeps the listings of scanned buffers, as bytes, under the digest of
their content.  So a buffer is found again under another name or number, and
its findings are bound to the buffer that is asked for.
-/
import LineLexer.Listing.Codec

namespace LineLexer.Session

/-- Listings by digest, and how often one was found or missed. -/
structure Cache where
  entries : List (Bytes × Bytes) := []
  hits : Nat := 0
  misses : Nat := 0
deriving DecidableEq, Repr

/-- Why a listing that was found cannot be used. -/
inductive CacheError
  | decode (e : Listing.DecodeError)
  | badKind (e : Listing.BadKind)
deriving DecidableEq, Repr

def CacheError.message : CacheError → Bytes
  | decode e => e.message
  | badKind e => e.message

namespace Cache

/-- The number of listings. -/
def size (c : Cache) : Nat := c.entries.length

/-- Keeps the scan of a buffer, in place of an earlier one. -/
def put (c : Cache) (f : File) (ts : List Token) (ds : List Diagnostic) : Cache :=
  { c with
    entries := (f.hash, (Listing.ofScan f ts ds).encode)
      :: c.entries.filter fun (hash, _) => hash != f.hash }

/-- The tokens and findings in the bytes of a listing. -/
def open? (f : File) (data : Bytes) : Except CacheError (List Token × List Diagnostic) :=
  match Listing.decode data with
  | .error e => .error (.decode e)
  | .ok l =>
      match l.tokenList with
      | .error e => .error (.badKind e)
      | .ok ts => .ok (ts, l.diagnosticList f.id)

/-- The scan that is kept for the content of a buffer, if there is one. -/
def get (c : Cache) (f : File) :
    Cache × Except CacheError (Option (List Token × List Diagnostic)) :=
  match c.entries.lookup f.hash with
  | none => ({ c with misses := c.misses + 1 }, .ok none)
  | some data =>
      match open? f data with
      | .error e => (c, .error e)
      | .ok found => ({ c with hits := c.hits + 1 }, .ok (some found))

end Cache

end LineLexer.Session
