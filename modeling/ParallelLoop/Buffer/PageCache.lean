/-
# The page cache

A page is a piece of memory for the bytes of a buffer entry. The pages of removed
entries are kept for new entries of exactly the same length. They lie in buckets, one
for each length; a bucket holds a bounded number of pages and disappears with its last
one.
-/

import ParallelLoop.Bytes
import ParallelLoop.Error

namespace ParallelLoop

/-- A piece of memory for bytes. -/
inductive Page
  /-- A page of so many zeros. -/
  | blank (length : Nat)
  /-- A page with these bytes. -/
  | written (bytes : Bytes)
  deriving DecidableEq, Repr

namespace Page

/-- Number of bytes of a page. -/
def length : Page → Nat
  | blank length => length
  | written bytes => bytes.length

/-- The bytes of a page. -/
def bytes : Page → Bytes
  | blank length => List.replicate length 0
  | written bytes => bytes

/-- A new page of this length. -/
def new (length : Nat) : Except Failure Page := do
  allocate length
  return .blank length

end Page

/-- Pages by their length. -/
structure PageCache where
  buckets : List (Nat × List Page)
  deriving DecidableEq, Repr

namespace PageCache

/-- Most pages of one length. -/
def bucketLimit : Nat := 16

/-- No page. -/
def empty : PageCache := { buckets := [] }

/-- The pages of a length. -/
def pages (cache : PageCache) (length : Nat) : List Page :=
  (cache.buckets.lookup length).getD []

/-- Replaces the pages of a length. A bucket without pages is dropped. -/
def setPages (cache : PageCache) (length : Nat) (pages : List Page) : PageCache :=
  let others := cache.buckets.filter fun bucket => bucket.1 != length
  { buckets := if pages.isEmpty then others else (length, pages) :: others }

/-- Takes the page of this length that was kept last. -/
def take (cache : PageCache) (length : Nat) : Option Page × PageCache :=
  match cache.pages length with
  | [] => (none, cache)
  | page :: rest => (some page, cache.setPages length rest)

/-- Keeps a page unless it is empty or its bucket is full. -/
def put (cache : PageCache) (page : Page) : PageCache :=
  let length := page.length
  let pages := cache.pages length
  if length = 0 ∨ bucketLimit ≤ pages.length then cache
  else cache.setPages length (page :: pages)

/-- Number of pages. -/
def size (cache : PageCache) : Nat := (cache.buckets.flatMap Prod.snd).length

end PageCache

end ParallelLoop
