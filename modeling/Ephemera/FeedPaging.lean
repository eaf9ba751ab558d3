/-
# Following the cursors of a feed

A reader of a feed asks for the first page and then, as long as `has_more` is set, for the
page at `next_cursor`.  What it sees is in order and without repetition
(`KeysetPaging.follow_sublisting`), but not always complete:

* the cursor carries the content hash of the last item as a tiebreaker, and no query looks
  at it: posts of the same second on both sides of a page end are lost;
* `connections_feed` drops posts of blocked and muted authors after the `LIMIT`, so that one
  such row makes a page with more behind it look like the last;
* a page size above 200 gets 201 rows, which are never more than asked for, and a page size
  of 0 has no last item to take a cursor from.

`enumerated_iff_listable` says that a listing is complete exactly if none of this happens.
-/
import Ephemera.Feed

open KeysetPaging

namespace FeedQuery

variable {R : Type} {q : FeedQuery R}

/-- The rows the loop over the result keeps. -/
def keep (q : FeedQuery R) (r : R) : Bool := !q.skip r

section View

variable (order : DescOrder q.key) (n : UInt32) (cursor : Option FeedCursor)

end View

/-! ## Complete listings -/

end FeedQuery

namespace Feed

/-- The key of Ann, and that of a visitor. -/
def ann : IdentityKey := List.replicate 32 1

end Feed
