import RangeCache.Proofs.Cache.Ending
import RangeCache.Proofs.Cache.Shape
import RangeCache.Proofs.Session.Events

/-!
# The blocks of a session

Whatever happens to a session, its stores keep their shape, and a block whose bytes are there holds as many as it
covers (`shaped_runEvents`). Nothing is asked of the object client: an answer with another number of bytes than were
asked for counts as a failure. A look-up comes back if what it asks for can be cut, and then what it gives out tiles
what was asked for; from the last border of the grid on, which only an object of more than half of all words reaches,
it does not come back.
-/

namespace RangeCache

/-- Bytes that are taken for the answer to a request are as many as were asked for. -/
theorem Reply.length_of_bytesOf {n : Nat} {reply : Reply} {b : Bytes} (h : reply.bytesOf n = .ok b) : b.length = n := by
  unfold bytesOf at h
  split at h
  · split at h
    · cases h
      assumption
    · cases h
  · cases h
  · cases h

namespace Session

/-- Every answer is fair as far as the number of bytes goes. -/
theorem fairRun_sized (s : Session) (l : List Event) : FairRun .sized s l := by
  induction l generalizing s with
  | nil => trivial
  | cons e l ih =>
    refine ⟨?_, ih _⟩
    cases e with
    | answer i reply draw => exact fun _ _ _ _ _ hb _ => Reply.length_of_bytesOf hb
    | _ => trivial

end Session

end RangeCache
