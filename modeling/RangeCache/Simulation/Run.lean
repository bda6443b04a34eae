import RangeCache.Session.Step
import RangeCache.Simulation.Client

/-!
# Simulations

A session together with a client, run by a fixed rule: first the tasks that can go on, then the client,
which answers the oldest request, then time. A client that holds back answers only when it is told to.
Each run is bounded by a number of events.
-/

namespace RangeCache

/-- A session and its client. -/
structure Simulation where
  session : Session
  client : Client
  /-- Whether the client holds back its answers. -/
  hold : Bool := false
  deriving Repr, Inhabited

namespace Simulation

/-- The client answers the `i`-th of the requests that wait. -/
def complete (m : Simulation) (i : Nat) : Simulation :=
  match m.session.calls[i]? with
  | none => m
  | some call =>
    let (client, reply) := m.client.answer call.request
    { m with client, session := m.session.answer i reply 0 }

/-- The next event, unless there is nothing left to do. -/
def next? (m : Simulation) : Option Simulation :=
  if !m.session.runnable.isEmpty then some { m with session := m.session.runNext }
  else if !m.hold && !m.session.calls.isEmpty then some (m.complete 0)
  else if !m.session.timers.isEmpty then some { m with session := m.session.tick }
  else none

/-- There is nothing left to do exactly when no task can go on, the client owes no answer that it would
    give, and no timer is set. -/
theorem next?_eq_none_iff (m : Simulation) :
    m.next? = none ↔
      m.session.runnable = [] ∧ (m.hold = true ∨ m.session.calls = []) ∧ m.session.timers = [] := by
  unfold next?
  cases hr : m.session.runnable <;> cases hh : m.hold <;> cases hc : m.session.calls <;>
    cases ht : m.session.timers <;> simp

/-- Runs a simulation until there is nothing left to do, for at most `limit` events. -/
def settle : (limit : Nat) → Simulation → Simulation
  | 0, m => m
  | n + 1, m =>
    match m.next? with
    | none => m
    | some m' => settle n m'

/-- Where there is nothing left to do, nothing is done. -/
theorem settle_of_next?_eq_none {m : Simulation} (h : m.next? = none) (limit : Nat) : settle limit m = m := by
  cases limit with
  | zero => rfl
  | succ n => simp [settle, h]

end Simulation

end RangeCache
