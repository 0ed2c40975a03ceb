import EventScript.Table

/-!
The work queue of the main thread.

Only the thread that owns the queue may touch the world of the host. Other threads hand in jobs and get a
promise for each; the owner takes jobs out in the order in which they came in, and settles their promises.
A job whose promise was cancelled is taken out without being run.

Main definitions:
* `Promise`: what is known about the result of a job;
* `MainQueue.submit`, `cancel`, `take`, `settle`: the single steps;
* `MainQueue.drain`: takes out and runs as many jobs as allowed.
-/

namespace EventScript

set_option autoImplicit false

/-- What is known about the result of a job. -/
inductive Promise (ε α : Type) where
  | pending
  | cancelled
  | failed (e : ε)
  | kept (a : α)
deriving DecidableEq, Repr

namespace Promise

variable {ε α : Type}

instance : Inhabited (Promise ε α) := ⟨pending⟩

def ofExcept : Except ε α → Promise ε α
  | .ok a => kept a
  | .error e => failed e

/-- A promise that is still open gets a result; one that is not stays as it is. -/
def settle (p : Promise ε α) (result : Except ε α) : Promise ε α :=
  match p with
  | pending => ofExcept result
  | p => p

/-- The promise after an attempt to cancel it, and whether it is cancelled now. -/
def cancel : Promise ε α → Promise ε α × Bool
  | pending => (cancelled, true)
  | cancelled => (cancelled, true)
  | p => (p, false)

end Promise

/-- Jobs `ι` that wait for the owner, first the one that came in first, each with the number of its
promise. -/
structure MainQueue (ι ε α : Type) where
  promises : Table (Promise ε α) := {}
  waiting : List (Nat × ι) := []

namespace MainQueue

variable {σ ι ε α : Type}

instance : Inhabited (MainQueue ι ε α) := ⟨{}⟩

/-- A job handed in by another thread; its promise has the number of promises before. -/
def submit (q : MainQueue ι ε α) (job : ι) : MainQueue ι ε α where
  promises := q.promises.push .pending
  waiting := q.waiting ++ [(q.promises.size, job)]

/-- A job of the owner is run at once; only its promise is left. -/
def submitSettled (q : MainQueue ι ε α) (result : Except ε α) : MainQueue ι ε α :=
  { q with promises := q.promises.push (.ofExcept result) }

/-- Cancels the promise of a number, if it is still open. -/
def cancel (q : MainQueue ι ε α) (n : Nat) : MainQueue ι ε α × Bool :=
  let (promise, cancelled) := (q.promises.get n).cancel
  ({ q with promises := q.promises.set n promise }, cancelled)

/-- Settles the promise of a number, if it is still open. -/
def settle (q : MainQueue ι ε α) (n : Nat) (result : Except ε α) : MainQueue ι ε α :=
  { q with promises := q.promises.modify n (·.settle result) }

/-- How many entries a drain with a limit takes out. -/
def allowed (q : MainQueue ι ε α) : Option Int → Nat
  | none => q.waiting.length
  | some limit => min limit.toNat q.waiting.length

/-- The entries that a drain takes out, and the queue without them. -/
def take (q : MainQueue ι ε α) (limit : Option Int) : List (Nat × ι) × MainQueue ι ε α :=
  (q.waiting.take (q.allowed limit), { q with waiting := q.waiting.drop (q.allowed limit) })

/-- Whether the job of a promise is still to be run. -/
def isOpen (q : MainQueue ι ε α) (n : Nat) : Bool :=
  match q.promises.get n with
  | .pending => true
  | _ => false

/-- Runs entries that were taken out, unless they were cancelled, and settles their promises. -/
def runAll (work : σ → ι → σ × Except ε α) (s : σ) (q : MainQueue ι ε α) :
    List (Nat × ι) → σ × MainQueue ι ε α
  | [] => (s, q)
  | (n, job) :: rest =>
    if q.isOpen n then
      let (s, result) := work s job
      runAll work s (q.settle n result) rest
    else runAll work s q rest

/-- Takes out and runs as many jobs as the limit allows; says how many were taken out. -/
def drain (work : σ → ι → σ × Except ε α) (s : σ) (q : MainQueue ι ε α) (limit : Option Int) :
    σ × MainQueue ι ε α × Nat :=
  let (entries, rest) := q.take limit
  let (s, q) := runAll work s rest entries
  (s, q, entries.length)

end MainQueue

end EventScript
