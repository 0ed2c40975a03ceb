import EventScript.Host
import EventScript.Script
import EventScript.Store

/-!
Runs as processes.

A run changes the world and calls the host. It is a process: it is done, with the world it leaves and its
result, or it asks the host something and goes on with the answer in whatever world it finds then. Every
process comes to an end, whatever the answers are, because it is built up from finitely many steps.

Main definitions:
* `World`: all that a run can see and change;
* `Proc`: processes;
* `Run`: runs that end with a value or a fault;
* `Proc.complete`: a process carried through with a host that answers at once.
-/

namespace EventScript

set_option autoImplicit false

/-- How many invocations there were, and for how many milliseconds in all. -/
structure Totals where
  executions : Nat := 0
  totalMs : Float := 0.0
deriving DecidableEq, Repr, Inhabited

namespace Totals

def record (totals : Totals) (ms : Float) : Totals where
  executions := totals.executions + 1
  totalMs := totals.totalMs + ms

/-- Milliseconds for each invocation; zero if there was none. -/
def averageMs (totals : Totals) : Float :=
  if totals.executions = 0 then 0.0 else totals.totalMs / Float.ofNat totals.executions

end Totals

/-- All that runs see and change: memory, scripts, totals, and the journal of what happened. -/
structure World where
  memory : Memory := {}
  scripts : Table Script := {}
  totals : Totals := {}
  journal : Journal := []
deriving Inhabited

namespace World

def clock (w : World) : Float := w.memory.clock

def script (w : World) (id : Nat) : Script := w.scripts.get id

def changeMemory (w : World) (change : Memory → Memory) : World :=
  { w with memory := change w.memory }

def changeScript (w : World) (id : Nat) (change : Script → Script) : World :=
  { w with scripts := w.scripts.modify id change }

def changeContext (w : World) (id : Nat) (change : Context → Context) : World :=
  w.changeMemory fun m => m.changeContext id change

def note (w : World) (event : Event) : World := { w with journal := event :: w.journal }

/-- The world after so many seconds. -/
def advance (w : World) (seconds : Float) : World :=
  w.changeMemory fun m => { m with clock := m.clock + seconds }

/-- A call to the host: noted, then paid for in time, then answered. -/
def serve (host : Host) (w : World) (call : HostCall) : World × call.Reply :=
  let noted := w.note (.called call)
  let paid := match host.cost w.journal call with
    | some seconds => noted.advance seconds
    | none => noted
  (paid, host.answer w.journal call)

end World

/-- A process over states `σ` with results `α`. -/
inductive Proc (σ α : Type) where
  | done (state : σ) (result : α)
  | ask (state : σ) (call : HostCall) (resume : σ → call.Reply → Proc σ α)

namespace Proc

variable {σ α β : Type}

/-- One process after another. -/
def bind : Proc σ α → (σ → α → Proc σ β) → Proc σ β
  | done state result, next => next state result
  | ask state call resume, next => ask state call fun s reply => (resume s reply).bind next

/-- A process carried through with a host that answers at once. -/
def complete (serve : σ → (call : HostCall) → σ × call.Reply) : Proc σ α → σ × α
  | done state result => (state, result)
  | ask state call resume =>
    let (after, reply) := serve state call
    (resume after reply).complete serve

end Proc

/-- A run: a process on the world that ends with a value or a fault. -/
def Run (α : Type) : Type := World → Proc World (Except Fault α)

namespace Run

variable {α β : Type}

protected def pure (a : α) : Run α := fun w => .done w (.ok a)

protected def bind (run : Run α) (next : α → Run β) : Run β := fun w =>
  (run w).bind fun w result =>
    match result with
    | .ok a => next a w
    | .error fault => .done w (.error fault)

instance : Monad Run where
  pure := Run.pure
  bind := Run.bind

/-- A run that fails at once. -/
def throw (fault : Fault) : Run α := fun w => .done w (.error fault)

/-- What a run ends with, be it a value or a fault. -/
def attempt (run : Run α) : Run (Except Fault α) := fun w =>
  (run w).bind fun w result => .done w (.ok result)

def ofExcept : Except Fault α → Run α
  | .ok a => Run.pure a
  | .error fault => Run.throw fault

/-- The world as it is. -/
def look : Run World := fun w => .done w (.ok w)

def change (f : World → World) : Run Unit := fun w => .done (f w) (.ok ())

def note (event : Event) : Run Unit := change fun w => w.note event

def changeContext (id : Nat) (f : Context → Context) : Run Unit :=
  change fun w => w.changeContext id f

def clock : Run Float := fun w => .done w (.ok w.clock)

/-- An access to the memory as a run, noted. -/
def access (a : Access α) : Run α := fun w =>
  let (result, memory) := a.run.run w.memory
  .done { w.note .accessed with memory := memory } result

/-- A call to the host; trouble becomes a fault. -/
def call (call : HostCall) : Run call.Answer := fun w =>
  .ask w call fun w reply => .done w (reply.mapError HostTrouble.fault)

/-- A run followed by a closing step that is taken whatever the run ends with. -/
def closingWith (run : Run α) (closing : Run Unit) : Run α := do
  let result ← attempt run
  closing
  ofExcept result

end Run

end EventScript
