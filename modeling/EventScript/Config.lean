import EventScript.Data

/-!
Limits and switches of a script engine.

A configuration comes as a table of settings, by plain names or in the nested layout of a plugin
(`nestedNames`); a plain name wins over a nested one, and unknown names do not matter. Every setting is
checked for itself, and last that the reaper runs at least once within the retention window.
-/

namespace EventScript

set_option autoImplicit false

/-- The configuration of an engine. -/
structure Config where
  maxLoopIterations : Int := 1000
  maxExecutionTimeMs : Int := 5000
  maxScriptStatements : Int := 10000
  asyncExecution : Bool := true
  workerThreads : Int := 4
  variableRetentionSeconds : Float := 1800.0
  reaperIntervalSeconds : Float := 60.0
  shutdownGraceSeconds : Float := 5.0
  slowExecutionWarningMs : Float := 1000.0
  cancelHaltsExecution : Bool := true
  debug : Bool := false
deriving DecidableEq, Repr, Inhabited

namespace Config

/-- The time budget of a run in seconds, if there is a floating-point number for it. -/
def maxExecutionTime? (config : Config) : Option Float :=
  let ms := config.maxExecutionTimeMs
  Number.finite? (Number.nearest (decide (ms < 0)) ms.natAbs 1000)

/-- Whether a thread can wait for so many seconds: their nanoseconds are counted with a sign in 64 bits. -/
def canWait (seconds : Float) : Bool := decide (seconds * 1000000000.0 < 9223372036854775808.0)

/-- Places in the nested layout and the settings they stand for; a later one wins. -/
def nestedNames : List (List String × String) :=
  [(["performance", "max_loops_per_tick"], "max_loop_iterations"),
   (["performance", "max_execution_time_ms"], "max_execution_time_ms"),
   (["performance", "optimization", "enable_async_execution"], "async_execution"),
   (["defaults", "max_script_lines"], "max_script_statements"),
   (["max_script_execution_time"], "max_execution_time_ms"),
   (["debug"], "debug")]

/-- The settings of a nested layout by their plain names, those given plainly first. -/
def flatten (data : Data) : Data :=
  match data with
  | .table fields =>
    .table (fields ++ nestedNames.reverse.filterMap fun (path, name) =>
      (data.lookup? path).map fun inner => (name, inner))
  | _ => .table []

private def atLeast (least : Int) (read : Checked Int) : Checked Int := do
  let n ← read
  if least ≤ n then return n else Checked.flawed .tooSmall

private def notNegative (read : Checked Float) : Checked Float := do
  let x ← read
  if 0.0 ≤ x then return x else Checked.flawed .tooSmall

private def positive (read : Checked Float) : Checked Float := do
  let x ← read
  if 0.0 < x then return x else Checked.flawed .notAbove

/-- A setting as it is named in a message: a given one with its point, a default one without. -/
private def shown (data : Data) (name : String) (x : Float) (default : String) : String :=
  if (data.field? name).isSome then Number.floatText x else default

private def reaperInWindow (data : Data) (config : Config) : Checked Config :=
  if config.variableRetentionSeconds < config.reaperIntervalSeconds then
    let interval := shown data "reaper_interval_seconds" config.reaperIntervalSeconds "60"
    let window := shown data "variable_retention_seconds" config.variableRetentionSeconds "1800"
    Checked.flawed (.rule <|
      s!"reaper_interval_seconds ({interval}) must be <= variable_retention_seconds ({window})")
  else .ok config

/-- The configuration of a table of settings by their plain names. -/
def ofSettings (data : Data) : Checked Config := do
  let standard : Config := {}
  let count (name : String) (given : Int) : Checked Int :=
    data.fieldOr name given fun d => atLeast 1 d.readInt
  let seconds (name : String) (given : Float) (check : Checked Float → Checked Float) :
      Checked Float := data.fieldOr name given fun d => check d.readFloat
  let switch (name : String) (given : Bool) : Checked Bool := data.fieldOr name given Data.readBool
  let read := (.ok Config.mk : Checked _)
  let read := Checked.apply read (count "max_loop_iterations" standard.maxLoopIterations)
  let read := Checked.apply read (count "max_execution_time_ms" standard.maxExecutionTimeMs)
  let read := Checked.apply read (count "max_script_statements" standard.maxScriptStatements)
  let read := Checked.apply read (switch "async_execution" standard.asyncExecution)
  let read := Checked.apply read (count "worker_threads" standard.workerThreads)
  let read := Checked.apply read
    (seconds "variable_retention_seconds" standard.variableRetentionSeconds positive)
  let read := Checked.apply read
    (seconds "reaper_interval_seconds" standard.reaperIntervalSeconds notNegative)
  let read := Checked.apply read
    (seconds "shutdown_grace_seconds" standard.shutdownGraceSeconds notNegative)
  let read := Checked.apply read
    (seconds "slow_execution_warning_ms" standard.slowExecutionWarningMs notNegative)
  let read := Checked.apply read (switch "cancel_halts_execution" standard.cancelHaltsExecution)
  let read := Checked.apply read (switch "debug" standard.debug)
  reaperInWindow data (← read)

/-- The configuration of a table of settings in either layout. -/
def ofMapping (data : Data) : Checked Config := ofSettings (flatten data)

/-- The settings of a configuration by their plain names. -/
def toSettings (config : Config) : List (String × Data) :=
  [("max_loop_iterations", .int config.maxLoopIterations),
   ("max_execution_time_ms", .int config.maxExecutionTimeMs),
   ("max_script_statements", .int config.maxScriptStatements),
   ("async_execution", .bool config.asyncExecution),
   ("worker_threads", .int config.workerThreads),
   ("variable_retention_seconds", .float config.variableRetentionSeconds),
   ("reaper_interval_seconds", .float config.reaperIntervalSeconds),
   ("shutdown_grace_seconds", .float config.shutdownGraceSeconds),
   ("slow_execution_warning_ms", .float config.slowExecutionWarningMs),
   ("cancel_halts_execution", .bool config.cancelHaltsExecution),
   ("debug", .bool config.debug)]

end Config

/-! ## Logging -/

/-- Where log records go: to a handler of the host, or to the standard stream. -/
inductive LogTarget where
  | given
  | stream
deriving DecidableEq, Repr

/-- The logging set-up of an engine. -/
structure Logging where
  channel : String
  level : String
  target : LogTarget
  format : Option String
deriving DecidableEq, Repr

namespace Logging

/-- The set-up for a configuration. A handler of the host keeps its own format. -/
def configure (config : Config) (target : LogTarget) : Logging where
  channel := "hexicript"
  level := if config.debug then "DEBUG" else "INFO"
  target := target
  format := match target with
    | .given => none
    | .stream => some "[%(asctime)s] %(levelname)-8s [%(name)s] %(message)s"

end Logging

end EventScript
