import EventScript.Proofs.EngineOperations

/-!
Scripts that are loaded again.

A script is loaded again from its file if that is there, and else from its source. What is loaded from a file
is registered under the name of the file, and a script may have been registered under another one: then loading
it again leaves the registered script as it is, and the name of the file gets the new one.

Main definitions:
* `Engine.Registered`: every name in the registry has a script;
* `Engine.fileOf`, `nameAgain`, `SourceAgain`: the file and the source text that a script is loaded from again, and
  the name it then gets.

Main facts:
* `Engine.reload_ok`: a reload is a load of a source text under a name;
* `Engine.registered_run`: what is done with the registry leaves every name with a script;
* `Engine.reload_replaces_iff`: what a reload does to the registry, and when it replaces the named script.
-/

namespace EventScript

set_option autoImplicit false

namespace Engine

/-! ## Loads -/

theorem load_ok {e e' : Engine} {name source : String} {file : Option String} {id : Nat}
    (h : e.load name source file = .ok (e', id)) :
    id = e.world.scripts.size ∧
      ∃ script, build e.config name source file = .ok script ∧
        e' = { e with
          world := { e.world with scripts := e.world.scripts.push script }
          registry := e.registry.put name id } := by
  rw [load_eq, parse_eq] at h
  split at h
  · cases h
  · cases hbuild : build e.config name source file with
    | error refusal =>
      rw [hbuild] at h
      cases h
    | ok script =>
      rw [hbuild] at h
      cases h
      exact ⟨rfl, script, rfl, rfl⟩

theorem loadFile_ok {e e' : Engine} {file : String} {id : Nat} (h : e.loadFile file = .ok (e', id)) :
    ∃ content, e.readFile file = .ok content ∧
      e.load (stem file) (String.ofList (Text.unifyBreaks content.toList)) (some (tidyPath file)) =
        .ok (e', id) := by
  unfold loadFile at h
  cases hread : e.readFile file with
  | error refusal =>
    rw [hread] at h
    cases h
  | ok content =>
    rw [hread] at h
    exact ⟨content, rfl, h⟩

/-! ## Registered scripts -/

/-- Every name in the registry has a script. -/
def Registered (e : Engine) : Prop := ∀ name id, e.get? name = some id → id < e.world.scripts.size

section

variable {e e' : Engine}

theorem registered_start (config : Config) (host : Host) (queued : Bool) (memory : Memory) :
    (start config host queued memory).Registered := by
  have hregistry : (start config host queued memory).registry = {} := by
    unfold start
    dsimp only
    split
    · split <;> rfl
    · rfl
  intro name id h
  rw [get?, hregistry] at h
  cases h

theorem registered_load {name source : String} {file : Option String} {id : Nat} (he : e.Registered)
    (h : e.load name source file = .ok (e', id)) : e'.Registered := by
  obtain ⟨rfl, script, -, rfl⟩ := load_ok h
  intro other other' hother
  have hsize : (e.world.scripts.push script).size = e.world.scripts.size + 1 := Table.size_push _ _
  by_cases hname : other = name
  · subst hname
    have hput := Dict.get?_put_self e.registry other e.world.scripts.size
    have hid : other' = e.world.scripts.size := Option.some.inj (hother.symm.trans hput)
    show other' < (e.world.scripts.push script).size
    omega
  · have hput := Dict.get?_put_of_ne e.registry e.world.scripts.size hname
    have hold := he other other' (hput.symm.trans hother)
    show other' < (e.world.scripts.push script).size
    omega

theorem registered_loadFile {file : String} {id : Nat} (he : e.Registered)
    (h : e.loadFile file = .ok (e', id)) : e'.Registered := by
  obtain ⟨content, -, hload⟩ := loadFile_ok h
  exact registered_load he hload

theorem registered_reload {name : String} {id : Nat} (he : e.Registered)
    (h : e.reload name = .ok (e', id)) : e'.Registered := by
  unfold reload at h
  split at h
  · cases h
  · dsimp only at h
    split at h
    · exact registered_loadFile he h
    · exact registered_load he h

theorem registered_attempted (he : e.Registered) {x : Except EngineError (Engine × Nat)}
    (h : ∀ e' id, x = .ok (e', id) → e'.Registered) : (e.attempted x).1.Registered := by
  cases x with
  | error refusal => exact he
  | ok made => exact h made.1 made.2 rfl

end

/-- What is done with the registry and the files. -/
def Operation.ofRegistry : Operation → Bool
  | .call (.load ..) | .call (.loadFile _) | .call (.reload _) => true
  | .unload _ | .writeFile .. | .deleteFile _ => true
  | _ => false

theorem registered_after {e : Engine} (he : e.Registered) {op : Operation} (hop : op.ofRegistry = true) :
    (e.after op).Registered := by
  cases op with
  | call entry =>
    cases entry with
    | load name source file => exact registered_attempted he fun _ _ => registered_load he
    | loadFile file => exact registered_attempted he fun _ _ => registered_loadFile he
    | reload name => exact registered_attempted he fun _ _ => registered_reload he
    | _ => cases hop
  | unload name =>
    intro other id h
    by_cases hname : other = name
    · subst hname
      have herase := Dict.get?_erase_self e.registry other
      exact absurd (h.symm.trans herase) (by simp)
    · exact he other id ((Dict.get?_erase_of_ne e.registry hname).symm.trans h)
  | writeFile file content =>
    rw [after, writeFile]
    cases placeOf file <;> exact he
  | deleteFile file =>
    rw [after, deleteFile]
    cases e.contentOf file <;> exact he
  | _ => cases hop

theorem registered_run {e : Engine} (he : e.Registered) {ops : List Operation}
    (hops : ∀ op ∈ ops, op.ofRegistry = true) : (ops.foldl after e).Registered := by
  induction ops generalizing e with
  | nil => exact he
  | cons op ops ih =>
    exact ih (registered_after he (hops op List.mem_cons_self)) fun op' hop' =>
      hops op' (List.mem_cons_of_mem _ hop')

/-! ## Reloads -/

/-- The file of a script, if it is there. -/
def fileOf (e : Engine) (id : Nat) : Option String := (e.world.script id).sourceFile.filter e.files.contains

/-- The name under which a script is registered when it is loaded again. -/
def nameAgain (e : Engine) (name : String) (id : Nat) : String := ((e.fileOf id).map stem).getD name

theorem nameAgain_of_file {e : Engine} {id : Nat} {file : String} (h : e.fileOf id = some file) (name : String) :
    e.nameAgain name id = stem file := by
  rw [nameAgain, h]
  rfl

theorem nameAgain_of_none {e : Engine} {id : Nat} (h : e.fileOf id = none) (name : String) :
    e.nameAgain name id = name := by
  rw [nameAgain, h]
  rfl

/-- The file that a script has when it is loaded again. -/
def fileAgain (e : Engine) (id : Nat) : Option String :=
  match e.fileOf id with
  | some file => some (tidyPath file)
  | none => (e.world.script id).sourceFile

/-- The source text of a script when it is loaded again: that of its file if it is there, else the old one. -/
def SourceAgain (e : Engine) (id : Nat) (source : String) : Prop :=
  match e.fileOf id with
  | some file => ∃ content, e.readFile file = .ok content ∧
      source = String.ofList (Text.unifyBreaks content.toList)
  | none => source = (e.world.script id).source

/-- A reload is a load of that source text under the name of the file, if the file is there. -/
theorem reload_ok {e e' : Engine} {name : String} {id : Nat} (h : e.reload name = .ok (e', id)) :
    ∃ old source, e.get? name = some old ∧ e.SourceAgain old source ∧
      e.load (e.nameAgain name old) source (e.fileAgain old) = .ok (e', id) := by
  unfold reload at h
  cases hget : e.get? name with
  | none =>
    rw [hget] at h
    cases h
  | some old =>
    rw [hget] at h
    dsimp only at h
    rw [← fileOf] at h
    unfold SourceAgain nameAgain fileAgain
    cases hfile : e.fileOf old with
    | none =>
      rw [hfile] at h
      exact ⟨old, _, rfl, by rw [hfile], by rw [hfile]; exact h⟩
    | some file =>
      rw [hfile] at h
      obtain ⟨content, hread, hload⟩ := loadFile_ok h
      exact ⟨old, _, rfl, by rw [hfile]; exact ⟨content, hread, rfl⟩, by rw [hfile]; exact hload⟩

/-- A reload makes a new script of the source text of the file, if it is there, and else of the old source, and
leaves the other scripts alone. It replaces the named script, and nothing else, exactly if the file is not there
or has that name. Else the old script stays under the name, and the new one gets the name of the file. -/
theorem reload_replaces_iff {e e' : Engine} {name : String} {s : Nat} (hregistered : e.Registered)
    (h : e.reload name = .ok (e', s)) :
    ∃ old, e.get? name = some old ∧
      (∃ source, e.SourceAgain old source ∧
        build e.config (e.nameAgain name old) source (e.fileAgain old) = .ok (e'.world.script s)) ∧
      (∀ id < e.world.scripts.size, id ≠ s ∧ e'.world.script id = e.world.script id) ∧
      ((e'.get? name = some s ∧ e'.registry.keys = e.registry.keys ∧
          ∀ other, other ≠ name → e'.get? other = e.get? other) ↔
        ∀ file, e.fileOf old = some file → stem file = name) ∧
      (∀ file, e.fileOf old = some file → stem file ≠ name →
        e'.get? name = some old ∧ e'.get? (stem file) = some s) := by
  obtain ⟨old, source, hget, hsource, hload⟩ := reload_ok h
  obtain ⟨rfl, script, hbuild, rfl⟩ := load_ok hload
  have hold := hregistered name old hget
  -- a script that is registered under another name leaves the named one
  have hkept : e.nameAgain name old ≠ name →
      (e.registry.put (e.nameAgain name old) e.world.scripts.size).get? name = some old := fun hne =>
    (Dict.get?_put_of_ne e.registry _ hne.symm).trans hget
  refine ⟨old, hget, ⟨source, hsource, ?_⟩, fun id hid => ⟨Nat.ne_of_lt hid, ?_⟩, ⟨?_, ?_⟩, ?_⟩
  · rw [hbuild]
    exact congrArg Except.ok (Table.get_push_self _ _).symm
  · exact Table.get_push_of_lt _ _ hid
  · rintro ⟨hname, -, -⟩ file hfile
    refine Decidable.byContradiction fun hne => ?_
    rw [← nameAgain_of_file hfile name] at hne
    have hsame : old = e.world.scripts.size := Option.some.inj ((hkept hne).symm.trans hname)
    omega
  · intro hstem
    have hname : e.nameAgain name old = name := by
      cases hfile : e.fileOf old with
      | none => exact nameAgain_of_none hfile name
      | some file => exact (nameAgain_of_file hfile name).trans (hstem file hfile)
    have hmem : name ∈ e.registry.keys := Decidable.byContradiction fun hnot => by
      have hnone : e.get? name = none := Dict.get?_eq_none_iff.2 hnot
      rw [hget] at hnone
      cases hnone
    rw [hname]
    exact ⟨Dict.get?_put_self _ _ _, Dict.keys_put_of_mem hmem _, fun other hother =>
      Dict.get?_put_of_ne _ _ hother⟩
  · intro file hfile hne
    rw [← nameAgain_of_file hfile name] at hne
    refine ⟨hkept hne, ?_⟩
    rw [← nameAgain_of_file hfile name]
    exact Dict.get?_put_self _ _ _

/-- A script `a` that is loaded with the file `b.hxs` and then again. -/
theorem reload_registers_stem : ∃ e e' : Engine,
    e.Registered ∧ e.reload "a" = .ok (e', 1) ∧ e.fileOf 0 = some "b.hxs" ∧ stem "b.hxs" ≠ "a" ∧
      e'.get? "a" = some 0 ∧ e'.get? "b" = some 1 := by
  let e : Engine := [Operation.writeFile "b.hxs" "", .call (.load "a" "" (some "b.hxs"))].foldl after
    (start {} (Roster.host {}) false {})
  have hregistered : e.Registered :=
    registered_run (registered_start {} (Roster.host {}) false {}) (by simp [Operation.ofRegistry])
  obtain ⟨e', hreload⟩ : ∃ e', e.reload "a" = .ok (e', 1) := ⟨_, rfl⟩
  have hfile : e.fileOf 0 = some "b.hxs" := rfl
  have hstem : stem "b.hxs" = "b" := by decide +kernel
  obtain ⟨old, hget, -, -, -, hother⟩ := reload_replaces_iff hregistered hreload
  obtain rfl : old = 0 := Option.some.inj (hget.symm.trans rfl)
  obtain ⟨hkept, hnew⟩ := hother "b.hxs" hfile (by rw [hstem]; decide)
  exact ⟨e, e', hregistered, hreload, hfile, by rw [hstem]; decide, hkept, by rwa [hstem] at hnew⟩

end Engine

end EventScript
