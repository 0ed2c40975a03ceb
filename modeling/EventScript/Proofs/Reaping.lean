import EventScript.Proofs.FloatOrder
import EventScript.Proofs.StoreCells

/-!
What the reaper forgets.

The store notes under a name when a variable of that name was last accessed, and in which namespace. There is
one note for a name, whatever the namespace: an access or a removal through a reference of one namespace
replaces or drops what was noted for a variable of the same name in another. The reaper goes by the notes.
What it does is told here by the past of a memory: the uses of the store from the empty store on, under a
clock that never goes back, with anything outside the store changing between them.

Main definitions:
* `Memory.Use`, `Memory.Past`: uses of the store, and memories with their past;
* `Memory.lastAccess?`: the time of the last access to an ephemeral variable;
* `Memory.overtaken`: whether the note of that access has been replaced or dropped since.

Main facts:
* `Memory.Past.faithful`: how the notes and the ephemeral variables come from the past;
* `Memory.reap_keeps_iff`: which ephemeral variables are left;
* `Memory.reap_forgets_stale`: nothing is forgotten too early, and nothing else is changed.
-/

namespace EventScript.Memory

set_option autoImplicit false

/-! ## Uses of the store -/

/-- A use of the store. -/
inductive Use where
  | read (ctx : Nat) (reference : String)
  | isSet (ctx : Nat) (reference : String)
  | assign (ctx : Nat) (reference : String) (value : Value)
  | increase (ctx : Nat) (reference : String) (value : Value)
  | remove (ctx : Nat) (reference : String)
  | clear (space : Option Namespace) (owner : Option String)
  | reap

/-- The namespace and the name of a reference, if the name can be formed. -/
def resolve? (m : Memory) (ctx : Nat) (reference : String) : Option (Namespace × String) :=
  match Reference.name m.lists (m.context ctx) reference with
  | .ok name => some (Namespace.of reference, name)
  | .error _ => none

namespace Use

/-- The memory after a use, be it successful or not. -/
def after (m : Memory) : Use → Memory
  | read ctx reference => ((Memory.read ctx reference).run.run m).2
  | isSet ctx reference => ((Memory.isSet ctx reference).run.run m).2
  | assign ctx reference value => ((Memory.assign ctx reference value).run.run m).2
  | increase ctx reference value => ((Memory.increase ctx reference value).run.run m).2
  | remove ctx reference => ((Memory.remove ctx reference).run.run m).2
  | clear space owner => m.changeStore fun s => s.clear space owner
  | reap => m.reap.1

/-- The variable that a use asks for or gives a value to. -/
def accessed? (m : Memory) : Use → Option (Namespace × String)
  | read ctx reference | isSet ctx reference => m.resolve? ctx reference
  | assign ctx reference _ | increase ctx reference _ => m.resolve? ctx reference
  | remove .. | clear .. | reap => none

/-- The variable that a use removes. -/
def removed? (m : Memory) : Use → Option (Namespace × String)
  | remove ctx reference => m.resolve? ctx reference
  | _ => none

end Use

/-- Whether a use, in the memory that it found, is an access to the ephemeral variable of a name. -/
def accesses (name : String) (entry : Memory × Use) : Bool :=
  entry.2.accessed? entry.1 == some (.ephemeral, name)

/-- Whether a use accesses or removes a variable of the same name in another namespace. Accesses to local
variables are not noted. -/
def crosses (name : String) (entry : Memory × Use) : Bool :=
  (match entry.2.accessed? entry.1 with
    | some (space, other) => other == name && space != .ephemeral && space != .local
    | none => false) ||
  match entry.2.removed? entry.1 with
  | some (space, other) => other == name && space != .ephemeral
  | none => false

/-- The time of the last access to the ephemeral variable of a name. -/
def lastAccess? (past : List (Memory × Use)) (name : String) : Option Float :=
  (past.find? (accesses name)).map fun entry => entry.1.storeTime

/-- Whether a variable of the same name in another namespace was accessed or removed since the last access to
the ephemeral variable of a name. -/
def overtaken (name : String) : List (Memory × Use) → Bool
  | [] => false
  | entry :: past => crosses name entry || (!accesses name entry && overtaken name past)

/-- A memory that has come about from an empty store by uses, the latest first, each with the memory that it
found. Between uses the clock may go on, and whatever is not in the store may change. -/
inductive Past : List (Memory × Use) → Memory → Prop
  | start {m : Memory} (hstore : m.store = { retention := m.store.retention })
      (hclock : m.storeTime.isNaN = false) : Past [] m
  | wait {past : List (Memory × Use)} {m m' : Memory} (h : Past past m) (hstore : m'.store = m.store)
      (hclock : m.storeTime ≤ m'.storeTime) : Past past m'
  | use {past : List (Memory × Use)} {m : Memory} (h : Past past m) (use : Use) :
      Past ((m, use) :: past) (use.after m)

/-! ## What a use does to the notes and to the ephemeral variables -/

/-- The notes, the ephemeral variables and the time are the same. -/
structure Untouched (m m' : Memory) : Prop where
  accesses : m'.store.accesses = m.store.accesses
  ephemeral : m'.store.ephemeral = m.store.ephemeral
  time : m'.storeTime = m.storeTime

/-- An access to a variable was noted; of the ephemeral variables only the one that was accessed may have
changed. -/
structure Noted (m : Memory) (space : Namespace) (name : String) (m' : Memory) : Prop where
  accesses : m'.store.accesses.get? = if space = .local then m.store.accesses.get?
    else Function.update m.store.accesses.get? name (some ⟨m.storeTime, space⟩)
  ephemeral : ∀ other, space ≠ .ephemeral ∨ other ≠ name →
    m'.store.ephemeral.get? other = m.store.ephemeral.get? other
  time : m'.storeTime = m.storeTime

theorem untouched_refl (m : Memory) : Untouched m m := ⟨rfl, rfl, rfl⟩

section

variable {m m' m'' : Memory} {space : Namespace} {name : String}

theorem Noted.then_untouched (h : Noted m space name m') (h' : Untouched m' m'') :
    Noted m space name m'' where
  accesses := by rw [h'.accesses, h.accesses]
  ephemeral other hother := by rw [h'.ephemeral, h.ephemeral other hother]
  time := h'.time.trans h.time

theorem Noted.again (h : Noted m space name m') (h' : Noted m' space name m'') :
    Noted m space name m'' where
  accesses := by
    rw [h'.accesses, h.accesses, h.time]
    split
    · rfl
    · rw [Function.update_idem]
  ephemeral other hother := (h'.ephemeral other hother).trans (h.ephemeral other hother)
  time := h'.time.trans h.time

theorem noted_touch (m : Memory) (space : Namespace) (name : String) :
    ∃ m', (touch name space).run.run m = (.ok (), m') ∧ Noted m space name m' ∧
      m'.lists = m.lists ∧ m'.contexts = m.contexts := by
  by_cases h : space = .local
  · subst h
    exact ⟨m, rfl, ⟨rfl, fun _ _ => rfl, rfl⟩, rfl, rfl⟩
  · refine ⟨_, run_touch name h m, ⟨?_, fun _ _ => rfl, rfl⟩, rfl, rfl⟩
    rw [if_neg h]
    exact Dict.get?_put _ _ _

theorem untouched_copied (m : Memory) (value : Value) :
    Untouched m ((copied value).run.run m).2 := by
  cases value <;> exact ⟨rfl, rfl, rfl⟩

theorem untouched_append (m : Memory) (name : String) (value : Value) :
    Untouched m ((append name value).run.run m).2 := by
  unfold append
  rw [Access.run_modify]
  split <;> exact ⟨rfl, rfl, rfl⟩

theorem Noted.then_put (h : Noted m .ephemeral name m') (value : Value) :
    Noted m .ephemeral name
      (m'.changeStore fun s => { s with ephemeral := s.ephemeral.put name value }) where
  accesses := h.accesses
  ephemeral other hother := by
    have hne : other ≠ name := hother.resolve_left fun hspace => hspace rfl
    rw [← h.ephemeral other hother]
    exact Dict.get?_put_of_ne _ _ hne
  time := h.time

variable {ctx : Nat} {reference : String}

theorem noted_read (h : Reference.name m.lists (m.context ctx) reference = .ok name) :
    Noted m (Namespace.of reference) name ((read ctx reference).run.run m).2 ∧
      (Namespace.of reference ≠ .list → ((read ctx reference).run.run m).2.lists = m.lists ∧
        ((read ctx reference).run.run m).2.contexts = m.contexts) := by
  unfold read
  rw [run_nameOf_bind h]
  generalize Namespace.of reference = space
  obtain ⟨m', hrun, hnoted, hlists, hcontexts⟩ := noted_touch m space name
  rw [Access.run_bind_ok hrun]
  cases space with
  | ephemeral | global | «local» => exact ⟨hnoted, fun _ => ⟨hlists, hcontexts⟩⟩
  | owner =>
    refine holds_ofExcept_bind (P := fun m'' => Noted m .owner name m'' ∧
      (Namespace.owner ≠ .list → m''.lists = m.lists ∧ m''.contexts = m.contexts)) ?_ fun _ => ?_
    · exact ⟨hnoted, fun _ => ⟨hlists, hcontexts⟩⟩
    · exact ⟨hnoted, fun _ => ⟨hlists, hcontexts⟩⟩
  | list => exact ⟨hnoted.then_untouched (untouched_copied m' _), fun hne => absurd rfl hne⟩

theorem noted_assign (h : Reference.name m.lists (m.context ctx) reference = .ok name) (value : Value) :
    Noted m (Namespace.of reference) name ((assign ctx reference value).run.run m).2 := by
  unfold assign
  rw [run_nameOf_bind h]
  generalize Namespace.of reference = space
  obtain ⟨m', hrun, hnoted, -, -⟩ := noted_touch m space name
  rw [Access.run_bind_ok hrun]
  cases space with
  | ephemeral => exact hnoted.then_put value
  | owner =>
    refine hnoted.then_untouched ?_
    exact holds_ofExcept_bind (P := Untouched m') (untouched_refl m') fun _ => ⟨rfl, rfl, rfl⟩
  | global | «local» => exact hnoted.then_untouched ⟨rfl, rfl, rfl⟩
  | list =>
    cases value with
    | list id => exact hnoted.then_untouched ⟨rfl, rfl, rfl⟩
    | _ => exact hnoted.then_untouched (untouched_append m' (listName name) _)

theorem noted_increase (h : Reference.name m.lists (m.context ctx) reference = .ok name) (value : Value) :
    Noted m (Namespace.of reference) name ((increase ctx reference value).run.run m).2 := by
  unfold increase
  by_cases hspace : Namespace.of reference = .list
  · obtain ⟨m', hrun, hnoted, -, -⟩ := noted_touch m .list name
    rw [if_pos hspace, run_nameOf_bind h, Access.run_bind_ok hrun, hspace]
    exact hnoted.then_untouched (untouched_append m' (listName name) value)
  · obtain ⟨hnoted, hsame⟩ := noted_read h
    obtain ⟨hlists, hcontexts⟩ := hsame hspace
    rw [if_neg hspace, Access.run_bind]
    generalize (read ctx reference).run.run m = ended at hnoted hlists hcontexts ⊢
    obtain ⟨fault | current, m'⟩ := ended
    · exact hnoted
    · have hname : Reference.name m'.lists (m'.context ctx) reference = .ok name := by
        unfold context
        rw [hlists, hcontexts]
        exact h
      dsimp only at hnoted ⊢
      split
      · exact hnoted.again (noted_assign hname value)
      · refine holds_ofExcept_bind (P := Noted m (Namespace.of reference) name) hnoted fun sum => ?_
        exact hnoted.again (noted_assign hname sum)

theorem after_isSet (m : Memory) (ctx : Nat) (reference : String) :
    (Use.isSet ctx reference).after m = (Use.read ctx reference).after m := by
  unfold Use.after isSet
  dsimp only
  rw [Access.run_bind]
  generalize (read ctx reference).run.run m = ended
  obtain ⟨fault | value, m'⟩ := ended <;> rfl

theorem name_of_resolve? (h : m.resolve? ctx reference = some (space, name)) :
    Reference.name m.lists (m.context ctx) reference = .ok name ∧ Namespace.of reference = space := by
  unfold resolve? at h
  split at h
  · rename_i hname
    cases h
    exact ⟨hname, rfl⟩
  · cases h

theorem noted_of_accessed {use : Use} (h : use.accessed? m = some (space, name)) :
    Noted m space name (use.after m) := by
  cases use with
  | read ctx reference =>
    change m.resolve? ctx reference = some (space, name) at h
    obtain ⟨hname, rfl⟩ := name_of_resolve? h
    exact (noted_read hname).1
  | isSet ctx reference =>
    change m.resolve? ctx reference = some (space, name) at h
    obtain ⟨hname, rfl⟩ := name_of_resolve? h
    rw [after_isSet]
    exact (noted_read hname).1
  | assign ctx reference value =>
    change m.resolve? ctx reference = some (space, name) at h
    obtain ⟨hname, rfl⟩ := name_of_resolve? h
    exact noted_assign hname value
  | increase ctx reference value =>
    change m.resolve? ctx reference = some (space, name) at h
    obtain ⟨hname, rfl⟩ := name_of_resolve? h
    exact noted_increase hname value
  | remove ctx reference => cases h
  | clear space owner => cases h
  | reap => cases h

/-- A variable was removed, and what was noted under its name with it. -/
structure Dropped (m : Memory) (space : Namespace) (name : String) (m' : Memory) : Prop where
  accesses : m'.store.accesses.get? = Function.update m.store.accesses.get? name none
  ephemeral : m'.store.ephemeral.get? = if space = .ephemeral
    then Function.update m.store.ephemeral.get? name none else m.store.ephemeral.get?
  time : m'.storeTime = m.storeTime

theorem removeOwned_keeps (s : Store) (owner name : String) :
    (removeOwned s owner name).1.accesses = s.accesses ∧
      (removeOwned s owner name).1.ephemeral = s.ephemeral := by
  unfold removeOwned
  split
  · exact ⟨rfl, rfl⟩
  · split
    · dsimp only
      split <;> exact ⟨rfl, rfl⟩
    · exact ⟨rfl, rfl⟩

theorem dropped_of_forgotten (hspace : space ≠ .ephemeral)
    (haccesses : m'.store.accesses = m.store.accesses.erase name)
    (hephemeral : m'.store.ephemeral = m.store.ephemeral) (htime : m'.storeTime = m.storeTime) :
    Dropped m space name m' where
  accesses := by rw [haccesses, Dict.get?_erase]
  ephemeral := by rw [hephemeral, if_neg hspace]
  time := htime

theorem dropped_of_removed {use : Use} (h : use.removed? m = some (space, name)) :
    Dropped m space name (use.after m) := by
  cases use with
  | remove ctx reference =>
    change m.resolve? ctx reference = some (space, name) at h
    obtain ⟨hname, rfl⟩ := name_of_resolve? h
    unfold Use.after
    dsimp only
    unfold remove
    rw [run_nameOf_bind hname, Access.run_bind_ok (Access.run_modify _ m)]
    generalize Namespace.of reference = space
    cases space with
    | ephemeral => exact ⟨Dict.get?_erase _ _, Dict.get?_erase _ _, rfl⟩
    | owner =>
      refine holds_ofExcept_bind (P := Dropped m .owner name) ?_ fun owner => ?_
      · exact dropped_of_forgotten (by decide) rfl rfl rfl
      · refine dropped_of_forgotten (by decide) ?_ ?_ rfl
        · exact (removeOwned_keeps _ owner name).1
        · exact (removeOwned_keeps _ owner name).2
    | list | global | «local» => exact dropped_of_forgotten (by decide) rfl rfl rfl
  | _ => cases h

/-- Some notes and some ephemeral variables are gone, but none whose note was for an ephemeral variable and
is gone is left. -/
structure Thinned (m m' : Memory) : Prop where
  accesses : ∀ name note, m'.store.accesses.get? name = some note →
    m.store.accesses.get? name = some note
  ephemeral : ∀ name value, m'.store.ephemeral.get? name = some value →
    m.store.ephemeral.get? name = some value ∧ ∀ time,
      m.store.accesses.get? name = some ⟨time, .ephemeral⟩ →
      m'.store.accesses.get? name = some ⟨time, .ephemeral⟩
  time : m'.storeTime = m.storeTime

theorem Untouched.thinned (h : Untouched m m') : Thinned m m' where
  accesses name note hnote := by rwa [← h.accesses]
  ephemeral name value hvalue := by
    rw [h.accesses, ← h.ephemeral]
    exact ⟨hvalue, fun _ => id⟩
  time := h.time

theorem thinned_of_no_ephemeral (hempty : m'.store.ephemeral = {})
    (haccesses : m'.store.accesses = m.store.accesses ∨ m'.store.accesses = {})
    (htime : m'.storeTime = m.storeTime) : Thinned m m' where
  accesses name note hnote := by
    rcases haccesses with hsame | hnone
    · rwa [← hsame]
    · rw [hnone] at hnote
      cases hnote
  ephemeral name value hvalue := by
    rw [hempty] at hvalue
    cases hvalue
  time := htime

theorem thinned_clear (m : Memory) (space : Option Namespace) (owner : Option String) :
    Thinned m ((Use.clear space owner).after m) := by
  cases space with
  | none => exact thinned_of_no_ephemeral rfl (.inr rfl) rfl
  | some space =>
    cases space with
    | ephemeral => exact thinned_of_no_ephemeral rfl (.inl rfl) rfl
    | _ => exact Untouched.thinned ⟨rfl, rfl, rfl⟩

end

/-! ## The reaper -/

/-- The time before which an access is stale. -/
def cutoff (m : Memory) : Float := m.storeTime - m.store.retention

/-- What is noted under a name is a stale access to an ephemeral variable. -/
def Stale (m : Memory) (name : String) : Prop :=
  ∃ time, m.store.accesses.get? name = some ⟨time, .ephemeral⟩ ∧ ¬ m.cutoff ≤ time

section

variable {m : Memory}

theorem get?_accesses_reap (m : Memory) (name : String) :
    m.reap.1.store.accesses.get? name =
      (m.store.accesses.get? name).filter fun note => decide (m.cutoff ≤ note.time) := by
  calc m.reap.1.store.accesses.get? name
      = (m.store.accesses.filter fun _ note => !!decide (m.cutoff ≤ note.time)).get? name := rfl
    _ = (m.store.accesses.get? name).filter fun note => !!decide (m.cutoff ≤ note.time) :=
        Dict.get?_filter _ _ name
    _ = (m.store.accesses.get? name).filter fun note => decide (m.cutoff ≤ note.time) := by
        simp only [Bool.not_not]

/-- The stale accesses to ephemeral variables. -/
def goneAccesses (m : Memory) : Dict String LastAccess :=
  (m.store.accesses.filter fun _ note => !decide (m.cutoff ≤ note.time)).filter
    fun _ note => note.space == .ephemeral

theorem contains_goneAccesses_iff (m : Memory) (name : String) :
    m.goneAccesses.contains name = true ↔ m.Stale name := by
  unfold Dict.contains goneAccesses Stale
  rw [Dict.get?_filter, Dict.get?_filter]
  cases hnote : m.store.accesses.get? name with
  | none => simp
  | some note =>
    obtain ⟨time, space⟩ := note
    by_cases hstale : m.cutoff ≤ time
    · simp [hstale]
    · by_cases hspace : space = .ephemeral
      · simp [hstale, hspace]
      · simp [hstale, hspace]

theorem get?_ephemeral_reap (m : Memory) (name : String) :
    m.reap.1.store.ephemeral.get? name =
      (m.store.ephemeral.get? name).filter fun _ => !m.goneAccesses.contains name :=
  Dict.get?_filter _ (fun name _ => !m.goneAccesses.contains name) name

theorem reap_of_stale {name : String} (hstale : m.Stale name) :
    m.reap.1.store.ephemeral.get? name = none := by
  rw [get?_ephemeral_reap, (contains_goneAccesses_iff m name).2 hstale]
  cases m.store.ephemeral.get? name <;> rfl

theorem reap_of_not_stale {name : String} (hstale : ¬ m.Stale name) :
    m.reap.1.store.ephemeral.get? name = m.store.ephemeral.get? name := by
  have hgone : m.goneAccesses.contains name = false := by
    rw [← Bool.not_eq_true, contains_goneAccesses_iff]
    exact hstale
  rw [get?_ephemeral_reap, hgone]
  cases m.store.ephemeral.get? name <;> rfl

theorem thinned_reap (m : Memory) : Thinned m (Use.reap.after m) where
  accesses name note hnote := by
    change m.reap.1.store.accesses.get? name = some note at hnote
    rw [get?_accesses_reap] at hnote
    exact (Option.filter_eq_some_iff.1 hnote).1
  ephemeral name value hvalue := by
    change m.reap.1.store.ephemeral.get? name = some value at hvalue
    have hfresh : ¬ m.Stale name := by
      intro hstale
      rw [reap_of_stale hstale] at hvalue
      cases hvalue
    rw [reap_of_not_stale hfresh] at hvalue
    refine ⟨hvalue, fun time hnote => ?_⟩
    show m.reap.1.store.accesses.get? name = _
    rw [get?_accesses_reap, hnote]
    have hle : m.cutoff ≤ time := by
      by_contra hle
      exact hfresh ⟨time, hnote, hle⟩
    simp [hle]
  time := rfl

end

/-! ## What the notes say about the past -/

theorem run_nameOf_bind_error {α : Type} {m : Memory} {ctx : Nat} {reference : String}
    (h : m.resolve? ctx reference = none) (next : String → Access α) :
    ∃ fault, (nameOf ctx reference >>= next).run.run m = (.error fault, m) := by
  unfold resolve? at h
  rw [Access.run_bind, run_nameOf]
  cases hname : Reference.name m.lists (m.context ctx) reference with
  | ok name => simp [hname] at h
  | error fault => exact ⟨fault, rfl⟩

theorem thinned_of_neither {m : Memory} {use : Use} (haccessed : use.accessed? m = none)
    (hremoved : use.removed? m = none) : Thinned m (use.after m) := by
  -- a use that accesses and removes nothing for want of a name leaves the memory as it is
  have hfails : ∀ {α : Type} {ctx : Nat} {reference : String} (next : String → Access α),
      m.resolve? ctx reference = none →
      Thinned m ((nameOf ctx reference >>= next).run.run m).2 := by
    intro α ctx reference next hresolve
    obtain ⟨fault, hrun⟩ := run_nameOf_bind_error hresolve next
    rw [hrun]
    exact (untouched_refl m).thinned
  cases use with
  | read ctx reference => exact hfails _ haccessed
  | isSet ctx reference =>
    rw [after_isSet]
    exact hfails _ haccessed
  | assign ctx reference value => exact hfails _ haccessed
  | increase ctx reference value =>
    unfold Use.after increase
    dsimp only
    change m.resolve? ctx reference = none at haccessed
    split
    · exact hfails _ haccessed
    · obtain ⟨fault, hrun⟩ : ∃ fault, (read ctx reference).run.run m = (.error fault, m) :=
        run_nameOf_bind_error haccessed _
      rw [Access.run_bind_error hrun]
      exact (untouched_refl m).thinned
  | remove ctx reference => exact hfails _ hremoved
  | clear space owner => exact thinned_clear m space owner
  | reap => exact thinned_reap m

theorem after_cases (m : Memory) (use : Use) :
    (∃ space name, use.accessed? m = some (space, name) ∧ use.removed? m = none ∧
      Noted m space name (use.after m)) ∨
    (∃ space name, use.accessed? m = none ∧ use.removed? m = some (space, name) ∧
      Dropped m space name (use.after m)) ∨
    (use.accessed? m = none ∧ use.removed? m = none ∧ Thinned m (use.after m)) := by
  cases haccessed : use.accessed? m with
  | some found =>
    obtain ⟨space, name⟩ := found
    have hnone : use.removed? m = none := by
      cases use with
      | remove ctx reference => cases haccessed
      | _ => rfl
    exact .inl ⟨space, name, rfl, hnone, noted_of_accessed haccessed⟩
  | none =>
    cases hremoved : use.removed? m with
    | some found =>
      obtain ⟨space, name⟩ := found
      exact .inr (.inl ⟨space, name, rfl, rfl, dropped_of_removed hremoved⟩)
    | none => exact .inr (.inr ⟨rfl, rfl, thinned_of_neither haccessed hremoved⟩)

section

variable {past : List (Memory × Use)} {m m' : Memory} {name : String} {entry : Memory × Use}

theorem lastAccess?_of_accesses (h : accesses name entry = true) :
    lastAccess? (entry :: past) name = some entry.1.storeTime := by
  simp [lastAccess?, h]

theorem lastAccess?_of_not_accesses (h : accesses name entry = false) :
    lastAccess? (entry :: past) name = lastAccess? past name := by
  simp [lastAccess?, h]

theorem overtaken_of_not (h : accesses name entry = false) (h' : crosses name entry = false) :
    overtaken name (entry :: past) = overtaken name past := by
  simp [overtaken, h, h']

theorem overtaken_of_crosses (h : crosses name entry = true) :
    overtaken name (entry :: past) = true := by
  simp [overtaken, h]

theorem accesses_iff {use : Use} :
    accesses name (m, use) = true ↔ use.accessed? m = some (.ephemeral, name) :=
  beq_iff_eq

theorem crosses_iff {use : Use} :
    crosses name (m, use) = true ↔
      (∃ space, use.accessed? m = some (space, name) ∧ space ≠ .ephemeral ∧ space ≠ .local) ∨
      ∃ space, use.removed? m = some (space, name) ∧ space ≠ .ephemeral := by
  unfold crosses
  dsimp only
  rw [Bool.or_eq_true]
  refine or_congr ?_ ?_
  · cases use.accessed? m with
    | none => simp
    | some found =>
      obtain ⟨space, other⟩ := found
      simp only [Bool.and_eq_true, beq_iff_eq, bne_iff_ne, Option.some.injEq, Prod.mk.injEq]
      grind
  · cases use.removed? m with
    | none => simp
    | some found =>
      obtain ⟨space, other⟩ := found
      simp only [Bool.and_eq_true, beq_iff_eq, bne_iff_ne, Option.some.injEq, Prod.mk.injEq]
      grind

/-- How the notes and the ephemeral variables come from the past. -/
structure Faithful (past : List (Memory × Use)) (m : Memory) : Prop where
  clock : m.storeTime.isNaN = false
  times : ∀ entry ∈ past, entry.1.storeTime ≤ m.storeTime
  ordered : past.Pairwise fun later earlier => earlier.1.storeTime ≤ later.1.storeTime
  /-- A note of an access to an ephemeral variable is of the last one. -/
  note : ∀ name time, m.store.accesses.get? name = some ⟨time, .ephemeral⟩ →
    lastAccess? past name = some time ∧ overtaken name past = false
  /-- An ephemeral variable has its note, if that was not overtaken. -/
  kept : ∀ name value, m.store.ephemeral.get? name = some value →
    overtaken name past = true ∨ ∃ time, m.store.accesses.get? name = some ⟨time, .ephemeral⟩

/-- What the past tells about a name that a use neither accesses nor crosses is what it told before. -/
theorem told_of_not (past : List (Memory × Use)) {use : Use} (h : ¬ accesses name (m, use) = true)
    (h' : ¬ crosses name (m, use) = true) :
    lastAccess? ((m, use) :: past) name = lastAccess? past name ∧
      overtaken name ((m, use) :: past) = overtaken name past := by
  rw [Bool.not_eq_true] at h h'
  exact ⟨lastAccess?_of_not_accesses h, overtaken_of_not h h'⟩

/-- What a use leaves to be shown: how it changes the notes and the ephemeral variables. -/
theorem Faithful.use_of (h : Faithful past m) {use : Use}
    (htime : (use.after m).storeTime = m.storeTime)
    (hnote : ∀ name time, (use.after m).store.accesses.get? name = some ⟨time, .ephemeral⟩ →
      lastAccess? ((m, use) :: past) name = some time ∧ overtaken name ((m, use) :: past) = false)
    (hkept : ∀ name value, (use.after m).store.ephemeral.get? name = some value →
      overtaken name ((m, use) :: past) = true ∨
        ∃ time, (use.after m).store.accesses.get? name = some ⟨time, .ephemeral⟩) :
    Faithful ((m, use) :: past) (use.after m) where
  clock := by rw [htime, h.clock]
  times entry hentry := by
    rw [htime]
    rcases List.mem_cons.1 hentry with rfl | hpast
    · exact FloatOrder.le_refl h.clock
    · exact h.times entry hpast
  ordered := List.pairwise_cons.2 ⟨h.times, h.ordered⟩
  note := hnote
  kept := hkept

theorem Faithful.use_noted (h : Faithful past m) {use : Use} {space : Namespace}
    (haccessed : use.accessed? m = some (space, name)) (hremoved : use.removed? m = none)
    (hnoted : Noted m space name (use.after m)) : Faithful ((m, use) :: past) (use.after m) := by
  have haccesses : ∀ other, accesses other (m, use) = true ↔ space = .ephemeral ∧ other = name := by
    intro other
    rw [accesses_iff, haccessed]
    grind
  have hcrosses : ∀ other, crosses other (m, use) = true ↔
      other = name ∧ space ≠ .ephemeral ∧ space ≠ .local := by
    intro other
    rw [crosses_iff, haccessed, hremoved]
    grind
  have hget : ∀ other, (use.after m).store.accesses.get? other = if space = .local
      then m.store.accesses.get? other
      else if other = name then some ⟨m.storeTime, space⟩ else m.store.accesses.get? other := by
    intro other
    rw [hnoted.accesses]
    split
    · rfl
    · exact Function.update_apply _ _ _ _
  refine h.use_of hnoted.time ?_ ?_
  · intro other time hnote
    rw [hget] at hnote
    by_cases hfresh : space ≠ .local ∧ other = name
    · obtain ⟨hlocal, rfl⟩ := hfresh
      simp only [if_neg hlocal, if_true, Option.some.injEq, LastAccess.mk.injEq] at hnote
      obtain ⟨rfl, rfl⟩ := hnote
      have hown : accesses other (m, use) = true := (haccesses other).2 ⟨rfl, rfl⟩
      have hcross : crosses other (m, use) = false := by
        rw [← Bool.not_eq_true, hcrosses]
        exact fun hc => hc.2.1 rfl
      exact ⟨lastAccess?_of_accesses hown, by simp [overtaken, hown, hcross]⟩
    · have hold : m.store.accesses.get? other = some ⟨time, .ephemeral⟩ := by grind
      have hnot : ¬ accesses other (m, use) = true := by
        rw [haccesses]
        grind
      have hcross : ¬ crosses other (m, use) = true := by
        rw [hcrosses]
        grind
      obtain ⟨hlast, hover⟩ := told_of_not past hnot hcross
      rw [hlast, hover]
      exact h.note other time hold
  · intro other value hvalue
    by_cases hown : space = .ephemeral ∧ other = name
    · obtain ⟨rfl, rfl⟩ := hown
      exact .inr ⟨m.storeTime, by simp [hget]⟩
    · rw [hnoted.ephemeral other (by grind)] at hvalue
      by_cases hcross : crosses other (m, use) = true
      · exact .inl (overtaken_of_crosses hcross)
      · obtain ⟨-, hover⟩ := told_of_not past (mt (haccesses other).1 hown) hcross
        have hsame : (use.after m).store.accesses.get? other = m.store.accesses.get? other := by
          rw [hcrosses] at hcross
          rw [hget]
          grind
        rw [hover, hsame]
        exact h.kept other value hvalue

theorem Faithful.use_dropped (h : Faithful past m) {use : Use} {space : Namespace}
    (haccessed : use.accessed? m = none) (hremoved : use.removed? m = some (space, name))
    (hdropped : Dropped m space name (use.after m)) : Faithful ((m, use) :: past) (use.after m) := by
  have haccesses : ∀ other, ¬ accesses other (m, use) = true := by
    intro other
    rw [accesses_iff, haccessed]
    exact nofun
  have hcrosses : ∀ other, crosses other (m, use) = true ↔ other = name ∧ space ≠ .ephemeral := by
    intro other
    rw [crosses_iff, haccessed, hremoved]
    grind
  have hget : ∀ other, other ≠ name →
      (use.after m).store.accesses.get? other = m.store.accesses.get? other := by
    intro other hne
    rw [hdropped.accesses, Function.update_of_ne hne]
  refine h.use_of hdropped.time ?_ ?_
  · intro other time hnote
    have hne : other ≠ name := by
      rintro rfl
      rw [hdropped.accesses, Function.update_self] at hnote
      cases hnote
    rw [hget other hne] at hnote
    obtain ⟨hlast, hover⟩ := told_of_not past (haccesses other) fun hcross =>
      hne ((hcrosses other).1 hcross).1
    rw [hlast, hover]
    exact h.note other time hnote
  · intro other value hvalue
    by_cases hcross : crosses other (m, use) = true
    · exact .inl (overtaken_of_crosses hcross)
    · obtain ⟨-, hover⟩ := told_of_not past (haccesses other) hcross
      have hne : other ≠ name := by
        rintro rfl
        have hspace : space = .ephemeral := by
          rw [hcrosses] at hcross
          grind
        rw [hdropped.ephemeral, if_pos hspace, Function.update_self] at hvalue
        cases hvalue
      have hold : m.store.ephemeral.get? other = some value := by
        rw [← hvalue, hdropped.ephemeral]
        split
        · rw [Function.update_of_ne hne]
        · rfl
      rw [hover, hget other hne]
      exact h.kept other value hold

theorem Faithful.use_thinned (h : Faithful past m) {use : Use}
    (haccessed : use.accessed? m = none) (hremoved : use.removed? m = none)
    (hthinned : Thinned m (use.after m)) : Faithful ((m, use) :: past) (use.after m) := by
  have htold : ∀ other, lastAccess? ((m, use) :: past) other = lastAccess? past other ∧
      overtaken other ((m, use) :: past) = overtaken other past := by
    intro other
    refine told_of_not past ?_ ?_
    · rw [accesses_iff, haccessed]
      exact nofun
    · rw [crosses_iff, haccessed, hremoved]
      grind
  refine h.use_of hthinned.time ?_ ?_
  · intro other time hnote
    rw [(htold other).1, (htold other).2]
    exact h.note other time (hthinned.accesses other _ hnote)
  · intro other value hvalue
    obtain ⟨hold, hkeeps⟩ := hthinned.ephemeral other value hvalue
    rw [(htold other).2]
    rcases h.kept other value hold with hover | ⟨time, hnote⟩
    · exact .inl hover
    · exact .inr ⟨time, hkeeps time hnote⟩

theorem Faithful.use (h : Faithful past m) (use : Use) : Faithful ((m, use) :: past) (use.after m) := by
  rcases after_cases m use with ⟨space, name, haccessed, hremoved, hnoted⟩ |
    ⟨space, name, haccessed, hremoved, hdropped⟩ | ⟨haccessed, hremoved, hthinned⟩
  · exact h.use_noted haccessed hremoved hnoted
  · exact h.use_dropped haccessed hremoved hdropped
  · exact h.use_thinned haccessed hremoved hthinned

theorem Faithful.wait (h : Faithful past m) (hstore : m'.store = m.store)
    (hclock : m.storeTime ≤ m'.storeTime) : Faithful past m' where
  clock := (FloatOrder.le_iff.1 hclock).2.1
  times entry hentry := FloatOrder.le_trans (h.times entry hentry) hclock
  ordered := h.ordered
  note name time := by
    rw [hstore]
    exact h.note name time
  kept name value := by
    rw [hstore]
    exact h.kept name value

theorem faithful_start (hstore : m.store = { retention := m.store.retention })
    (hclock : m.storeTime.isNaN = false) : Faithful [] m where
  clock := hclock
  times := nofun
  ordered := .nil
  note name time hnote := by
    rw [hstore] at hnote
    cases hnote
  kept name value hvalue := by
    rw [hstore] at hvalue
    cases hvalue

theorem Past.faithful (h : Past past m) : Faithful past m := by
  induction h with
  | start hstore hclock => exact faithful_start hstore hclock
  | wait _ hstore hclock ih => exact ih.wait hstore hclock
  | use _ use ih => exact ih.use use

theorem mem_of_lastAccess? {time : Float} (h : lastAccess? past name = some time) :
    ∃ entry ∈ past, accesses name entry = true ∧ entry.1.storeTime = time := by
  obtain ⟨entry, hfound, htime⟩ := Option.map_eq_some_iff.1 h
  exact ⟨entry, List.mem_of_find?_eq_some hfound, List.find?_some hfound, htime⟩

theorem Faithful.le_lastAccess? (h : Faithful past m) {time : Float}
    (hlast : lastAccess? past name = some time) (hentry : entry ∈ past)
    (haccess : accesses name entry = true) : entry.1.storeTime ≤ time := by
  obtain ⟨last, hfound, rfl⟩ := Option.map_eq_some_iff.1 hlast
  obtain ⟨-, later, earlier, rfl, hlater⟩ := List.find?_eq_some_iff_append.1 hfound
  have hnot : entry ∉ later := by
    intro hmem
    have := hlater entry hmem
    simp [haccess] at this
  rcases List.mem_cons.1 ((List.mem_append.1 hentry).resolve_left hnot) with rfl | hearlier
  · exact FloatOrder.le_refl (FloatOrder.le_iff.1 (h.times entry hentry)).1
  · exact List.rel_of_pairwise_cons (List.pairwise_append.1 h.ordered).2.1 hearlier

/-- Of the ephemeral variables those are left whose last access is in the retention window, and those whose
name was accessed or removed in another namespace since, however old the last access is. -/
theorem reap_keeps_iff (h : Past past m) (name : String) :
    (m.reap.1.store.ephemeral.get? name).isSome = true ↔
      (m.store.ephemeral.get? name).isSome = true ∧
        ((∃ entry ∈ past, accesses name entry = true ∧ m.cutoff ≤ entry.1.storeTime) ∨
          overtaken name past = true) := by
  have hfaithful := h.faithful
  constructor
  · intro hleft
    have hfresh : ¬ m.Stale name := by
      intro hstale
      rw [reap_of_stale hstale] at hleft
      cases hleft
    rw [reap_of_not_stale hfresh] at hleft
    refine ⟨hleft, ?_⟩
    obtain ⟨value, hvalue⟩ := Option.isSome_iff_exists.1 hleft
    rcases hfaithful.kept name value hvalue with hover | ⟨time, hnote⟩
    · exact .inr hover
    · obtain ⟨entry, hentry, haccess, rfl⟩ := mem_of_lastAccess? (hfaithful.note name time hnote).1
      refine .inl ⟨entry, hentry, haccess, ?_⟩
      by_contra hold
      exact hfresh ⟨_, hnote, hold⟩
  · rintro ⟨hset, hreason⟩
    rw [reap_of_not_stale]
    · exact hset
    · rintro ⟨time, hnote, hold⟩
      obtain ⟨hlast, hover⟩ := hfaithful.note name time hnote
      rcases hreason with ⟨entry, hentry, haccess, hrecent⟩ | hovertaken
      · exact hold (FloatOrder.le_trans hrecent (hfaithful.le_lastAccess? hlast hentry haccess))
      · rw [hover] at hovertaken
        cases hovertaken

/-- An empty store, and a context whose local variable names an ephemeral variable. -/
def unused : Memory where
  contexts := { cells := #[{ locals := Dict.empty.put "k" (.text "_x") }] }
  store := { retention := 60.0 }

/-- The memory an hour later. -/
def anHourLater (m : Memory) : Memory := { m with clock := m.clock + 3600.0 }

theorem Past.anHourLater (h : Past past m) (hclock : m.storeTime ≤ m.anHourLater.storeTime) :
    Past past m.anHourLater :=
  h.wait rfl hclock

theorem past_unused : Past [] unused := .start rfl (by decide +kernel)

/-- A global variable has the name of an ephemeral one: asking for it keeps the other for ever. -/
theorem reap_keeps_overtaken :
    ∃ past m, Past past m ∧ overtaken "_x" past = true ∧
      (∀ entry ∈ past, accesses "_x" entry = true → ¬ m.cutoff ≤ entry.1.storeTime) ∧
      (m.reap.1.store.ephemeral.get? "_x").isSome = true := by
  have hpast := (past_unused.use (.assign 0 "\x7b_x\x7d" (.int 1))).use (.read 0 "\x7b%k%\x7d")
  have hlater := hpast.anHourLater (by decide +kernel)
  refine ⟨_, _, hlater, by decide +kernel, by decide +kernel, ?_⟩
  exact (reap_keeps_iff hlater "_x").2 ⟨by decide +kernel, .inr (by decide +kernel)⟩

theorem size_forgotten (m : Memory) :
    m.reap.2 = (m.store.accesses.keys.filter fun name =>
      !m.reap.1.store.accesses.contains name).length := by
  have hstale : ∀ entry ∈ m.store.accesses.entries,
      (!m.reap.1.store.accesses.contains entry.1) = !decide (m.cutoff ≤ entry.2.time) := by
    intro entry hentry
    unfold Dict.contains
    rw [get?_accesses_reap, Dict.get?_of_mem hentry]
    by_cases hle : m.cutoff ≤ entry.2.time
    · simp [hle]
    · simp [hle]
  calc m.reap.2
      = (m.store.accesses.entries.filter fun entry => !decide (m.cutoff ≤ entry.2.time)).length := rfl
    _ = (m.store.accesses.entries.filter fun entry =>
          !m.reap.1.store.accesses.contains entry.1).length := by
        rw [List.filter_congr hstale]
    _ = _ := by
        unfold Dict.keys
        rw [List.filter_map, List.length_map]
        rfl

/-- An ephemeral variable is forgotten only if its last access is before the retention window; no other
variable is touched; of the notes those before the window are dropped, and counted. -/
theorem reap_forgets_stale (h : Past past m) :
    (∀ name, (m.store.ephemeral.get? name).isSome = true →
      m.reap.1.store.ephemeral.get? name = none →
      ∃ time, lastAccess? past name = some time ∧ ¬ m.cutoff ≤ time ∧
        (m.storeTime.isFinite = true → m.store.retention.isNaN = false → time < m.cutoff)) ∧
    (∀ name value, m.reap.1.store.ephemeral.get? name = some value →
      m.store.ephemeral.get? name = some value) ∧
    m.reap.1.store.globals = m.store.globals ∧ m.reap.1.store.owners = m.store.owners ∧
    m.reap.1.contexts = m.contexts ∧ m.reap.1.lists = m.lists ∧
    (∀ name note, m.reap.1.store.accesses.get? name = some note ↔
      m.store.accesses.get? name = some note ∧ m.cutoff ≤ note.time) ∧
    m.store.accesses.keys.Nodup ∧
    m.reap.2 = (m.store.accesses.keys.filter fun name =>
      !m.reap.1.store.accesses.contains name).length := by
  have hfaithful := h.faithful
  refine ⟨?_, ?_, rfl, rfl, rfl, rfl, ?_, m.store.accesses.nodup_keys, size_forgotten m⟩
  · intro name hset hgone
    have hstale : m.Stale name := by
      by_contra hfresh
      rw [← reap_of_not_stale hfresh, hgone] at hset
      cases hset
    obtain ⟨time, hnote, hold⟩ := hstale
    obtain ⟨hlast, -⟩ := hfaithful.note name time hnote
    refine ⟨time, hlast, hold, fun hfinite hretention => ?_⟩
    obtain ⟨entry, hentry, -, rfl⟩ := mem_of_lastAccess? hlast
    have htime : entry.1.storeTime.isNaN = false := (FloatOrder.le_iff.1 (hfaithful.times entry hentry)).1
    exact FloatOrder.lt_of_not_le (FloatOrder.isNaN_sub hfinite hretention) htime hold
  · intro name value hvalue
    exact ((thinned_reap m).ephemeral name value hvalue).1
  · intro name note
    rw [get?_accesses_reap, Option.filter_eq_some_iff, decide_eq_true_iff]

/-- A variable that was written and not accessed for an hour is forgotten, and its note with it. -/
theorem reap_forgets_unread :
    ∃ past m, Past past m ∧ (m.store.ephemeral.get? "_x").isSome = true ∧
      m.reap.1.store.ephemeral.get? "_x" = none ∧ m.reap.2 = 1 ∧
      ∃ time, lastAccess? past "_x" = some time ∧ time < m.cutoff := by
  have hpast := past_unused.use (.assign 0 "\x7b_x\x7d" (.int 1))
  have hlater := hpast.anHourLater (by decide +kernel)
  obtain ⟨hforgets, -⟩ := reap_forgets_stale hlater
  obtain ⟨time, hlast, -, hearlier⟩ := hforgets "_x" (by decide +kernel) (by decide +kernel)
  exact ⟨_, _, hlater, by decide +kernel, by decide +kernel, by decide +kernel, time, hlast,
    hearlier (by decide +kernel) (by decide +kernel)⟩

end

end EventScript.Memory
