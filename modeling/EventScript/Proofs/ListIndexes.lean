import EventScript.Proofs.ListSharing
import EventScript.Proofs.Reaping

/-!
The shape of the store.

Lists are made with one item or as copies, grow at the end by the index after the largest one, and lose no
single item; so their indexes count from one without a gap. An owner's map is made with a variable in it and
goes with the last one. This holds after all that scripts and programs around them do with the store, on every
way to a list: from any cell, through any lists in between.

Main definitions:
* `Memory.Numbered`: lists whose indexes are 1, 2, … in this order;
* `Memory.Orderly`: memories in which all lists are numbered and no owner has an empty map;
* `Memory.Lessened`: memories that have lost some variables and nothing else;
* `World.Used`: worlds that come from one with an empty store by runs and uses of the store.

Main facts:
* `Memory.Step.orderly`, `Lessened.orderly`: what one step keeps;
* `World.Used.orderly`: what holds after any number of them;
* `World.Used.store_shape`: lists found from the cells, and the count of the owners.
-/

namespace EventScript

set_option autoImplicit false

/-! ## Parts of dictionaries -/

namespace Dict

variable {κ α : Type} [DecidableEq κ]

/-- A dictionary has what is in another one and nothing more. -/
def Part (d' d : Dict κ α) : Prop := ∀ {key value}, d'.get? key = some value → d.get? key = some value

theorem part_refl (d : Dict κ α) : Part d d := id

theorem part_empty (d : Dict κ α) : Part {} d := nofun

theorem part_filter (d : Dict κ α) (keep : κ → α → Bool) : Part (d.filter keep) d := by
  intro key value h
  rw [get?_filter] at h
  exact (Option.filter_eq_some_iff.1 h).1

theorem part_erase (d : Dict κ α) (key : κ) : Part (d.erase key) d := part_filter d _

end Dict

namespace Memory

/-! ## Numbered lists -/

/-- The indexes of a list are the numbers from one up to its size, in this order. -/
def Numbered (items : ListVar) : Prop :=
  items.keys = (List.range items.size).map fun n : Nat => (n : Int) + 1

theorem nextIndex_of_numbered {items : ListVar} (h : Numbered items) : nextIndex items = items.size + 1 := by
  obtain ⟨hlt, hnext⟩ := isNextIndex_nextIndex items
  rw [h] at hlt hnext
  rcases hnext with ⟨hnil, hone⟩ | hmem
  · have hsize : items.size = 0 := by simpa using hnil
    rw [hone, hsize]
    rfl
  · obtain ⟨n, hn, hindex⟩ := List.mem_map.1 hmem
    have hn : n < items.size := List.mem_range.1 hn
    have hlast : ((items.size - 1 : Nat) : Int) + 1 < nextIndex items :=
      hlt _ (List.mem_map.2 ⟨items.size - 1, List.mem_range.2 (by omega), rfl⟩)
    omega

theorem numbered_put_next {items : ListVar} (h : Numbered items) (value : Value) :
    Numbered (items.put (nextIndex items) value) := by
  have hentries := entries_put_nextIndex items value
  have hkeys : (items.put (nextIndex items) value).keys = items.keys ++ [nextIndex items] := by
    unfold Dict.keys
    rw [hentries, List.map_append]
    rfl
  have hsize : (items.put (nextIndex items) value).size = items.size + 1 := by
    unfold Dict.size
    rw [hentries, List.length_append]
    rfl
  unfold Numbered
  rw [hkeys, hsize, List.range_succ, List.map_append, nextIndex_of_numbered h, h]
  rfl

/-! ## Orderly memories -/

/-- Every list is numbered, and no owner has an empty map. -/
structure Orderly (m : Memory) : Prop where
  numbered : ∀ id, Numbered (m.lists.get id)
  filled : ∀ {owner values}, m.store.owners.get? owner = some values → values.isEmpty = false

section

variable {m m' : Memory} {value : Value}

theorem orderly_of_eq (hm : m.Orderly) (hlists : m'.lists = m.lists)
    (howners : m'.store.owners = m.store.owners) : m'.Orderly where
  numbered := hlists ▸ hm.numbered
  filled := howners ▸ hm.filled

theorem orderly_newList (hm : m.Orderly) {items : ListVar} (h : Numbered items) :
    (m.newList items).Orderly where
  numbered id := by
    change Numbered ((m.lists.push items).get id)
    rcases Nat.lt_trichotomy id m.lists.size with hlt | rfl | hgt
    · rw [Table.get_push_of_lt _ _ hlt]
      exact hm.numbered id
    · rwa [Table.get_push_self]
    · have hsize : (m.lists.push items).size ≤ id := by
        rw [Table.size_push]
        exact hgt
      rw [Table.get_of_size_le hsize]
      rfl
  filled := hm.filled

theorem orderly_putIn (hm : m.Orderly) (value : Value) (cell : Cell) : (m.putIn value cell).Orderly where
  numbered := (putIn_keeps m value cell).1 ▸ hm.numbered
  filled := by
    cases cell with
    | owned owner name =>
      intro other values h
      change (m.store.owners.put owner _).get? other = some values at h
      rw [Dict.get?_put, Function.update_apply] at h
      split at h
      · cases h
        exact Dict.isEmpty_put _ name value
      · exact hm.filled h
    | _ => exact hm.filled

/-- With the last variable of an owner its map goes. -/
theorem orderly_removeOwned (hm : m.Orderly) (owner name : String) :
    (m.takeOut (.owned owner name)).Orderly := by
  unfold takeOut removeOwned
  dsimp only
  split
  · exact hm
  · rename_i values hvalues
    split
    · dsimp only
      split
      · exact ⟨hm.numbered, fun h => hm.filled (Dict.part_erase m.store.owners owner h)⟩
      · rename_i hleft
        refine ⟨hm.numbered, ?_⟩
        intro other left h
        rw [Dict.get?_put, Function.update_apply] at h
        split at h
        · cases h
          exact Bool.eq_false_iff.2 hleft
        · exact hm.filled h
    · exact hm

theorem orderly_takeOut (hm : m.Orderly) (cell : Cell) : (m.takeOut cell).Orderly := by
  cases cell with
  | owned owner name => exact orderly_removeOwned hm owner name
  | ephemeral name | global name => exact ⟨hm.numbered, hm.filled⟩

theorem orderly_append (hm : m.Orderly) (name : String) (value : Value) :
    ((append name value).run.run m).2.Orderly := by
  by_cases h : ∃ id, m.binding (.global name) = some (.list id)
  · obtain ⟨id, hid⟩ := h
    rw [run_append_list hid]
    refine ⟨fun other => ?_, hm.filled⟩
    change Numbered ((m.lists.set id _).get other)
    by_cases hother : other = id
    · subst hother
      by_cases hlt : other < m.lists.size
      · rw [Table.get_set_self _ _ hlt]
        exact numbered_put_next (hm.numbered other) value
      · rw [Table.get_of_size_le (by simpa using hlt)]
        rfl
    · rw [Table.get_set_of_ne _ _ hother]
      exact hm.numbered other
  · rw [run_append_other fun id hid => h ⟨id, hid⟩]
    have hone : Numbered (Dict.empty.put 1 value) := by
      unfold Numbered
      rfl
    exact orderly_putIn (orderly_newList hm hone) (.list m.lists.size) (.global name)

theorem Step.orderly {stores : Memory → Value → Prop} (hm : m.Orderly) (h : Step stores m m') :
    m'.Orderly := by
  cases h with
  | noted accesses => exact orderly_of_eq hm rfl rfl
  | waited time => exact orderly_of_eq hm rfl rfl
  | copied id => exact orderly_newList hm (hm.numbered id)
  | put cell value => exact orderly_putIn hm value cell
  | appended name value => exact orderly_append hm name value
  | removed cell => exact orderly_takeOut hm cell
  | changed ctx change => exact orderly_of_eq hm rfl rfl
  | entered c => exact orderly_of_eq hm rfl rfl

theorem Steps.orderly {stores : Memory → Value → Prop} (hm : m.Orderly) (h : Steps stores m m') :
    m'.Orderly := by
  induction h with
  | refl => exact hm
  | tail _ hstep ih => exact hstep.orderly ih

/-! ## Variables that are dropped -/

/-- A memory from which whole variables were dropped and nothing else. -/
structure Lessened (m m' : Memory) : Prop where
  lists : m'.lists = m.lists
  contexts : m'.contexts = m.contexts
  globals : Dict.Part m'.store.globals m.store.globals
  ephemeral : Dict.Part m'.store.ephemeral m.store.ephemeral
  owners : Dict.Part m'.store.owners m.store.owners

theorem Lessened.orderly (h : Lessened m m') (hm : m.Orderly) : m'.Orderly where
  numbered := h.lists ▸ hm.numbered
  filled hvalues := hm.filled (h.owners hvalues)

theorem Lessened.binding (h : Lessened m m') {cell : Cell} (hvalue : m'.binding cell = some value) :
    m.binding cell = some value := by
  cases cell with
  | ephemeral name => exact h.ephemeral hvalue
  | owned owner name =>
    obtain ⟨values, howner, hname⟩ := Option.bind_eq_some_iff.1 hvalue
    exact Option.bind_eq_some_iff.2 ⟨values, h.owners howner, hname⟩
  | global name => exact h.globals hvalue

theorem Lessened.closed (h : Lessened m m') (hm : m.Closed) : m'.Closed where
  lists := by
    rw [h.lists]
    exact hm.lists
  locals := by
    unfold context
    rw [h.lists, h.contexts]
    exact hm.locals
  cells cell value hvalue := by
    rw [h.lists]
    exact hm.cells cell value (h.binding hvalue)

theorem lessened_clear (m : Memory) (space : Option Namespace) (owner : Option String) :
    Lessened m (m.changeStore fun s => s.clear space owner) := by
  have howners : Dict.Part (m.store.clear (some .owner) owner).owners m.store.owners := by
    cases owner with
    | none => exact Dict.part_empty _
    | some owner => exact Dict.part_erase _ owner
  have hglobals (keep) : Dict.Part (m.store.globals.filter keep) m.store.globals :=
    Dict.part_filter _ keep
  rcases space with _ | space
  · exact ⟨rfl, rfl, Dict.part_empty _, Dict.part_empty _, howners⟩
  · cases space with
    | ephemeral => exact ⟨rfl, rfl, Dict.part_refl _, Dict.part_empty _, Dict.part_refl _⟩
    | owner => exact ⟨rfl, rfl, Dict.part_refl _, Dict.part_refl _, howners⟩
    | list =>
      exact ⟨rfl, rfl, hglobals fun _ value => !value.isList, Dict.part_refl _, Dict.part_refl _⟩
    | global => exact ⟨rfl, rfl, hglobals fun _ value => value.isList, Dict.part_refl _, Dict.part_refl _⟩
    | «local» => exact ⟨rfl, rfl, Dict.part_refl _, Dict.part_refl _, Dict.part_refl _⟩

theorem lessened_reap (m : Memory) : Lessened m m.reap.1 :=
  ⟨rfl, rfl, Dict.part_refl _,
    Dict.part_filter m.store.ephemeral fun name _ => !(goneAccesses m).contains name, Dict.part_refl _⟩

/-! ## Uses of the store -/

/-- What a use hands to the store is no list that is not there. -/
def Use.Fits (m : Memory) : Use → Prop
  | .assign _ _ value | .increase _ _ value => m.lists.Has value
  | _ => True

/-- Access to a variable goes by steps; clearing and reaping drop variables. -/
theorem Use.steps_or_lessened (hclosed : m.Closed) {use : Use} (h : use.Fits m) :
    Steps (fun m value => m.lists.Has value) m (use.after m) ∨ Lessened m (use.after m) := by
  cases use with
  | read ctx reference => exact .inl (goes_read storable_has hclosed ctx reference).1
  | isSet ctx reference =>
    rw [after_isSet]
    exact .inl (goes_read storable_has hclosed ctx reference).1
  | assign ctx reference value => exact .inl (goes_assign storable_has hclosed h fun _ _ => h).1
  | increase ctx reference value => exact .inl (goes_increase storable_has hclosed h fun _ => h).1
  | remove ctx reference => exact .inl (goes_remove storable_has hclosed ctx reference).1
  | clear space owner => exact .inr (lessened_clear m space owner)
  | reap => exact .inr (lessened_reap m)

end

end Memory

/-! ## Runs and uses -/

/-- Worlds that come from one with an empty store, and no lists in any context, by running scripts and using
the store. In between, a context may be cloned, and all but the lists and the store may change. -/
inductive World.Used : World → Prop
  | start {w : World} (hlists : w.memory.lists = {})
      (hstore : w.memory.store = { retention := w.memory.store.retention })
      (hlocals : ∀ ctx name value, (w.memory.context ctx).locals.get? name = some value →
        value.isList = false) : Used w
  | execute {w : World} (host : Host) (config : Config) (script ctx : Nat) (selection : Selection)
      (hw : Used w) : Used (Run.result host (Run.execute config script ctx selection) w).1
  | call {w : World} (host : Host) (config : Config) (script ctx : Nat) (name : String) {values : List Value}
      (hw : Used w) (hvalues : ∀ value ∈ values, w.memory.lists.Has value) :
      Used (Run.result host (Run.callFunction config script ctx name values) w).1
  | use {w : World} (use : Memory.Use) (hw : Used w) (h : use.Fits w.memory) :
      Used (w.changeMemory fun m => use.after m)
  | cloned {w : World} (ctx : Nat) (hw : Used w) : Used (w.changeMemory fun m => m.cloneContext ctx)
  | outside {w w' : World} (hw : Used w) (hlists : w'.memory.lists = w.memory.lists)
      (hstore : w'.memory.store = w.memory.store)
      (hcontexts : ∀ ctx, w'.memory.Has (w'.memory.context ctx)) : Used w'

namespace World

section

variable {w : World}

theorem closed_start (hlists : w.memory.lists = {})
    (hstore : w.memory.store = { retention := w.memory.store.retention })
    (hlocals : ∀ ctx name value, (w.memory.context ctx).locals.get? name = some value →
      value.isList = false) : w.memory.Closed where
  lists := by
    rw [hlists]
    rintro id value ⟨⟩
  locals ctx name value hvalue := Memory.has_of_plain _ (hlocals ctx name value hvalue)
  cells := by
    intro cell value hvalue
    cases cell <;> rw [Memory.binding, hstore] at hvalue <;> cases hvalue

theorem orderly_start (hlists : w.memory.lists = {})
    (hstore : w.memory.store = { retention := w.memory.store.retention }) : w.memory.Orderly := by
  constructor
  · rw [hlists]
    exact fun id => rfl
  · rw [hstore]
    nofun

theorem Used.orderly (h : w.Used) : w.memory.Closed ∧ w.memory.Orderly := by
  have hsteps : ∀ {m m' : Memory}, m.Closed ∧ m.Orderly →
      Memory.Steps (fun m value => m.lists.Has value) m m' → m'.Closed ∧ m'.Orderly :=
    fun hm hsteps => ⟨hsteps.closed Memory.storable_has hm.1, hsteps.orderly hm.2⟩
  have hscript (script : Script) : script.Stores fun m value => m.lists.Has value :=
    fun _ _ => Clause.stores_has _
  induction h with
  | start hlists hstore hlocals =>
    exact ⟨closed_start hlists hstore hlocals, orderly_start hlists hstore⟩
  | execute host config script ctx selection _ ih =>
    exact hsteps ih (Run.goes_execute host config ctx selection Memory.storable_has ih.1 (hscript _))
  | call host config script ctx name _ hvalues ih =>
    exact hsteps ih
      (Run.goes_callFunction host config ctx name Memory.storable_has ih.1 (hscript _) hvalues)
  | use use _ hfits ih =>
    rcases Memory.Use.steps_or_lessened ih.1 hfits with hafter | hafter
    · exact hsteps ih hafter
    · exact ⟨hafter.closed ih.1, hafter.orderly ih.2⟩
  | cloned ctx _ ih => exact hsteps ih (Memory.steps_cloneContext _ _ ctx)
  | outside _ hlists hstore hcontexts ih =>
    refine ⟨⟨hlists ▸ ih.1.lists, hcontexts, fun cell value hvalue => ?_⟩, ?_⟩
    · rw [hlists]
      refine ih.1.cells cell value ?_
      rw [← hvalue]
      cases cell <;> simp only [Memory.binding, hstore]
    · exact Memory.orderly_of_eq ih.2 hlists (by rw [hstore])

/-- Every list that the store leads to is there and numbered, no owner has an empty map, and the statistics
count the owners that have a variable. -/
theorem Used.store_shape (h : w.Used) :
    (∀ cell id, w.memory.Leads cell id → id < w.memory.lists.size ∧ Memory.Numbered (w.memory.lists.get id)) ∧
    (∀ entry ∈ w.memory.store.owners.entries, entry.2.isEmpty = false) ∧
    w.memory.store.statistics.owners =
      {owner | ∃ name value, w.memory.binding (.owned owner name) = some value}.ncard := by
  obtain ⟨hclosed, horderly⟩ := h.orderly
  have hfilled : ∀ entry ∈ w.memory.store.owners.entries, entry.2.isEmpty = false :=
    fun entry hentry => horderly.filled (Dict.get?_of_mem hentry)
  refine ⟨?_, hfilled, ?_⟩
  · rintro cell id ⟨path, hpath⟩
    exact ⟨Lists.has_follow hclosed.lists (Memory.has_valueIn hclosed cell) hpath id rfl,
      horderly.numbered id⟩
  · have howners : {owner | ∃ name value, w.memory.binding (.owned owner name) = some value} =
        w.memory.store.owners.keys.toFinset := by
      ext owner
      rw [List.coe_toFinset, Set.mem_ofPred_eq, Set.mem_ofPred_eq, Dict.mem_keys_iff]
      constructor
      · rintro ⟨name, value, hvalue⟩
        obtain ⟨values, hvalues, -⟩ := Option.bind_eq_some_iff.1 hvalue
        exact ⟨values, hvalues⟩
      · rintro ⟨values, hvalues⟩
        obtain ⟨name, value, hvalue⟩ := Dict.exists_get?_of_not_isEmpty (horderly.filled hvalues)
        exact ⟨name, value, Option.bind_eq_some_iff.2 ⟨values, hvalues, hvalue⟩⟩
    rw [howners, Set.ncard_coe_finset, List.toFinset_card_of_nodup (Dict.nodup_keys _)]
    exact (List.length_map _).symm

end

/-- `add 1 to {x::*}`, then `add {x} to {y::*}`, then `set {coins::%player%} to 5`. -/
def nestingScript : Script where
  name := "nesting"
  source := "add 1 to \x7bx::*\x7d\nadd \x7bx\x7d to \x7by::*\x7d\nset \x7bcoins::%player%\x7d to 5\n"
  statements := [
    ⟨.variableAdd "\x7bx::*\x7d" "1", "add 1 to \x7bx::*\x7d", 1, 0, {}, []⟩,
    ⟨.variableAdd "\x7by::*\x7d" "\x7bx\x7d", "add \x7bx\x7d to \x7by::*\x7d", 2, 0, {}, []⟩,
    ⟨.variableSet "\x7bcoins::%player%\x7d" "5", "set \x7bcoins::%player%\x7d to 5", 3, 0, {}, []⟩]

/-- After this script and one more item for `x`, two steps lead from `y` to a list with two items. -/
theorem store_shape_nested :
    ∃ w : World, w.Used ∧ w.memory.Leads (.global "y") 0 ∧ Memory.Numbered (w.memory.lists.get 0) ∧
      (w.memory.lists.get 0).keys = [1, 2] ∧
      {owner | ∃ name value, w.memory.binding (.owned owner name) = some value}.ncard = 1 := by
  let start : World := { scripts := ⟨#[nestingScript]⟩, memory := { contexts := ⟨#[{}]⟩ } }
  have hstart : start.Used := by
    refine .start rfl rfl ?_
    rintro (_ | ctx) name value ⟨⟩
  have hused := World.Used.use (.increase 0 "\x7bx::*\x7d" (.int 2))
    (hstart.execute (Roster.host {}) {} 0 0 .all) (by rintro id ⟨⟩)
  refine ⟨_, hused, ?_⟩
  have hevaluated :
      let w := (Run.result (Roster.host {}) (Run.execute {} 0 0 .all) start).1.changeMemory fun m =>
        (Memory.Use.increase 0 "\x7bx::*\x7d" (.int 2)).after m
      w.memory.lists.follow (w.memory.valueIn (.global "y")) [1] = some (.list 0) ∧
        (w.memory.lists.get 0).keys = [1, 2] ∧ w.memory.store.statistics.owners = 1 := by
    decide +kernel
  generalize ((Run.result (Roster.host {}) (Run.execute {} 0 0 .all) start).1.changeMemory fun m =>
    (Memory.Use.increase 0 "\x7bx::*\x7d" (.int 2)).after m) = w at hused hevaluated ⊢
  obtain ⟨hpath, hkeys, howners⟩ := hevaluated
  obtain ⟨hlists, -, hcount⟩ := hused.store_shape
  exact ⟨⟨[1], hpath⟩, (hlists _ _ ⟨[1], hpath⟩).2, hkeys, hcount.symm.trans howners⟩

end World

end EventScript
