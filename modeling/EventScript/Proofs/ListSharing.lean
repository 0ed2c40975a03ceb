import EventScript.Proofs.RunSteps

/-!
Lists that variables share.

A value is read element by element along paths of indexes. Putting something at the end of a list changes
what is read from another variable exactly if that variable leads to the list. Scripts bring this about by
storing what a reference hands over. If they store copies only, every list that a variable holds is held by
this variable alone and stands in no list.

Main definitions:
* `Memory.reading`: what is read from a cell along every path;
* `Memory.Leads`, `Memory.Shares`: cells that lead to a list, and to the list of another cell;
* `Memory.Apart`, `Memory.Fresh`: memories in which no list is shared, and values that nothing refers to;
* `World.Reached`: worlds that running scripts can lead to.

Main facts:
* `Memory.reading_append_iff`: what is read from the other cells when something is put at the end of a list;
* `Memory.Step.apart`: storing what nothing refers to keeps lists apart;
* `World.append_spares_iff`: the two together, for all that running scripts can lead to.
-/

namespace EventScript

set_option autoImplicit false

/-! ## Readings -/

/-- What is seen of a value at once: the value itself or, of a list, its indexes. -/
inductive Seen where
  | plain (value : Value)
  | list (indexes : List Int)
deriving DecidableEq, Repr

namespace Lists

def seen (lists : Lists) : Value → Seen
  | .list id => .list (lists.get id).keys
  | value => .plain value

/-- What stands at the end of a path of indexes from a value. -/
def follow (lists : Lists) : Value → List Int → Option Value
  | value, [] => some value
  | .list id, index :: path => ((lists.get id).get? index).bind fun value => lists.follow value path
  | _, _ :: _ => none

end Lists

namespace Memory

/-- What is read from a cell along a path. -/
def reading (m : Memory) (cell : Cell) (path : List Int) : Option Seen :=
  (m.lists.follow (m.valueIn cell) path).map m.lists.seen

/-- A path leads from a cell to a list. -/
def Leads (m : Memory) (cell : Cell) (id : Nat) : Prop :=
  ∃ path, m.lists.follow (m.valueIn cell) path = some (.list id)

/-- A cell leads to the list that another one holds. -/
def Shares (m : Memory) (holder cell : Cell) : Prop :=
  ∃ id, m.binding holder = some (.list id) ∧ m.Leads cell id

end Memory

section

variable {lists lists' : Lists} {value : Value} {id : Nat}

theorem Lists.has_follow (hlists : ∀ id, ∀ value ∈ (lists.get id).values, lists.Has value)
    (hvalue : lists.Has value) {path : List Int} {found : Value}
    (h : lists.follow value path = some found) : lists.Has found := by
  induction path generalizing value with
  | nil =>
    cases h
    exact hvalue
  | cons index path ih =>
    cases value with
    | list id =>
      obtain ⟨item, hitem, hrest⟩ := Option.bind_eq_some_iff.1 h
      exact ih (hlists id item (List.mem_map_of_mem (Dict.mem_of_get? hitem))) hrest
    | _ => cases h

theorem Lists.follow_of_more
    (hmore : ∀ id index item, (lists.get id).get? index = some item → (lists'.get id).get? index = some item)
    {path : List Int} {found : Value} (h : lists.follow value path = some found) :
    lists'.follow value path = some found := by
  induction path generalizing value with
  | nil => exact h
  | cons index path ih =>
    cases value with
    | list id =>
      obtain ⟨item, hitem, hrest⟩ := Option.bind_eq_some_iff.1 h
      exact Option.bind_eq_some_iff.2 ⟨item, hmore id index item hitem, ih hrest⟩
    | _ => cases h

/-- Paths lead where they led before if none leads to the one list that is not the same. -/
theorem Lists.follow_of_apart (hlists : ∀ id, ∀ value ∈ (lists.get id).values, lists.Has value)
    (hsame : ∀ other, other < lists.size → other ≠ id → lists'.get other = lists.get other)
    (hvalue : lists.Has value) (hapart : ∀ path, lists.follow value path ≠ some (.list id))
    (path : List Int) :
    lists'.follow value path = lists.follow value path := by
  induction path generalizing value with
  | nil => rfl
  | cons index path ih =>
    cases value with
    | list other =>
      have hget : lists'.get other = lists.get other := by
        refine hsame other (hvalue other rfl) ?_
        rintro rfl
        exact hapart [] rfl
      simp only [Lists.follow, hget]
      cases hitem : (lists.get other).get? index with
      | none => rfl
      | some item =>
        refine ih (hlists other item (List.mem_map_of_mem (Dict.mem_of_get? hitem))) fun rest hrest => ?_
        refine hapart (index :: rest) ?_
        simp only [Lists.follow, hitem]
        exact hrest
    | _ => rfl

end

/-! ## Something put at the end of a list -/

namespace Memory

section

variable {m m' : Memory} {name : String} {value : Value} {cell : Cell}

theorem valueIn_congr (h : m'.binding cell = m.binding cell) : m'.valueIn cell = m.valueIn cell := by
  unfold valueIn
  rw [h]

theorem reading_of_not_leads (hm : m.Closed) {id : Nat} (hbinding : m'.binding cell = m.binding cell)
    (hsame : ∀ other, other < m.lists.size → other ≠ id → m'.lists.get other = m.lists.get other)
    (hleads : ¬ m.Leads cell id) : m'.reading cell = m.reading cell := by
  have hvalue : m.lists.Has (m.valueIn cell) := has_valueIn hm cell
  have hapart : ∀ path, m.lists.follow (m.valueIn cell) path ≠ some (.list id) :=
    fun path hpath => hleads ⟨path, hpath⟩
  funext path
  unfold reading
  rw [valueIn_congr hbinding, Lists.follow_of_apart hm.lists hsame hvalue hapart]
  cases hfound : m.lists.follow (m.valueIn cell) path with
  | none => rfl
  | some found =>
    cases found with
    | list other =>
      have hne : other ≠ id := by
        rintro rfl
        exact hapart path hfound
      have hlt : other < m.lists.size := Lists.has_follow hm.lists hvalue hfound other rfl
      simp only [Option.map_some, Lists.seen, hsame other hlt hne]
    | _ => rfl

theorem not_leads_of_size_le (hm : m.Closed) {id : Nat} (h : m.lists.size ≤ id) : ¬ m.Leads cell id := by
  rintro ⟨path, hpath⟩
  have hlt := Lists.has_follow hm.lists (has_valueIn hm cell) hpath id rfl
  omega

theorem reading_ne_of_leads {id : Nat} (index : Int) (hbinding : m'.binding cell = m.binding cell)
    (hmore : ∀ id index item, (m.lists.get id).get? index = some item →
      (m'.lists.get id).get? index = some item)
    (hnew : index ∈ (m'.lists.get id).keys) (hold : index ∉ (m.lists.get id).keys)
    (hleads : m.Leads cell id) : m'.reading cell ≠ m.reading cell := by
  obtain ⟨path, hpath⟩ := hleads
  intro hreading
  have hread := congrFun hreading path
  unfold reading at hread
  rw [valueIn_congr hbinding, Lists.follow_of_more hmore hpath, hpath] at hread
  simp only [Option.map_some, Lists.seen, Option.some.injEq, Seen.list.injEq] at hread
  rw [hread] at hnew
  exact hold hnew

/-- Something is put at the end of the list in a cell: the list gets a new index, and all else stays. -/
theorem run_append_held (hm : m.Closed) {id : Nat} (h : m.binding (.global name) = some (.list id))
    (value : Value) :
    ∃ m' index, (append name value).run.run m = (.ok (), m') ∧ m'.binding = m.binding ∧
      index ∉ (m.lists.get id).keys ∧ m'.lists.get id = (m.lists.get id).put index value ∧
      m'.lists.size = m.lists.size ∧ ∀ other, other ≠ id → m'.lists.get other = m.lists.get other := by
  refine ⟨_, nextIndex (m.lists.get id), run_append_list h value, ?_, ?_, ?_, Table.size_set _ _ _, ?_⟩
  · funext cell
    cases cell <;> rfl
  · exact fun hmem => Int.lt_irrefl _ ((isNextIndex_nextIndex _).1 _ hmem)
  · exact Table.get_set_self _ _ (hm.cells _ _ h id rfl)
  · intro other hother
    exact Table.get_set_of_ne _ _ hother

/-- Putting something at the end of a list changes what is read from another cell exactly if this cell leads
to the list. -/
theorem reading_append_iff (hm : m.Closed) (hne : cell ≠ .global name) (value : Value) :
    ((append name value).run.run m).2.reading cell = m.reading cell ↔ ¬ m.Shares (.global name) cell := by
  by_cases h : ∃ id, m.binding (.global name) = some (.list id)
  · obtain ⟨id, hid⟩ := h
    have hshares : m.Shares (.global name) cell ↔ m.Leads cell id := by
      unfold Shares
      rw [hid]
      simp
    obtain ⟨m', index, hrun, hbinding, hfresh, hget, -, hother⟩ := run_append_held hm hid value
    rw [hrun, hshares]
    constructor
    · intro hsame hleads
      refine reading_ne_of_leads index (congrFun hbinding cell) ?_ ?_ hfresh hleads hsame
      · intro other i item hitem
        by_cases heq : other = id
        · subst heq
          have hi : i ≠ index := by
            rintro rfl
            rw [Dict.get?_eq_none_iff.2 hfresh] at hitem
            cases hitem
          rw [hget, Dict.get?_put_of_ne _ _ hi, hitem]
        · rw [hother other heq, hitem]
      · rw [hget]
        exact Dict.mem_keys_put.2 (.inl rfl)
    · exact reading_of_not_leads hm (congrFun hbinding cell) fun other _ => hother other
  · have hnone : ∀ id, m.binding (.global name) ≠ some (.list id) := fun id hid => h ⟨id, hid⟩
    have hshares : ¬ m.Shares (.global name) cell := by
      rintro ⟨id, hid, -⟩
      exact hnone id hid
    rw [run_append_other hnone]
    refine iff_of_true (reading_of_not_leads hm ?_ ?_ (not_leads_of_size_le hm (Nat.le_refl _))) hshares
    · rw [binding_putGlobal, Function.update_of_ne hne]
      cases cell <;> rfl
    · intro other hlt _
      exact Table.get_push_of_lt _ _ hlt

/-- Adding to a list reference, and assigning to it what is no list, puts the value at the end of the list. -/
theorem run_append_through {ctx : Nat} {reference : String} {holder : Cell}
    (h : m.cellOf ctx reference = .ok (some holder)) (hspace : Namespace.of reference = .list)
    {a : Access Unit}
    (ha : a = increase ctx reference value ∨ a = assign ctx reference value ∧ value.isList = false) :
    ∃ name, holder = .global (listName name) ∧
      a.run.run m = (append (listName name) value).run.run (m.accessed name .list) := by
  obtain ⟨name, hname, hcell⟩ := cellOf_eq_some h
  rw [hspace] at hcell
  refine ⟨name, hcell, ?_⟩
  rcases ha with rfl | ⟨rfl, hplain⟩
  · unfold increase
    rw [if_pos hspace, run_nameOf_bind hname, run_touch_bind name (by decide)]
  · unfold assign
    rw [run_nameOf_bind hname, hspace, run_touch_bind name (by decide)]
    simp [hplain]

end

/-! ## Lists that are apart -/

/-- A cell holds a list. -/
def Held (m : Memory) (id : Nat) : Prop := ∃ cell, m.binding cell = some (.list id)

/-- A value to which nothing refers: no list, or one that no cell holds and that stands in no list. -/
def Fresh (m : Memory) (value : Value) : Prop :=
  ∀ id, value = .list id →
    id < m.lists.size ∧ ¬ m.Held id ∧ ∀ other, .list id ∉ (m.lists.get other).values

/-- No list that a cell holds is held by another cell or stands in a list. -/
structure Apart (m : Memory) : Prop where
  cells : ∀ p q id, m.binding p = some (.list id) → m.binding q = some (.list id) → p = q
  items : ∀ id other, m.Held id → .list id ∉ (m.lists.get other).values

section

variable {m m' : Memory}

theorem Closed.held_lt (hm : m.Closed) {id : Nat} (h : m.Held id) : id < m.lists.size := by
  obtain ⟨cell, hcell⟩ := h
  exact hm.cells cell _ hcell id rfl

theorem Closed.item_lt (hm : m.Closed) {id other : Nat} (h : .list id ∈ (m.lists.get other).values) :
    id < m.lists.size :=
  hm.lists other _ h id rfl

theorem mem_values_newList {items : ListVar} {other : Nat} {value : Value}
    (h : value ∈ ((m.newList items).lists.get other).values) :
    value ∈ items.values ∨ value ∈ (m.lists.get other).values := by
  change value ∈ ((m.lists.push items).get other).values at h
  rcases Nat.lt_trichotomy other m.lists.size with hlt | rfl | hgt
  · rw [Table.get_push_of_lt _ _ hlt] at h
    exact .inr h
  · rw [Table.get_push_self] at h
    exact .inl h
  · have hsize : (m.lists.push items).size ≤ other := by
      rw [Table.size_push]
      exact hgt
    rw [Table.get_of_size_le hsize] at h
    cases h

theorem storable_fresh : Storable Fresh where
  has h id hid := (h id hid).1
  plain m value h := by
    rintro id rfl
    cases h
  copy := by
    rintro m id hm _ ⟨⟩
    refine ⟨?_, fun hheld => ?_, fun other hmem => ?_⟩
    · show m.lists.size < (m.lists.push _).size
      simp
    · exact Nat.lt_irrefl _ (hm.held_lt hheld)
    · rcases mem_values_newList hmem with hcopied | hold
      · exact Nat.lt_irrefl _ (hm.item_lt hcopied)
      · exact Nat.lt_irrefl _ (hm.item_lt hold)
  same hlists hbinding h id hid := by
    unfold Held
    rw [hlists, hbinding]
    exact h id hid

theorem apart_of_fewer (h : m.Apart) (hlists : m'.lists = m.lists)
    (hcells : ∀ cell, m'.binding cell = m.binding cell ∨ m'.binding cell = none) : m'.Apart := by
  have hold : ∀ p id, m'.binding p = some (.list id) → m.binding p = some (.list id) := by
    intro p id hp
    rcases hcells p with hsame | hnone
    · exact hsame ▸ hp
    · rw [hnone] at hp
      cases hp
  constructor
  · intro p q id hp hq
    exact h.cells p q id (hold p id hp) (hold q id hq)
  · rintro id other ⟨p, hp⟩
    rw [hlists]
    exact h.items id other ⟨p, hold p id hp⟩

theorem apart_of_eq (h : m.Apart) (hlists : m'.lists = m.lists) (hbinding : m'.binding = m.binding) :
    m'.Apart :=
  apart_of_fewer h hlists fun cell => .inl (congrFun hbinding cell)

theorem apart_newList (h : m.Apart) {items : ListVar} (hitems : ∀ id, m.Held id → .list id ∉ items.values) :
    (m.newList items).Apart where
  cells := h.cells
  items id other hheld hmem := by
    rcases mem_values_newList hmem with hnew | hold
    · exact hitems id hheld hnew
    · exact h.items id other hheld hold

theorem apart_put (h : m.Apart) {cell : Cell} {value : Value} (hfresh : m.Fresh value)
    (hlists : m'.lists = m.lists) (hbinding : m'.binding = Function.update m.binding cell (some value)) :
    m'.Apart where
  cells p q id hp hq := by
    rw [hbinding, Function.update_apply] at hp hq
    split at hp
    · rename_i hpcell
      split at hq
      · rename_i hqcell
        rw [hpcell, hqcell]
      · exact absurd ⟨q, hq⟩ (hfresh id (Option.some.inj hp)).2.1
    · split at hq
      · exact absurd ⟨p, hp⟩ (hfresh id (Option.some.inj hq)).2.1
      · exact h.cells p q id hp hq
  items id other hheld := by
    obtain ⟨p, hp⟩ := hheld
    rw [hlists]
    rw [hbinding, Function.update_apply] at hp
    split at hp
    · exact (hfresh id (Option.some.inj hp)).2.2 other
    · exact h.items id other ⟨p, hp⟩

theorem apart_takeOut (h : m.Apart) (cell : Cell) : (m.takeOut cell).Apart := by
  refine apart_of_fewer h (takeOut_keeps m cell).1 fun p => ?_
  rw [binding_takeOut, Function.update_apply]
  split
  · exact .inr rfl
  · exact .inl rfl

theorem apart_append (hm : m.Closed) (h : m.Apart) {value : Value} (hfresh : m.Fresh value)
    (name : String) : ((append name value).run.run m).2.Apart := by
  by_cases hlist : ∃ id, m.binding (.global name) = some (.list id)
  · obtain ⟨id, hid⟩ := hlist
    obtain ⟨m', index, hrun, hbinding, hnew, hget, -, hother⟩ := run_append_held hm hid value
    rw [hrun]
    refine ⟨by rw [hbinding]; exact h.cells, ?_⟩
    intro held other hheld hmem
    unfold Held at hheld
    rw [hbinding] at hheld
    by_cases heq : other = id
    · subst heq
      rw [hget] at hmem
      unfold Dict.values at hmem
      rw [Dict.entries_put_of_notMem _ _ hnew, List.map_append, List.mem_append] at hmem
      rcases hmem with hold | hlast
      · exact h.items held other hheld hold
      · exact (hfresh held (List.mem_singleton.1 hlast).symm).2.1 hheld
    · rw [hother other heq] at hmem
      exact h.items held other hheld hmem
  · rw [run_append_other fun id hid => hlist ⟨id, hid⟩]
    have hone : ∀ v ∈ (Dict.empty.put 1 value : ListVar).values, v = value :=
      fun v hv => List.mem_singleton.1 hv
    refine apart_put (apart_newList h fun id hheld hmem => ?_) ?_ rfl (binding_putGlobal _ _ _)
    · exact (hfresh id (hone _ hmem).symm).2.1 hheld
    · rintro _ ⟨⟩
      refine ⟨?_, fun hheld => Nat.lt_irrefl _ (hm.held_lt hheld), fun other hmem => ?_⟩
      · show m.lists.size < (m.lists.push _).size
        simp
      · rcases mem_values_newList hmem with hnew | hold
        · exact Nat.lt_irrefl _ (hfresh _ (hone _ hnew).symm).1
        · exact Nat.lt_irrefl _ (hm.item_lt hold)

/-- Storing only values to which nothing refers keeps lists apart. -/
theorem Step.apart (hm : m.Closed) (h : m.Apart) (hstep : Step Fresh m m') : m'.Apart := by
  cases hstep with
  | noted accesses => exact apart_of_eq h rfl (binding_congr rfl rfl rfl)
  | waited time => exact apart_of_eq h rfl (binding_congr rfl rfl rfl)
  | copied id => exact apart_newList h fun held => h.items held id
  | put cell value hfresh =>
    exact apart_put h hfresh (putIn_keeps m value cell).1 (binding_putIn m value cell)
  | appended name value hfresh => exact apart_append hm h hfresh name
  | removed cell => exact apart_takeOut h cell
  | changed ctx change => exact apart_of_eq h rfl (binding_congr rfl rfl rfl)
  | entered c => exact apart_of_eq h rfl (binding_congr rfl rfl rfl)

theorem Steps.apart (hm : m.Closed) (h : m.Apart) (hsteps : Steps Fresh m m') : m'.Apart := by
  induction hsteps with
  | refl => exact h
  | tail hbefore hstep ih => exact hstep.apart (Steps.closed storable_fresh hm hbefore) ih

theorem mem_values_of_follow {lists : Lists} {value found : Value} {index : Int} {path : List Int}
    (h : lists.follow value (index :: path) = some found) : ∃ id, found ∈ (lists.get id).values := by
  induction path generalizing value index with
  | nil =>
    cases value with
    | list id =>
      obtain ⟨item, hitem, hfound⟩ := Option.bind_eq_some_iff.1 h
      cases hfound
      exact ⟨id, List.mem_map_of_mem (Dict.mem_of_get? hitem)⟩
    | _ => cases h
  | cons next path ih =>
    cases value with
    | list id =>
      obtain ⟨item, -, hrest⟩ := Option.bind_eq_some_iff.1 h
      exact ih hrest
    | _ => cases h

theorem Apart.not_shares (h : m.Apart) {p q : Cell} (hne : q ≠ p) : ¬ m.Shares p q := by
  rintro ⟨id, hp, path, hpath⟩
  cases path with
  | nil =>
    have hq : m.binding q = some (.list id) := by
      unfold valueIn at hpath
      cases hbinding : m.binding q with
      | none =>
        rw [hbinding] at hpath
        cases hpath
      | some value =>
        rw [hbinding] at hpath
        cases hpath
        rfl
    exact hne (h.cells q p id hq hp)
  | cons index path =>
    obtain ⟨other, hmem⟩ := mem_values_of_follow hpath
    exact h.items id other ⟨p, hp⟩ hmem

end

end Memory

/-! ## Scripts that store copies -/

/-- A clause that puts nothing into the store that a reference hands over. -/
def Clause.storesCopies : Clause → Bool
  | variableSet reference value =>
    Namespace.of reference == .list || Namespace.of reference == .local || !Memory.handsOver value
  | variableAdd reference value => Namespace.of reference == .local || !Memory.handsOver value
  | _ => true

def Script.StoresCopies (script : Script) : Prop :=
  ∀ s ∈ Statement.walkAll script.statements, s.clause.storesCopies = true

theorem yields_fresh {text : String} (h : Memory.handsOver text = false) : Yields Memory.Fresh text :=
  fun ctx _ hm value hvalue => ((Memory.goes_evaluate Memory.storable_fresh hm ctx text).2 value hvalue).2 h

theorem Clause.stores_fresh {clause : Clause} (h : clause.storesCopies = true) :
    clause.Stores Memory.Fresh := by
  cases clause with
  | variableSet reference value =>
    intro hlist hlocal
    refine yields_fresh ?_
    simpa [storesCopies, hlist, hlocal] using h
  | variableAdd reference value =>
    intro hlocal
    refine yields_fresh ?_
    simpa [storesCopies, hlocal] using h
  | _ => trivial

theorem Clause.stores_has (clause : Clause) : clause.Stores fun m value => m.lists.Has value := by
  have hyields : ∀ text, Yields (fun m value => m.lists.Has value) text :=
    fun text ctx _ hm value hvalue =>
      ((Memory.goes_evaluate Memory.storable_has hm ctx text).2 value hvalue).1
  cases clause with
  | variableSet reference value => exact fun _ _ => hyields value
  | variableAdd reference value => exact fun _ => hyields value
  | _ => trivial

/-! ## Running scripts -/

/-- Worlds that come from one with an empty store by running scripts of a kind. Between the runs a context may
be cloned, and all else may change except what is kept in lists and cells; cells may only be emptied. -/
inductive World.Reached (runs : Script → Prop) : World → Prop
  | start {w : World} (hclosed : w.memory.Closed) (hempty : ∀ cell, w.memory.binding cell = none) :
      Reached runs w
  | execute {w : World} (host : Host) (config : Config) (script ctx : Nat) (selection : Selection)
      (hw : Reached runs w) (h : runs (w.script script)) :
      Reached runs (Run.result host (Run.execute config script ctx selection) w).1
  | call {w : World} (host : Host) (config : Config) (script ctx : Nat) (name : String) {values : List Value}
      (hw : Reached runs w) (h : runs (w.script script))
      (hvalues : ∀ value ∈ values, w.memory.lists.Has value) :
      Reached runs (Run.result host (Run.callFunction config script ctx name values) w).1
  | cloned {w : World} (ctx : Nat) (hw : Reached runs w) :
      Reached runs (w.changeMemory fun m => m.cloneContext ctx)
  | outside {w w' : World} (hw : Reached runs w) (hlists : w'.memory.lists = w.memory.lists)
      (hcells : ∀ cell, w'.memory.binding cell = w.memory.binding cell ∨ w'.memory.binding cell = none)
      (hcontexts : ∀ ctx, w'.memory.Has (w'.memory.context ctx)) : Reached runs w'

namespace World

section

variable {w : World} {runs : Script → Prop} {stores : Memory → Value → Prop}

theorem Reached.closed (hs : Memory.Storable stores) (hruns : ∀ script, runs script → script.Stores stores)
    (h : w.Reached runs) : w.memory.Closed := by
  induction h with
  | start hclosed => exact hclosed
  | execute host config script ctx selection _ hrun ih =>
    exact (Run.goes_execute host config ctx selection hs ih (hruns _ hrun)).closed hs ih
  | call host config script ctx name _ hrun hvalues ih =>
    exact (Run.goes_callFunction host config ctx name hs ih (hruns _ hrun) hvalues).closed hs ih
  | cloned ctx _ ih => exact (Memory.steps_cloneContext stores _ ctx).closed hs ih
  | outside _ hlists hcells hcontexts ih =>
    refine ⟨hlists ▸ ih.lists, hcontexts, fun cell value hvalue => ?_⟩
    rw [hlists]
    rcases hcells cell with hsame | hnone
    · exact ih.cells cell value (hsame ▸ hvalue)
    · rw [hnone] at hvalue
      cases hvalue

theorem Reached.apart (h : w.Reached Script.StoresCopies) : w.memory.Apart := by
  have hruns : ∀ script : Script, script.StoresCopies → script.Stores Memory.Fresh :=
    fun script hcopies s hmem => Clause.stores_fresh (hcopies s hmem)
  induction h with
  | @start w hclosed hempty =>
    have hnone : ∀ p id, w.memory.binding p ≠ some (.list id) := by
      intro p id hp
      rw [hempty] at hp
      cases hp
    exact ⟨fun p _ id hp => absurd hp (hnone p id), fun id _ ⟨p, hp⟩ => absurd hp (hnone p id)⟩
  | execute host config script ctx selection hw hrun ih =>
    have hclosed := hw.closed Memory.storable_fresh hruns
    have hgoes := Run.goes_execute host config ctx selection Memory.storable_fresh hclosed (hruns _ hrun)
    exact Memory.Steps.apart hclosed ih hgoes
  | call host config script ctx name hw hrun hvalues ih =>
    have hclosed := hw.closed Memory.storable_fresh hruns
    have hgoes :=
      Run.goes_callFunction host config ctx name Memory.storable_fresh hclosed (hruns _ hrun) hvalues
    exact Memory.Steps.apart hclosed ih hgoes
  | cloned ctx hw ih =>
    exact (Memory.steps_cloneContext Memory.Fresh _ ctx).apart (hw.closed Memory.storable_fresh hruns) ih
  | outside _ hlists hcells _ ih => exact Memory.apart_of_fewer ih hlists hcells

/-- Putting something at the end of a list changes what is read from another cell exactly if this cell leads
to the list, and this comes about only by scripts that store what a reference hands over. -/
theorem append_spares_iff (h : w.Reached fun _ => True) {ctx : Nat} {reference : String} {holder cell : Cell}
    (hcell : w.memory.cellOf ctx reference = .ok (some holder)) (hlist : Namespace.of reference = .list)
    (hne : cell ≠ holder) {value : Value} {a : Access Unit}
    (ha : a = Memory.increase ctx reference value ∨
      a = Memory.assign ctx reference value ∧ value.isList = false) :
    (a.run.run w.memory).1 = .ok () ∧
    ((a.run.run w.memory).2.reading cell = w.memory.reading cell ↔ ¬ w.memory.Shares holder cell) ∧
    (w.Reached Script.StoresCopies → (a.run.run w.memory).2.reading cell = w.memory.reading cell) := by
  have hclosed := h.closed Memory.storable_has fun _ _ _ _ => Clause.stores_has _
  obtain ⟨name, rfl, hrun⟩ := Memory.run_append_through hcell hlist ha
  have hspares : (a.run.run w.memory).2.reading cell = w.memory.reading cell ↔
      ¬ w.memory.Shares (.global (Memory.listName name)) cell := by
    rw [hrun]
    exact Memory.reading_append_iff (m := w.memory.accessed name .list)
      (Memory.closed_accessed hclosed name .list) hne value
  refine ⟨?_, hspares, fun hcopies => hspares.2 (hcopies.apart.not_shares hne)⟩
  rw [hrun]
  rfl

end

/-- `add 1 to {x::*}`, then `set {y} to {x}`. -/
def sharingScript : Script where
  name := "sharing"
  source := "add 1 to \x7bx::*\x7d\nset \x7by\x7d to \x7bx\x7d\n"
  statements := [
    ⟨.variableAdd "\x7bx::*\x7d" "1", "add 1 to \x7bx::*\x7d", 1, 0, {}, []⟩,
    ⟨.variableSet "\x7by\x7d" "\x7bx\x7d", "set \x7by\x7d to \x7bx\x7d", 2, 0, {}, []⟩]

/-- After this script, what is added to the list `x` is read from `y` too. -/
theorem append_reaches_second_name :
    ∃ w : World, w.Reached (fun _ => True) ∧ w.memory.Shares (.global "x") (.global "y") ∧
      w.memory.cellOf 0 "\x7bx::*\x7d" = .ok (some (.global "x")) ∧
      ((Memory.increase 0 "\x7bx::*\x7d" (.int 2)).run.run w.memory).2.reading (.global "y") ≠
        w.memory.reading (.global "y") := by
  let start : World := { scripts := ⟨#[sharingScript]⟩, memory := { contexts := ⟨#[{}]⟩ } }
  have hstart : start.Reached fun _ => True := by
    refine .start ⟨?_, ?_, ?_⟩ ?_
    · rintro id value ⟨⟩
    · rintro (_ | ctx) name value ⟨⟩
    · rintro (name | ⟨owner, name⟩ | name) value ⟨⟩
    · rintro (name | ⟨owner, name⟩ | name) <;> rfl
  have hreached := hstart.execute (Roster.host {}) {} 0 0 .all trivial
  have hevaluated :
      let m := (Run.result (Roster.host {}) (Run.execute {} 0 0 .all) start).1.memory
      m.binding (.global "x") = some (.list 0) ∧ m.binding (.global "y") = some (.list 0) ∧
        m.cellOf 0 "\x7bx::*\x7d" = .ok (some (.global "x")) := by
    decide +kernel
  generalize (Run.result (Roster.host {}) (Run.execute {} 0 0 .all) start).1 = w at hreached hevaluated
  obtain ⟨hx, hy, hcell⟩ := hevaluated
  have hshares : w.memory.Shares (.global "x") (.global "y") :=
    ⟨0, hx, [], by simp [Lists.follow, Memory.valueIn, hy]⟩
  have hne : Cell.global "y" ≠ .global "x" := by decide
  obtain ⟨-, hspares, -⟩ := append_spares_iff hreached hcell (by decide +kernel) hne (.inl rfl)
  exact ⟨w, hreached, hshares, hcell, fun hsame => hspares.1 hsame hshares⟩

end World

end EventScript
