import EventScript.Expression
import Mathlib.Data.Finset.Card

/-!
Values whose lists have other numbers.

A list is known by its number only. If others made lists before, a run numbers its own lists higher: the
numbers from some number on are shifted. What a value says does not depend on the numbers of the lists, as
long as lists hold the same under their old and new numbers; and the text of a value depends on how many
lists there are only if it holds itself.

Main definitions:
* `Shift`: by how much the numbers of lists and contexts differ, and whether the event was cancelled;
* `Shift.value`, `items`, `context`, `outcome`: what becomes of values and what has values in it;
* `Shift.Matches`: lists that hold the same under other numbers.

Main facts:
* `Value.textTo_of_size_lt`: a text that is not found among as many nested lists as there are is not found;
* `Shift.inText_value`, `add_value`, `name_context`: texts, sums and names are the same;
* `Shift.clone_context`: so are clones of contexts.
-/

namespace EventScript

set_option autoImplicit false

/-! ## How deep lists are nested -/

namespace Value

variable {lists : Lists} {depth : Nat}

/-- The lists that are nested too deep for their text to be found. -/
def tooDeep (lists : Lists) (depth : Nat) : Finset Nat :=
  (Finset.range lists.size).filter fun id => textTo lists depth (.list id) = .error .holdsItself

theorem mapM_eq_of_ne {f g : Value → Except Fault String} (h : ∀ v, f v ≠ .error .holdsItself → g v = f v)
    {values : List Value} (hne : values.mapM f ≠ .error .holdsItself) : values.mapM g = values.mapM f := by
  induction values with
  | nil => rfl
  | cons v rest ih =>
    rw [List.mapM_cons] at hne
    rw [List.mapM_cons, List.mapM_cons]
    cases hv : f v with
    | error fault =>
      have hfault : f v ≠ .error .holdsItself := by
        intro hholds
        rw [hholds] at hne
        exact hne rfl
      rw [h v hfault, hv]
      rfl
    | ok text =>
      have hrest : rest.mapM f ≠ .error .holdsItself := by
        intro hrest
        rw [hv, hrest] at hne
        exact hne rfl
      rw [h v (by rw [hv]; nofun), hv, ih hrest]

/-- A text that is found, or cannot be found for another reason, stays the same when lists may be nested
deeper. -/
theorem textTo_succ_of_ne {v : Value} (h : textTo lists depth v ≠ .error .holdsItself) :
    textTo lists (depth + 1) v = textTo lists depth v := by
  induction depth generalizing v with
  | zero =>
    cases v with
    | list id => exact absurd rfl h
    | _ => rfl
  | succ depth ih =>
    cases v with
    | list id =>
      have hne : (lists.get id).values.mapM (textTo lists depth) ≠ .error .holdsItself := by
        intro hitems
        rw [textTo, hitems] at h
        exact h rfl
      rw [textTo, textTo, mapM_eq_of_ne (fun v hv => ih hv) hne]
    | _ => rfl

theorem textTo_list_of_size_le {id : Nat} (h : lists.size ≤ id) (depth : Nat) :
    textTo lists (depth + 1) (.list id) = .ok "" := by
  rw [textTo, Table.get_of_size_le h]
  rfl

theorem tooDeep_succ_subset : tooDeep lists (depth + 1) ⊆ tooDeep lists depth := by
  intro id hid
  obtain ⟨hrange, htext⟩ := Finset.mem_filter.1 hid
  refine Finset.mem_filter.2 ⟨hrange, ?_⟩
  by_cases h : textTo lists depth (.list id) = .error .holdsItself
  · exact h
  · rw [← textTo_succ_of_ne h]
    exact htext

/-- If no further text is found at one depth, none is found at any greater depth. -/
theorem textTo_add_of_tooDeep_eq (h : tooDeep lists (depth + 2) = tooDeep lists (depth + 1)) (more : Nat) :
    textTo lists (depth + 1 + more) = textTo lists (depth + 1) := by
  have hstep : textTo lists (depth + 2) = textTo lists (depth + 1) := by
    funext v
    by_cases htext : textTo lists (depth + 1) v = .error .holdsItself
    · cases v with
      | list id =>
        by_cases hsize : lists.size ≤ id
        · rw [textTo_list_of_size_le hsize] at htext
          cases htext
        · have hmem : id ∈ tooDeep lists (depth + 1) :=
            Finset.mem_filter.2 ⟨Finset.mem_range.2 (Nat.lt_of_not_le hsize), htext⟩
          rw [← h] at hmem
          rw [htext]
          exact (Finset.mem_filter.1 hmem).2
      | _ => rfl
    · exact textTo_succ_of_ne htext
  induction more with
  | zero => rfl
  | succ more ih =>
    funext v
    cases v with
    | list id =>
      have hmore : textTo lists (depth + 1 + (more + 1)) (.list id) =
          ((lists.get id).values.mapM (textTo lists (depth + 1 + more)) >>= fun parts =>
            pure (", ".intercalate parts)) := rfl
      rw [hmore, ih]
      exact congrFun hstep (.list id)
    | _ => rfl

/-- At one of the first depths, as many as there are lists, no further text is found. -/
theorem exists_tooDeep_eq (lists : Lists) :
    ∃ depth ≤ lists.size, tooDeep lists (depth + 2) = tooDeep lists (depth + 1) := by
  -- As long as every depth brings a new text, one list fewer is nested too deep each time.
  have hfound : ∀ n, (∃ d < n, tooDeep lists (d + 2) = tooDeep lists (d + 1)) ∨
      (tooDeep lists (n + 1)).card + n ≤ lists.size := by
    intro n
    induction n with
    | zero =>
      have hcard := Finset.card_filter_le (Finset.range lists.size)
        fun id => textTo lists 1 (.list id) = .error .holdsItself
      rw [Finset.card_range] at hcard
      exact .inr hcard
    | succ n ih =>
      rcases ih with ⟨d, hd, heq⟩ | hcard
      · exact .inl ⟨d, Nat.lt_succ_of_lt hd, heq⟩
      · by_cases heq : tooDeep lists (n + 2) = tooDeep lists (n + 1)
        · exact .inl ⟨n, Nat.lt_succ_self n, heq⟩
        · have hlt : (tooDeep lists (n + 1 + 1)).card < (tooDeep lists (n + 1)).card :=
            Finset.card_lt_card (Finset.ssubset_iff_subset_ne.2 ⟨tooDeep_succ_subset, heq⟩)
          exact .inr (by omega)
  obtain ⟨d, hd, heq⟩ := (hfound (lists.size + 1)).resolve_right (by omega)
  exact ⟨d, Nat.le_of_lt_succ hd, heq⟩

/-- As many nested lists as there are do to find a text that can be found. -/
theorem textTo_of_size_lt (h : lists.size < depth) (v : Value) :
    textTo lists depth v = inText lists v := by
  obtain ⟨d, hd, heq⟩ := exists_tooDeep_eq lists
  have hdepth := textTo_add_of_tooDeep_eq heq (depth - (d + 1))
  have hsize := textTo_add_of_tooDeep_eq heq (lists.size - d)
  rw [show d + 1 + (depth - (d + 1)) = depth by omega] at hdepth
  rw [show d + 1 + (lists.size - d) = lists.size + 1 by omega] at hsize
  rw [inText, hdepth, hsize]

end Value

/-! ## Other numbers -/

/-- How the numbers in one run differ from those in another: lists and contexts from some number on have numbers
that are so much higher. It also says whether the event was cancelled before. -/
structure Shift where
  firstList : Nat
  moreLists : Nat
  firstContext : Nat
  moreContexts : Nat
  cancelled : Bool

namespace Shift

variable (s : Shift)

/-- The other number of a list. -/
def list (id : Nat) : Nat := if id < s.firstList then id else id + s.moreLists

def value : Value → Value
  | .list id => .list (s.list id)
  | v => v

def items (items : ListVar) : ListVar := items.map s.value

/-- A context with other numbers in its variables, and cancelled if the event was. -/
def context (c : Context) : Context :=
  { c with cancelled := c.cancelled || s.cancelled, locals := c.locals.map s.value }

def outcome : Outcome → Outcome
  | .success message payload => .success message (s.value payload)
  | .returned payload => .returned (s.value payload)
  | outcome => outcome

/-- Lists hold the same under their other numbers. -/
structure Matches (lists lists' : Lists) : Prop where
  first : s.firstList ≤ lists.size
  size : lists'.size = lists.size + s.moreLists
  get : ∀ id, lists'.get (s.list id) = s.items (lists.get id)

/-! ### Values -/

theorem value_of_plain {v : Value} (h : v.isList = false) : s.value v = v := by
  cases v with
  | list id => cases h
  | _ => rfl

theorem value_of_old {v : Value} (h : ∀ id, v = .list id → id < s.firstList) : s.value v = v := by
  cases v with
  | list id => exact congrArg Value.list (if_pos (h id rfl))
  | _ => rfl

@[simp] theorem isNone_value (v : Value) : (s.value v).isNone = v.isNone := by cases v <;> rfl

@[simp] theorem isList_value (v : Value) : (s.value v).isList = v.isList := by cases v <;> rfl

@[simp] theorem typeName_value (v : Value) : (s.value v).typeName = v.typeName := by cases v <;> rfl

section

variable {s} {lists lists' : Lists} (h : s.Matches lists lists')

include h

theorem textTo_value (depth : Nat) (v : Value) :
    Value.textTo lists' depth (s.value v) = Value.textTo lists depth v := by
  induction depth generalizing v with
  | zero => cases v <;> rfl
  | succ depth ih =>
    cases v with
    | list id =>
      have hitems : (lists'.get (s.list id)).values = (lists.get id).values.map s.value := by
        rw [h.get, items, Dict.values_map]
      have htexts : Value.textTo lists' depth ∘ s.value = Value.textTo lists depth := funext ih
      rw [value, Value.textTo, Value.textTo, hitems, List.mapM_map, htexts]
    | _ => rfl

theorem inText_value (v : Value) : (s.value v).inText lists' = v.inText lists := by
  have hdepth : lists.size < lists'.size + 1 := by
    rw [h.size]
    omega
  -- More lists may be nested than there are in the first run, but that finds no further text.
  rw [Value.inText, textTo_value h, Value.textTo_of_size_lt hdepth]

theorem isSomething_value (v : Value) : (s.value v).isSomething lists' = v.isSomething lists := by
  cases v with
  | list id =>
    rw [value, Value.isSomething, Value.isSomething, h.get, items, Dict.isEmpty_map]
  | _ => rfl

theorem add_value (v added : Value) :
    Value.add lists' (s.value v) (s.value added) = (Value.add lists v added).map s.value := by
  have hv := inText_value h v
  have hadded := inText_value h added
  have hjoined : ∀ left right : Except Fault String,
      Except.map s.value (do return .text ((← left) ++ (← right))) =
        (do return .text ((← left) ++ (← right))) := by
    rintro (fault | left) (fault' | right) <;> rfl
  have hsum : ∀ (x : Except Fault Float) (plus : Float → Float),
      (x.map fun x => Value.float (plus x)).map s.value = x.map fun x => Value.float (plus x) := by
    rintro (fault | x) plus <;> rfl
  cases v <;> cases added <;> simp only [Value.add, value] at hv hadded ⊢ <;>
    first | rfl | rw [hjoined, hv, hadded] | rw [hsum]

/-! ### Names and texts -/

omit h in
theorem get?_locals_context (c : Context) (name : String) :
    (s.context c).locals.get? name = (c.locals.get? name).map s.value := Dict.get?_map _ _ _

theorem token?_context (c : Context) (token : String) :
    Reference.token? lists' (s.context c) token = Reference.token? lists c token := by
  unfold Reference.token?
  rw [get?_locals_context]
  cases c.locals.get? token with
  | none => rfl
  | some v =>
    simp only [Option.map_some, inText_value h]
    rfl

theorem name_context (c : Context) (reference : String) :
    Reference.name lists' (s.context c) reference = Reference.name lists c reference := by
  have hpieces : Reference.pieceText lists' (s.context c) = Reference.pieceText lists c := by
    funext piece
    cases piece with
    | inl ch => rfl
    | inr token => rw [Reference.pieceText, token?_context h, Reference.pieceText]
  rw [Reference.name, hpieces, Reference.name]

theorem placeholderText_context (c : Context) (token : String) :
    placeholderText lists' (s.context c) token = placeholderText lists c token := by
  have hentity : (s.context c).entity = c.entity := rfl
  unfold placeholderText
  simp only [get?_locals_context, hentity]
  cases c.locals.get? token with
  | none =>
    dsimp only [Option.map_none]
    split <;> simp_all
  | some v =>
    simp only [Option.map_some]
    split
    · simp_all
    · rename_i hknown hvalue
      cases hvalue
      simp_all [inText_value h]
    · simp_all

end

theorem localNamed?_context (c : Context) (stripped : List Char) :
    localNamed? (s.context c) stripped = (localNamed? c stripped).map s.value := by
  unfold localNamed?
  cases lonePlaceholder? stripped with
  | none => rfl
  | some name => exact s.get?_locals_context c name

/-! ### Contexts -/

theorem getLocal_context (c : Context) (name : String) :
    (s.context c).getLocal name = s.value (c.getLocal name) := by
  unfold Context.getLocal
  rw [get?_locals_context]
  cases c.locals.get? name <;> rfl

theorem hasLocal_context (c : Context) (name : String) : (s.context c).hasLocal name = c.hasLocal name := by
  unfold Context.hasLocal Dict.contains
  rw [get?_locals_context, Option.isSome_map]

theorem setLocal_context (c : Context) (name : String) (v : Value) :
    s.context (c.setLocal name v) = (s.context c).setLocal name (s.value v) :=
  congrArg (fun locals => { s.context c with locals := locals }) (Dict.map_put _ _ _ _)

theorem removeLocal_context (c : Context) (name : String) :
    s.context (c.removeLocal name) = (s.context c).removeLocal name :=
  congrArg (fun locals => { s.context c with locals := locals }) (Dict.map_erase _ _ _)

theorem list_of_size {lists : Lists} (h : s.firstList ≤ lists.size) :
    s.list lists.size = lists.size + s.moreLists := if_neg (Nat.not_lt.2 h)

theorem Matches.push {s : Shift} {lists lists' : Lists} (h : s.Matches lists lists') (items : ListVar) :
    s.Matches (lists.push items) (lists'.push (s.items items)) where
  first := by
    rw [Table.size_push]
    exact Nat.le_succ_of_le h.first
  size := by
    rw [Table.size_push, Table.size_push, h.size]
    omega
  get id := by
    have hsize : lists'.size = s.list lists.size := by rw [s.list_of_size h.first, h.size]
    rcases Nat.lt_trichotomy id lists.size with hlt | rfl | hgt
    · have hlt' : s.list id < lists'.size := by
        rw [h.size, list]
        split <;> omega
      rw [Table.get_push_of_lt _ _ hlt', Table.get_push_of_lt _ _ hlt, h.get]
    · rw [← hsize, Table.get_push_self, Table.get_push_self]
    · have hge : (lists.push items).size ≤ id := by
        rw [Table.size_push]
        exact hgt
      have hge' : (lists'.push (s.items items)).size ≤ s.list id := by
        have hfirst := h.first
        rw [Table.size_push, h.size, list, if_neg (by omega)]
        omega
      rw [Table.get_of_size_le hge, Table.get_of_size_le hge']
      rfl

theorem copyLists_shifted {lists lists' : Lists} (h : s.Matches lists lists') (entries : List (String × Value)) :
    (Context.copyLists lists' (entries.map fun e => (e.1, s.value e.2))).1 =
        (Context.copyLists lists entries).1.map (fun e => (e.1, s.value e.2)) ∧
      s.Matches (Context.copyLists lists entries).2
        (Context.copyLists lists' (entries.map fun e => (e.1, s.value e.2))).2 := by
  induction entries generalizing lists lists' with
  | nil => exact ⟨rfl, h⟩
  | cons e rest ih =>
    obtain ⟨name, v⟩ := e
    cases v with
    | list id =>
      obtain ⟨hcopied, hafter⟩ := ih (h.push (lists.get id))
      have hsize : lists'.size = s.list lists.size := by rw [s.list_of_size h.first, h.size]
      simp only [List.map_cons, value, Context.copyLists, h.get, hsize]
      exact ⟨congrArg _ hcopied, hafter⟩
    | _ =>
      obtain ⟨hcopied, hafter⟩ := ih h
      exact ⟨congrArg _ hcopied, hafter⟩

theorem clone_context {lists lists' : Lists} (h : s.Matches lists lists') (c : Context) :
    ((s.context c).clone lists').1 = s.context (c.clone lists).1 ∧
      s.Matches (c.clone lists).2 ((s.context c).clone lists').2 := by
  obtain ⟨hcopied, hafter⟩ := s.copyLists_shifted h c.locals.entries
  exact ⟨congrArg (fun locals => { s.context c with locals := locals }) (Dict.ext hcopied), hafter⟩

end Shift

end EventScript
