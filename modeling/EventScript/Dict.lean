/-!
Dictionaries that keep the order in which their keys came in.

A key stands at most once: a dictionary carries the proof of this, so that an entry and what is found under
its key are the same. Putting a value under a key that is already there keeps its place; a new key goes to
the end.

Main definitions:
* `Dict`: an ordered dictionary;
* `Dict.get?`, `put`, `erase`, `filter`, `map`: what is done with one.

Main facts:
* `Dict.mem_entries_iff`: the entries are what is found under the keys;
* `Dict.get?_put_self`, `get?_put_of_ne`, `get?_erase_self`, `get?_erase_of_ne`, `get?_filter`, `get?_map`:
  what is found after a change.
-/

namespace EventScript

set_option autoImplicit false

/-- An ordered dictionary. -/
@[ext] structure Dict (κ α : Type) where
  entries : List (κ × α)
  nodup : (entries.map (·.1)).Nodup
deriving DecidableEq, Repr

namespace Dict

variable {κ α : Type}

def empty : Dict κ α where
  entries := []
  nodup := List.Pairwise.nil

instance : EmptyCollection (Dict κ α) := ⟨empty⟩

instance : Inhabited (Dict κ α) := ⟨{}⟩

def keys (d : Dict κ α) : List κ := d.entries.map (·.1)

def values (d : Dict κ α) : List α := d.entries.map (·.2)

def size (d : Dict κ α) : Nat := d.entries.length

def isEmpty (d : Dict κ α) : Bool := d.entries.isEmpty

@[simp] theorem entries_empty : ({} : Dict κ α).entries = [] := rfl

theorem nodup_keys (d : Dict κ α) : d.keys.Nodup := d.nodup

/-- Only the entries that pass a test. -/
def filter (d : Dict κ α) (keep : κ → α → Bool) : Dict κ α where
  entries := d.entries.filter fun e => keep e.1 e.2
  nodup := d.nodup.sublist (List.filter_sublist.map _)

def map {β : Type} (d : Dict κ α) (f : α → β) : Dict κ β where
  entries := d.entries.map fun e => (e.1, f e.2)
  nodup := by
    rw [List.map_map]
    exact d.nodup

theorem mem_keys_of_mem {d : Dict κ α} {e : κ × α} (h : e ∈ d.entries) : e.1 ∈ d.keys :=
  List.mem_map_of_mem h

variable [DecidableEq κ]

private def find (key : κ) : List (κ × α) → Option α
  | [] => none
  | (k, a) :: rest => if k = key then some a else find key rest

private def update (key : κ) (value : α) : List (κ × α) → List (κ × α)
  | [] => [(key, value)]
  | (k, a) :: rest => if k = key then (k, value) :: rest else (k, a) :: update key value rest

private theorem mem_update {key k : κ} {value a : α} {entries : List (κ × α)}
    (h : (k, a) ∈ update key value entries) : k = key ∨ (k, a) ∈ entries := by
  induction entries with
  | nil => exact .inl (congrArg Prod.fst (List.mem_singleton.1 h))
  | cons e rest ih =>
    unfold update at h
    split at h
    · rename_i heq
      rcases List.mem_cons.1 h with hfirst | hrest
      · exact .inl ((congrArg Prod.fst hfirst).trans heq)
      · exact .inr (List.mem_cons_of_mem _ hrest)
    · rcases List.mem_cons.1 h with hfirst | hrest
      · exact .inr (hfirst ▸ List.mem_cons_self)
      · exact (ih hrest).imp_right (List.mem_cons_of_mem _)

private theorem nodup_update (key : κ) (value : α) {entries : List (κ × α)}
    (h : (entries.map (·.1)).Nodup) : ((update key value entries).map (·.1)).Nodup := by
  induction entries with
  | nil => exact List.nodup_cons.2 ⟨List.not_mem_nil, List.Pairwise.nil⟩
  | cons e rest ih =>
    obtain ⟨hnot, hrest⟩ := List.nodup_cons.1 h
    unfold update
    split
    · exact List.nodup_cons.2 ⟨hnot, hrest⟩
    · rename_i hne
      refine List.nodup_cons.2 ⟨fun hmem => ?_, ih hrest⟩
      obtain ⟨⟨k, a⟩, hentry, rfl⟩ := List.mem_map.1 hmem
      rcases mem_update hentry with hkey | hold
      · exact hne hkey
      · exact hnot (List.mem_map.2 ⟨_, hold, rfl⟩)

/-- The value under a key. -/
def get? (d : Dict κ α) (key : κ) : Option α := find key d.entries

def contains (d : Dict κ α) (key : κ) : Bool := (d.get? key).isSome

/-- The dictionary with a value under a key. -/
def put (d : Dict κ α) (key : κ) (value : α) : Dict κ α where
  entries := update key value d.entries
  nodup := nodup_update key value d.nodup

/-- The dictionary without a key. -/
def erase (d : Dict κ α) (key : κ) : Dict κ α := d.filter fun k _ => decide (k ≠ key)

/-- The entries put in one after another. -/
def ofList (entries : List (κ × α)) : Dict κ α :=
  entries.foldl (fun d e => d.put e.1 e.2) {}

/-! ## What is found -/

@[simp] theorem get?_empty (key : κ) : ({} : Dict κ α).get? key = none := rfl

theorem mem_entries_iff {d : Dict κ α} {key : κ} {value : α} :
    (key, value) ∈ d.entries ↔ d.get? key = some value := by
  obtain ⟨entries, h⟩ := d
  unfold get?
  induction entries with
  | nil => exact ⟨nofun, nofun⟩
  | cons e rest ih =>
    obtain ⟨k, a⟩ := e
    obtain ⟨hnot, hrest⟩ := List.nodup_cons.1 h
    unfold find
    by_cases hk : k = key
    · subst hk
      have hgone : (k, value) ∉ rest := fun hmem => hnot (List.mem_map.2 ⟨_, hmem, rfl⟩)
      simp [hgone, eq_comm]
    · rw [if_neg hk, ← ih hrest]
      simp [Ne.symm hk]

theorem mem_of_get? {d : Dict κ α} {key : κ} {value : α} (h : d.get? key = some value) :
    (key, value) ∈ d.entries := mem_entries_iff.2 h

theorem get?_of_mem {d : Dict κ α} {e : κ × α} (h : e ∈ d.entries) : d.get? e.1 = some e.2 :=
  mem_entries_iff.1 h

theorem mem_keys_iff {d : Dict κ α} {key : κ} : key ∈ d.keys ↔ ∃ value, d.get? key = some value := by
  constructor
  · intro h
    obtain ⟨e, he, rfl⟩ := List.mem_map.1 h
    exact ⟨e.2, get?_of_mem he⟩
  · rintro ⟨value, h⟩
    exact mem_keys_of_mem (mem_of_get? h)

theorem mem_values_iff {d : Dict κ α} {value : α} : value ∈ d.values ↔ ∃ key, d.get? key = some value := by
  constructor
  · intro h
    obtain ⟨e, he, rfl⟩ := List.mem_map.1 h
    exact ⟨e.1, get?_of_mem he⟩
  · rintro ⟨key, h⟩
    exact List.mem_map_of_mem (f := Prod.snd) (mem_of_get? h)

theorem get?_eq_none_iff {d : Dict κ α} {key : κ} : d.get? key = none ↔ key ∉ d.keys := by
  rw [mem_keys_iff, Option.eq_none_iff_forall_ne_some, not_exists]

theorem get?_of_isEmpty {d : Dict κ α} (h : d.isEmpty = true) (key : κ) : d.get? key = none := by
  rw [get?_eq_none_iff, keys, List.isEmpty_iff.1 h]
  exact List.not_mem_nil

theorem exists_get?_of_not_isEmpty {d : Dict κ α} (h : d.isEmpty = false) :
    ∃ key value, d.get? key = some value := by
  obtain ⟨e, he⟩ := List.exists_mem_of_ne_nil _ (List.isEmpty_eq_false_iff.1 h)
  exact ⟨e.1, e.2, get?_of_mem he⟩

private theorem find_update (key other : κ) (value : α) (entries : List (κ × α)) :
    find other (update key value entries) = if other = key then some value else find other entries := by
  induction entries with
  | nil => simp [update, find, eq_comm]
  | cons e rest ih =>
    unfold update
    split
    · rename_i hk
      subst hk
      simp only [find, eq_comm (a := other)]
      split <;> rfl
    · rename_i hk
      simp only [find, ih]
      split
      · rename_i ho
        rw [if_neg (ho ▸ hk)]
      · rfl

@[simp] theorem get?_put_self (d : Dict κ α) (key : κ) (value : α) :
    (d.put key value).get? key = some value :=
  (find_update key key value d.entries).trans (if_pos rfl)

@[simp] theorem get?_put_of_ne (d : Dict κ α) {key other : κ} (value : α) (h : other ≠ key) :
    (d.put key value).get? other = d.get? other :=
  (find_update key other value d.entries).trans (if_neg h)

theorem get?_filter (d : Dict κ α) (keep : κ → α → Bool) (key : κ) :
    (d.filter keep).get? key = (d.get? key).filter (keep key) := by
  refine Option.ext fun value => ?_
  rw [← mem_entries_iff, Option.filter_eq_some_iff, ← mem_entries_iff]
  exact List.mem_filter

@[simp] theorem get?_erase_self (d : Dict κ α) (key : κ) : (d.erase key).get? key = none := by
  rw [erase, get?_filter]
  cases d.get? key <;> simp

@[simp] theorem get?_erase_of_ne (d : Dict κ α) {key other : κ} (h : other ≠ key) :
    (d.erase key).get? other = d.get? other := by
  rw [erase, get?_filter]
  cases d.get? other <;> simp [h]

theorem get?_foldl_put {entries : List (κ × α)} {d : Dict κ α} {key : κ} {value : α}
    (h : (entries.foldl (fun d e => d.put e.1 e.2) d).get? key = some value) :
    (key, value) ∈ entries ∨ d.get? key = some value := by
  induction entries generalizing d with
  | nil => exact .inr h
  | cons e rest ih =>
    rcases ih h with hrest | hput
    · exact .inl (List.mem_cons_of_mem _ hrest)
    · by_cases hkey : key = e.1
      · subst hkey
        rw [get?_put_self] at hput
        cases hput
        exact .inl List.mem_cons_self
      · rw [get?_put_of_ne _ _ hkey] at hput
        exact .inr hput

theorem mem_of_get?_ofList {entries : List (κ × α)} {key : κ} {value : α}
    (h : (ofList entries).get? key = some value) : (key, value) ∈ entries := by
  rcases get?_foldl_put h with h | h
  · exact h
  · cases h

/-! ## Keys and values -/

theorem mem_keys_put {d : Dict κ α} {key other : κ} {value : α} :
    other ∈ (d.put key value).keys ↔ other = key ∨ other ∈ d.keys := by
  by_cases h : other = key
  · subst h
    simp [mem_keys_iff]
  · simp [mem_keys_iff, h]

theorem keys_put_of_mem {d : Dict κ α} {key : κ} (h : key ∈ d.keys) (value : α) :
    (d.put key value).keys = d.keys := by
  have hupdate : ∀ entries : List (κ × α), key ∈ entries.map (·.1) →
      (update key value entries).map (·.1) = entries.map (·.1) := by
    intro entries hmem
    induction entries with
    | nil => cases hmem
    | cons e rest ih =>
      unfold update
      split
      · rfl
      · rename_i hne
        have hrest : key ∈ rest.map (·.1) :=
          (List.mem_cons.1 hmem).resolve_left fun heq => hne heq.symm
        exact congrArg (e.1 :: ·) (ih hrest)
  exact hupdate d.entries h

theorem entries_put_of_notMem (d : Dict κ α) {key : κ} (value : α) (h : key ∉ d.keys) :
    (d.put key value).entries = d.entries ++ [(key, value)] := by
  have hupdate : ∀ entries : List (κ × α), key ∉ entries.map (·.1) →
      update key value entries = entries ++ [(key, value)] := by
    intro entries hnot
    induction entries with
    | nil => rfl
    | cons e rest ih =>
      obtain ⟨hne, hrest⟩ := not_or.1 fun hor => hnot (List.mem_cons.2 hor)
      unfold update
      rw [if_neg (Ne.symm hne), ih hrest]
      rfl
  exact hupdate d.entries h

theorem mem_values_put {d : Dict κ α} {key : κ} {value a : α} (h : a ∈ (d.put key value).values) :
    a = value ∨ a ∈ d.values := by
  obtain ⟨other, hother⟩ := mem_values_iff.1 h
  by_cases hkey : other = key
  · subst hkey
    rw [get?_put_self] at hother
    exact .inl (Option.some.inj hother).symm
  · rw [get?_put_of_ne _ _ hkey] at hother
    exact .inr (mem_values_iff.2 ⟨other, hother⟩)

theorem mem_values_erase {d : Dict κ α} {key : κ} {a : α} (h : a ∈ (d.erase key).values) : a ∈ d.values :=
  (List.filter_sublist.map _).subset h

theorem isEmpty_put (d : Dict κ α) (key : κ) (value : α) : (d.put key value).isEmpty = false := by
  cases hempty : (d.put key value).isEmpty with
  | false => rfl
  | true =>
    have hnone := get?_of_isEmpty hempty key
    rw [get?_put_self] at hnone
    cases hnone

/-! ## Values changed -/

section

variable {β : Type} (d : Dict κ α) (f : α → β)

theorem get?_map (key : κ) : (d.map f).get? key = (d.get? key).map f := by
  refine Option.ext fun value => ?_
  rw [← mem_entries_iff, Option.map_eq_some_iff]
  constructor
  · intro h
    obtain ⟨e, he, heq⟩ := List.mem_map.1 h
    cases heq
    exact ⟨e.2, get?_of_mem he, rfl⟩
  · rintro ⟨a, ha, rfl⟩
    exact List.mem_map.2 ⟨(key, a), mem_of_get? ha, rfl⟩

theorem map_put (key : κ) (value : α) : (d.put key value).map f = (d.map f).put key (f value) := by
  have hupdate : ∀ entries : List (κ × α), (update key value entries).map (fun e => (e.1, f e.2)) =
      update key (f value) (entries.map fun e => (e.1, f e.2)) := by
    intro entries
    induction entries with
    | nil => rfl
    | cons e rest ih => by_cases h : e.1 = key <;> simp [update, h, ih]
  exact Dict.ext (hupdate d.entries)

theorem map_erase (key : κ) : (d.erase key).map f = (d.map f).erase key :=
  Dict.ext (List.filter_map (f := fun e : κ × α => (e.1, f e.2)) (p := fun e => decide (e.1 ≠ key))).symm

theorem map_ofList (entries : List (κ × α)) :
    (ofList entries).map f = ofList (entries.map fun e => (e.1, f e.2)) := by
  have hfold : ∀ d : Dict κ α, (entries.foldl (fun d e => d.put e.1 e.2) d).map f =
      (entries.map fun e => (e.1, f e.2)).foldl (fun d e => d.put e.1 e.2) (d.map f) := by
    induction entries with
    | nil => exact fun _ => rfl
    | cons e rest ih =>
      intro d
      rw [List.foldl_cons, ih, map_put, List.map_cons, List.foldl_cons]
  exact hfold {}

omit [DecidableEq κ] in
theorem map_eq_self {change : α → α} (h : ∀ a ∈ d.values, change a = a) : d.map change = d := by
  refine Dict.ext ((List.map_congr_left fun e he => ?_).trans (List.map_id d.entries))
  exact congrArg (e.1, ·) (h e.2 (List.mem_map_of_mem he))

omit [DecidableEq κ] in
theorem values_map : (d.map f).values = d.values.map f := by simp [map, values]

omit [DecidableEq κ] in
theorem isEmpty_map : (d.map f).isEmpty = d.isEmpty := by simp [map, isEmpty]

end

end Dict

end EventScript
