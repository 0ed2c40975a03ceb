import EventScript.MainQueue
import Mathlib.Data.List.Induction

/-!
The order of the main thread's work.

Other threads hand in jobs and cancel promises, and the owner drains the queue, in any order. A drain is as
many drains of one entry, so that lists of acts also tell of threads that come between two entries of a drain.

Main definitions:
* `MainQueue.Act`, `MainQueue.Desk`: acts, and a queue with the world that its jobs change;
* `MainQueue.deskAfter`, `ranBy`: what acts make of a fresh queue, and the entries whose jobs they run;
* `MainQueue.CancelledIn`: whether acts cancel a promise.

Main facts:
* `MainQueue.state_runAll`, `result_runAll`: what running entries does;
* `MainQueue.get_perform_of_settled`: no act changes a promise that is not open;
* `MainQueue.drain_eq_singles`: a drain is as many drains of one entry;
* `MainQueue.sublist_handedIn`, `isOpen_waiting`: what holds of the entries after every list of acts;
* `MainQueue.jobs_run_once_in_order`: which jobs are run, in which order, and what becomes of their promises.
-/

namespace EventScript

set_option autoImplicit false

namespace Promise

variable {ε α : Type}

theorem cancel_of_ne_pending {p : Promise ε α} (h : p ≠ pending) : p.cancel.1 = p := by
  cases p with
  | pending => exact absurd rfl h
  | _ => rfl

theorem ofExcept_ne_pending (result : Except ε α) : ofExcept result ≠ pending := by
  cases result <;> simp [ofExcept]

theorem cancel_ne_pending (p : Promise ε α) : p.cancel.1 ≠ pending := by
  cases p <;> simp [cancel]

end Promise

namespace MainQueue

variable {σ ι ε α : Type}

/-! ## Single entries -/

theorem isOpen_iff (q : MainQueue ι ε α) (n : Nat) : q.isOpen n = true ↔ q.promises.get n = .pending := by
  unfold isOpen
  cases q.promises.get n <;> simp

@[simp] theorem waiting_settle (q : MainQueue ι ε α) (n : Nat) (result : Except ε α) :
    (q.settle n result).waiting = q.waiting := rfl

@[simp] theorem size_settle (q : MainQueue ι ε α) (n : Nat) (result : Except ε α) :
    (q.settle n result).promises.size = q.promises.size := by
  simp [settle, Table.modify]

theorem get_settle_self {q : MainQueue ι ε α} {n : Nat} (hsize : n < q.promises.size)
    (hopen : q.isOpen n = true) (result : Except ε α) :
    (q.settle n result).promises.get n = .ofExcept result := by
  rw [settle, Table.modify, Table.get_set_self _ _ hsize, (q.isOpen_iff n).mp hopen]
  rfl

theorem get_settle_of_ne (q : MainQueue ι ε α) {n m : Nat} (h : m ≠ n) (result : Except ε α) :
    (q.settle n result).promises.get m = q.promises.get m := by
  rw [settle, Table.modify, Table.get_set_of_ne _ _ h]

/-! ## Running entries -/

/-- The entries whose jobs are still to be run. -/
def openAmong (q : MainQueue ι ε α) (entries : List (Nat × ι)) : List (Nat × ι) :=
  entries.filter fun entry => q.isOpen entry.1

/-- What the jobs of entries make of a state, one after the other. -/
def runEach (work : σ → ι → σ × Except ε α) (s : σ) (entries : List (Nat × ι)) : σ :=
  entries.foldl (fun s entry => (work s entry.2).1) s

theorem runEach_append (work : σ → ι → σ × Except ε α) (s : σ) (before entries : List (Nat × ι)) :
    runEach work s (before ++ entries) = runEach work (runEach work s before) entries := List.foldl_append

theorem openAmong_cons_of_open {q : MainQueue ι ε α} {n : Nat} (h : q.isOpen n = true) (job : ι)
    (rest : List (Nat × ι)) : q.openAmong ((n, job) :: rest) = (n, job) :: q.openAmong rest :=
  List.filter_cons_of_pos (p := fun entry : Nat × ι => q.isOpen entry.1) h

theorem openAmong_cons_of_not_open {q : MainQueue ι ε α} {n : Nat} (h : ¬ q.isOpen n = true) (job : ι)
    (rest : List (Nat × ι)) : q.openAmong ((n, job) :: rest) = q.openAmong rest :=
  List.filter_cons_of_neg (p := fun entry : Nat × ι => q.isOpen entry.1) h

theorem openAmong_settle (q : MainQueue ι ε α) {n : Nat} {entries : List (Nat × ι)}
    (h : ∀ entry ∈ entries, n < entry.1) (result : Except ε α) :
    (q.settle n result).openAmong entries = q.openAmong entries := by
  refine List.filter_congr fun entry hentry => ?_
  have hne : entry.1 ≠ n := Nat.ne_of_gt (h entry hentry)
  rw [Bool.eq_iff_iff, isOpen_iff, isOpen_iff, get_settle_of_ne q hne]

section runAll

variable (work : σ → ι → σ × Except ε α)

@[simp] theorem waiting_runAll (s : σ) (q : MainQueue ι ε α) (entries : List (Nat × ι)) :
    (runAll work s q entries).2.waiting = q.waiting := by
  induction entries generalizing s q with
  | nil => rfl
  | cons entry rest ih =>
    rw [runAll]
    split <;> rw [ih]
    rfl

@[simp] theorem size_runAll (s : σ) (q : MainQueue ι ε α) (entries : List (Nat × ι)) :
    (runAll work s q entries).2.promises.size = q.promises.size := by
  induction entries generalizing s q with
  | nil => rfl
  | cons entry rest ih =>
    rw [runAll]
    split <;> simp [ih]

/-- A promise keeps what it holds where it is not open or its entry is not among those that are run. -/
theorem get_runAll (s : σ) (q : MainQueue ι ε α) (entries : List (Nat × ι)) {n : Nat}
    (h : q.isOpen n = true → ∀ entry ∈ entries, entry.1 ≠ n) :
    (runAll work s q entries).2.promises.get n = q.promises.get n := by
  induction entries generalizing s q with
  | nil => rfl
  | cons entry rest ih =>
    obtain ⟨m, job⟩ := entry
    rw [runAll]
    split
    · next hopen =>
      -- the entry that is run is another one: it is open, and this one is either not open or elsewhere
      have hne : n ≠ m := by
        rintro rfl
        exact h hopen (n, job) List.mem_cons_self rfl
      have hget := get_settle_of_ne q hne (work s job).2
      rw [← hget]
      refine ih _ _ fun hn entry hentry => h ?_ entry (List.mem_cons_of_mem _ hentry)
      rw [isOpen_iff, ← hget, ← isOpen_iff]
      exact hn
    · exact ih _ _ fun hn entry hentry => h hn entry (List.mem_cons_of_mem _ hentry)

theorem state_runAll (s : σ) (q : MainQueue ι ε α) {entries : List (Nat × ι)}
    (h : entries.Pairwise (·.1 < ·.1)) :
    (runAll work s q entries).1 = runEach work s (q.openAmong entries) := by
  induction entries generalizing s q with
  | nil => rfl
  | cons entry rest ih =>
    obtain ⟨n, job⟩ := entry
    obtain ⟨hfirst, hrest⟩ := List.pairwise_cons.mp h
    rw [runAll]
    split
    · next hopen =>
      rw [ih _ _ hrest, openAmong_settle q hfirst, openAmong_cons_of_open hopen]
      rfl
    · next hopen => rw [ih _ _ hrest, openAmong_cons_of_not_open hopen]

theorem result_runAll (s : σ) (q : MainQueue ι ε α) {entries before rest : List (Nat × ι)} {n : Nat} {job : ι}
    (h : entries.Pairwise (·.1 < ·.1)) (hsize : ∀ entry ∈ entries, entry.1 < q.promises.size)
    (hran : q.openAmong entries = before ++ (n, job) :: rest) :
    (runAll work s q entries).2.promises.get n = .ofExcept (work (runEach work s before) job).2 := by
  induction entries generalizing s q before with
  | nil => simp [openAmong] at hran
  | cons entry others ih =>
    obtain ⟨m, other⟩ := entry
    obtain ⟨hfirst, hothers⟩ := List.pairwise_cons.mp h
    have hsize' : ∀ entry ∈ others, entry.1 < q.promises.size :=
      fun entry hentry => hsize entry (List.mem_cons_of_mem _ hentry)
    rw [runAll]
    split
    · next hopen =>
      rw [openAmong_cons_of_open hopen] at hran
      cases before with
      | nil =>
        -- the first entry: later ones have greater numbers and leave its promise
        obtain ⟨hhead, -⟩ := List.cons.inj hran
        obtain ⟨rfl, rfl⟩ := Prod.mk.inj hhead
        rw [get_runAll]
        · exact get_settle_self (hsize _ List.mem_cons_self) hopen _
        · exact fun _ entry hentry => Nat.ne_of_gt (hfirst entry hentry)
      | cons first before =>
        obtain ⟨rfl, htail⟩ := List.cons.inj hran
        refine ih _ _ hothers (by simpa using hsize') ?_
        rw [openAmong_settle q hfirst]
        exact htail
    · next hopen =>
      rw [openAmong_cons_of_not_open hopen] at hran
      exact ih _ _ hothers hsize' hran

end runAll

/-! ## Acts -/

/-- What is done to a queue: other threads hand in jobs and cancel promises, the owner drains. -/
inductive Act (ι : Type) where
  | submit (job : ι)
  | cancel (n : Nat)
  | drain (limit : Option Int)

/-- What an act answers: the number of the new promise, whether the promise is cancelled now, or how many
entries were taken out. -/
inductive Answer where
  | promised (n : Nat)
  | cancelled (now : Bool)
  | taken (count : Nat)
deriving DecidableEq

/-- A queue and the world that its jobs change. -/
structure Desk (σ ι ε α : Type) where
  state : σ
  queue : MainQueue ι ε α

def Act.perform (work : σ → ι → σ × Except ε α) (d : Desk σ ι ε α) : Act ι → Desk σ ι ε α × Answer
  | submit job => (⟨d.state, d.queue.submit job⟩, .promised d.queue.promises.size)
  | cancel n =>
    let (queue, now) := d.queue.cancel n
    (⟨d.state, queue⟩, .cancelled now)
  | drain limit =>
    let (state, queue, count) := d.queue.drain work d.state limit
    (⟨state, queue⟩, .taken count)

/-- A desk after acts. -/
def Desk.after (work : σ → ι → σ × Except ε α) (d : Desk σ ι ε α) (acts : List (Act ι)) : Desk σ ι ε α :=
  acts.foldl (fun d act => (act.perform work d).1) d

/-- The entries whose jobs an act runs. -/
def Act.runs (q : MainQueue ι ε α) : Act ι → List (Nat × ι)
  | drain limit => q.openAmong (q.take limit).1
  | _ => []

/-- The entries whose jobs acts run, first the one that is run first. -/
def Desk.ran (work : σ → ι → σ × Except ε α) (d : Desk σ ι ε α) : List (Act ι) → List (Nat × ι)
  | [] => []
  | act :: acts => act.runs d.queue ++ Desk.ran work (act.perform work d).1 acts

/-- A state and a fresh queue after acts. -/
def deskAfter (work : σ → ι → σ × Except ε α) (s : σ) (acts : List (Act ι)) : Desk σ ι ε α :=
  Desk.after work ⟨s, {}⟩ acts

/-- The entries whose jobs acts on a fresh queue run. -/
def ranBy (work : σ → ι → σ × Except ε α) (s : σ) (acts : List (Act ι)) : List (Nat × ι) :=
  Desk.ran work ⟨s, {}⟩ acts

/-- The jobs that acts hand in; the place of a job is the number of its promise. -/
def handedIn (acts : List (Act ι)) : List ι :=
  acts.filterMap fun
    | .submit job => some job
    | _ => none

/-- Whether acts cancel a promise that was given out before. -/
def CancelledIn (acts : List (Act ι)) (n : Nat) : Prop :=
  ∃ before rest, acts = before ++ .cancel n :: rest ∧ n < (handedIn before).length

/-- How many entries a drain takes out of a queue of a length. -/
def room (length : Nat) : Option Int → Nat
  | none => length
  | some limit => min limit.toNat length

theorem room_le (length : Nat) (limit : Option Int) : room length limit ≤ length := by
  cases limit with
  | none => exact Nat.le_refl _
  | some limit => exact Nat.min_le_right _ _

/-- Jobs with their places. -/
def numbered (jobs : List ι) : List (Nat × ι) := jobs.zipIdx.map Prod.swap

theorem mem_numbered {jobs : List ι} {n : Nat} {job : ι} :
    (n, job) ∈ numbered jobs ↔ jobs[n]? = some job := by
  simp [numbered, List.mem_zipIdx_iff_getElem?]

theorem numbered_concat (jobs : List ι) (job : ι) :
    numbered (jobs ++ [job]) = numbered jobs ++ [(jobs.length, job)] := by
  simp [numbered, List.zipIdx_append]

theorem pairwise_numbered (jobs : List ι) : (numbered jobs).Pairwise (·.1 < ·.1) := by
  induction jobs using List.reverseRecOn with
  | nil => exact .nil
  | append_singleton jobs job ih =>
    rw [numbered_concat, List.pairwise_append]
    refine ⟨ih, List.pairwise_singleton _ _, ?_⟩
    rintro ⟨n, other⟩ hn last hlast
    obtain rfl := List.mem_singleton.mp hlast
    exact (List.getElem?_eq_some_iff.mp (mem_numbered.mp hn)).1

theorem allowed_eq (q : MainQueue ι ε α) (limit : Option Int) :
    q.allowed limit = room q.waiting.length limit := by
  cases limit <;> rfl

/-- The desk after the first entries were taken out, as many as said. -/
def Desk.drainFirst (work : σ → ι → σ × Except ε α) (d : Desk σ ι ε α) (k : Nat) : Desk σ ι ε α :=
  let (state, queue) :=
    runAll work d.state { d.queue with waiting := d.queue.waiting.drop k } (d.queue.waiting.take k)
  ⟨state, queue⟩

theorem perform_drain (work : σ → ι → σ × Except ε α) (d : Desk σ ι ε α) (limit : Option Int) :
    (Act.drain limit).perform work d =
      (d.drainFirst work (room d.queue.waiting.length limit), .taken (room d.queue.waiting.length limit)) := by
  simp [Act.perform, MainQueue.drain, MainQueue.take, allowed_eq, room_le, Desk.drainFirst]

/-! ## What an act does -/

section

variable (work : σ → ι → σ × Except ε α) (d : Desk σ ι ε α)

theorem get_perform_of_settled (act : Act ι) {n : Nat} (h : d.queue.promises.get n ≠ .pending) :
    (act.perform work d).1.queue.promises.get n = d.queue.promises.get n := by
  have hsize : n < d.queue.promises.size := by
    by_contra hle
    exact h (Table.get_of_size_le (Nat.le_of_not_lt hle))
  cases act with
  | submit job => exact Table.get_push_of_lt _ _ hsize
  | cancel m =>
    simp only [Act.perform, MainQueue.cancel]
    by_cases hm : n = m
    · subst hm
      rw [Promise.cancel_of_ne_pending h, Table.get_set_self _ _ hsize]
    · exact Table.get_set_of_ne _ _ hm
  | drain limit =>
    have hopen : ¬ d.queue.isOpen n = true := by rwa [isOpen_iff]
    exact get_runAll work d.state (d.queue.take limit).2 _ fun hn => absurd hn hopen

theorem size_perform (act : Act ι) :
    (act.perform work d).1.queue.promises.size = d.queue.promises.size + (handedIn [act]).length := by
  cases act with
  | submit job => exact Table.size_push _ _
  | cancel n => exact Table.size_set _ _ _
  | drain limit => exact size_runAll work d.state (d.queue.take limit).2 _

theorem waiting_drain (limit : Option Int) :
    ((Act.drain limit).perform work d).1.queue.waiting =
      d.queue.waiting.drop (room d.queue.waiting.length limit) := by
  rw [perform_drain]
  exact waiting_runAll work d.state _ _

/-- Whoever was run or waits is, after an act, run or waits or was handed in by it, in the same order. -/
theorem sublist_perform (act : Act ι) :
    (act.runs d.queue ++ (act.perform work d).1.queue.waiting).Sublist
      (d.queue.waiting ++ (handedIn [act]).map (d.queue.promises.size, ·)) := by
  cases act with
  | submit job => exact .refl _
  | cancel n =>
    simp [Act.runs, Act.perform, MainQueue.cancel, handedIn]
  | drain limit =>
    rw [waiting_drain, ← allowed_eq]
    have hruns : (d.queue.openAmong (d.queue.take limit).1).Sublist
        (d.queue.waiting.take (d.queue.allowed limit)) := List.filter_sublist
    have h := hruns.append (List.Sublist.refl (d.queue.waiting.drop (d.queue.allowed limit)))
    rw [List.take_append_drop] at h
    simpa [Act.runs, handedIn] using h

end

/-! ## Lists of acts -/

section

variable (work : σ → ι → σ × Except ε α)

theorem Desk.after_append (d : Desk σ ι ε α) (before acts : List (Act ι)) :
    d.after work (before ++ acts) = (d.after work before).after work acts := by
  simp [Desk.after]

theorem Desk.ran_append (d : Desk σ ι ε α) (before acts : List (Act ι)) :
    d.ran work (before ++ acts) = d.ran work before ++ (d.after work before).ran work acts := by
  induction before generalizing d with
  | nil => rfl
  | cons act before ih =>
    rw [List.cons_append, Desk.ran, ih, Desk.ran, List.append_assoc]
    rfl

theorem handedIn_append (before acts : List (Act ι)) :
    handedIn (before ++ acts) = handedIn before ++ handedIn acts := List.filterMap_append

theorem get_after_of_settled (d : Desk σ ι ε α) (acts : List (Act ι)) {n : Nat}
    (h : d.queue.promises.get n ≠ .pending) :
    (d.after work acts).queue.promises.get n = d.queue.promises.get n := by
  induction acts generalizing d with
  | nil => rfl
  | cons act acts ih =>
    have hstep := get_perform_of_settled work d act h
    have hrest := ih (act.perform work d).1 (by rwa [hstep])
    exact hrest.trans hstep

/-- Taking out some entries and one more is taking out one and then the others. -/
theorem Desk.drainFirst_succ (d : Desk σ ι ε α) (k : Nat) :
    d.drainFirst work (k + 1) = (d.drainFirst work 1).drainFirst work k := by
  obtain ⟨state, promises, waiting⟩ := d
  cases waiting with
  | nil => simp [drainFirst, runAll]
  | cons entry rest =>
    obtain ⟨n, job⟩ := entry
    by_cases hopen : promises.get n = .pending
    · have hopen' : ∀ waiting : List (Nat × ι), isOpen ⟨promises, waiting⟩ n = true :=
        fun waiting => (isOpen_iff _ _).mpr hopen
      simp [drainFirst, runAll, hopen', settle]
    · have hopen' : ∀ waiting : List (Nat × ι), isOpen ⟨promises, waiting⟩ n = false :=
        fun waiting => Bool.eq_false_iff.mpr fun h => hopen ((isOpen_iff _ _).mp h)
      simp [drainFirst, runAll, hopen']

/-- A drain is as many drains of one entry, so that whatever other threads do between two entries of a drain is
a list of acts too. -/
theorem drain_eq_singles (d : Desk σ ι ε α) (limit : Option Int) :
    ((Act.drain limit).perform work d).1 =
      d.after work (List.replicate (room d.queue.waiting.length limit) (.drain (some 1))) := by
  have hle := room_le d.queue.waiting.length limit
  rw [perform_drain]
  generalize room d.queue.waiting.length limit = k at hle
  induction k generalizing d with
  | zero => simp [Desk.drainFirst, runAll, Desk.after]
  | succ k ih =>
    have hone : ((Act.drain (some 1)).perform work d).1 = d.drainFirst work 1 := by
      rw [perform_drain, room, Int.toNat_one, Nat.min_eq_left (by omega)]
    have hrest : k ≤ (d.drainFirst work 1).queue.waiting.length := by
      rw [← hone, waiting_drain, room, Int.toNat_one, Nat.min_eq_left (by omega), List.length_drop]
      omega
    rw [Desk.drainFirst_succ, ih _ hrest, List.replicate_succ, ← hone]
    rfl

variable (s : σ)

theorem deskAfter_concat (acts : List (Act ι)) (act : Act ι) :
    deskAfter work s (acts ++ [act]) = (act.perform work (deskAfter work s acts)).1 :=
  Desk.after_append work _ acts [act]

theorem ranBy_concat (acts : List (Act ι)) (act : Act ι) :
    ranBy work s (acts ++ [act]) = ranBy work s acts ++ act.runs (deskAfter work s acts).queue := by
  rw [ranBy, Desk.ran_append, Desk.ran, Desk.ran, List.append_nil]
  rfl

theorem size_after (acts : List (Act ι)) :
    (deskAfter work s acts : Desk σ ι ε α).queue.promises.size = (handedIn acts).length := by
  induction acts using List.reverseRecOn with
  | nil => rfl
  | append_singleton acts act ih => rw [deskAfter_concat, size_perform, ih, handedIn_append, List.length_append]

/-- The entries that were run and those that wait are among the jobs handed in, each once and in order. -/
theorem sublist_handedIn (acts : List (Act ι)) :
    (ranBy work s acts ++ (deskAfter work s acts).queue.waiting).Sublist
      (numbered (handedIn acts)) := by
  induction acts using List.reverseRecOn with
  | nil => exact .refl _
  | append_singleton acts act ih =>
    rw [deskAfter_concat, ranBy_concat, List.append_assoc]
    have hstep := sublist_perform work (deskAfter work s acts) act
    refine (((List.Sublist.refl _).append hstep).trans ?_)
    rw [← List.append_assoc, size_after, handedIn_append]
    cases act with
    | submit job => 
      rw [show handedIn [Act.submit job] = [job] from rfl, numbered_concat]
      exact ih.append (.refl _)
    | _ => simpa [handedIn] using ih

/-- The numbers of the entries that were run, and then of those that wait, grow. -/
theorem pairwise_ran_waiting (acts : List (Act ι)) :
    (ranBy work s acts ++ (deskAfter work s acts).queue.waiting).Pairwise
      (·.1 < ·.1) :=
  (pairwise_numbered _).sublist (sublist_handedIn work s acts)

theorem waiting_lt_size (acts : List (Act ι)) :
    ∀ entry ∈ (deskAfter work s acts).queue.waiting,
      entry.1 < (deskAfter work s acts : Desk σ ι ε α).queue.promises.size := by
  intro entry hentry
  have hmem := (sublist_handedIn work s acts).mem (List.mem_append_right _ hentry)
  rw [size_after]
  exact (List.getElem?_eq_some_iff.mp (mem_numbered.mp hmem)).1

theorem concat_eq_split {acts before rest : List (Act ι)} {act place : Act ι}
    (h : acts ++ [act] = before ++ place :: rest) :
    acts = before ∧ act = place ∨ ∃ rest', acts = before ++ place :: rest' := by
  rcases List.eq_nil_or_concat rest with rfl | ⟨rest', last, rfl⟩
  · obtain ⟨hbefore, hact⟩ := List.append_inj' h rfl
    exact .inl ⟨hbefore, (List.cons.inj hact).1⟩
  · have h' : acts ++ [act] = (before ++ place :: rest') ++ [last] := by simpa using h
    exact .inr ⟨rest', (List.append_inj' h' rfl).1⟩

theorem cancelledIn_concat (acts : List (Act ι)) (act : Act ι) (n : Nat) :
    CancelledIn (acts ++ [act]) n ↔ CancelledIn acts n ∨ act = .cancel n ∧ n < (handedIn acts).length := by
  constructor
  · rintro ⟨before, rest, hacts, hn⟩
    rcases concat_eq_split hacts with ⟨rfl, hact⟩ | ⟨rest', hbefore⟩
    · exact .inr ⟨hact, hn⟩
    · exact .inl ⟨before, rest', hbefore, hn⟩
  · rintro (⟨before, rest, rfl, hn⟩ | ⟨rfl, hn⟩)
    · exact ⟨before, rest ++ [act], by simp, hn⟩
    · exact ⟨acts, [], rfl, hn⟩

theorem lt_length_of_cancelledIn {acts : List (Act ι)} {n : Nat} (h : CancelledIn acts n) :
    n < (handedIn acts).length := by
  obtain ⟨before, rest, rfl, hn⟩ := h
  rw [handedIn_append, List.length_append]
  omega

theorem get_drain_of_waiting (d : Desk σ ι ε α) (limit : Option Int)
    (h : d.queue.waiting.Pairwise (·.1 < ·.1)) {entry : Nat × ι}
    (hentry : entry ∈ ((Act.drain limit).perform work d).1.queue.waiting) :
    ((Act.drain limit).perform work d).1.queue.promises.get entry.1 = d.queue.promises.get entry.1 := by
  rw [waiting_drain, ← allowed_eq] at hentry
  rw [← List.take_append_drop (d.queue.allowed limit) d.queue.waiting, List.pairwise_append] at h
  exact get_runAll work d.state (d.queue.take limit).2 _
    fun _ taken htaken => Nat.ne_of_lt (h.2.2 taken htaken entry hentry)

theorem isOpen_waiting (acts : List (Act ι)) :
    ∀ entry ∈ (deskAfter work s acts).queue.waiting,
      (deskAfter work s acts : Desk σ ι ε α).queue.isOpen entry.1 = true ↔
        ¬ CancelledIn acts entry.1 := by
  induction acts using List.reverseRecOn with
  | nil => simp [deskAfter, Desk.after]
  | append_singleton acts act ih =>
    have hsize := size_after (ε := ε) (α := α) work s acts
    have hlt := waiting_lt_size work s acts
    have hwaiting := (List.pairwise_append.mp (pairwise_ran_waiting work s acts)).2.1
    intro entry hentry
    rw [deskAfter_concat] at hentry ⊢
    rw [cancelledIn_concat, isOpen_iff]
    generalize deskAfter work s acts = d at ih hsize hlt hwaiting hentry ⊢
    cases act with
    | submit job =>
      rcases List.mem_append.mp hentry with hold | hnew
      · have hget : ((Act.submit job).perform work d).1.queue.promises.get entry.1 =
            d.queue.promises.get entry.1 := Table.get_push_of_lt _ _ (hlt entry hold)
        rw [hget, ← isOpen_iff, ih entry hold]
        simp
      · -- the new entry: its number is given out now, so nothing before cancelled it
        obtain rfl := List.mem_singleton.mp hnew
        have hget : ((Act.submit job).perform work d).1.queue.promises.get d.queue.promises.size = .pending :=
          Table.get_push_self _ _
        have hfresh : ¬ CancelledIn acts d.queue.promises.size := fun h => by
          have := lt_length_of_cancelledIn h
          omega
        simp [hget, hfresh]
    | cancel n =>
      by_cases hn : entry.1 = n
      · subst hn
        have hget : ((Act.cancel entry.1 : Act ι).perform work d).1.queue.promises.get entry.1 =
            (d.queue.promises.get entry.1).cancel.1 := Table.get_set_self _ _ (hlt entry hentry)
        have hgiven := hlt entry hentry
        rw [hsize] at hgiven
        simp [hget, Promise.cancel_ne_pending, hgiven]
      · have hget : ((Act.cancel n : Act ι).perform work d).1.queue.promises.get entry.1 =
            d.queue.promises.get entry.1 := Table.get_set_of_ne _ _ hn
        rw [hget, ← isOpen_iff, ih entry hentry]
        simp [Ne.symm hn]
    | drain limit =>
      have hold : entry ∈ d.queue.waiting := by
        rw [waiting_drain] at hentry
        exact List.mem_of_mem_drop hentry
      rw [get_drain_of_waiting work d limit hwaiting hentry, ← isOpen_iff, ih entry hold]
      simp

/-! ## The jobs that are run -/

/-- Acts run the jobs of the entries in `ran`, one after the other, and no others. -/
theorem state_after (acts : List (Act ι)) :
    (deskAfter work s acts).state = runEach work s (ranBy work s acts) := by
  induction acts using List.reverseRecOn with
  | nil => rfl
  | append_singleton acts act ih =>
    have hwaiting := (List.pairwise_append.mp (pairwise_ran_waiting work s acts)).2.1
    rw [deskAfter_concat, ranBy_concat, runEach_append, ← ih]
    cases act with
    | drain limit => exact state_runAll work _ _ (hwaiting.sublist (List.take_sublist _ _))
    | _ => rfl

theorem mem_ran (acts : List (Act ι)) (entry : Nat × ι) :
    entry ∈ ranBy work s acts ↔
      ∃ before limit rest, acts = before ++ .drain limit :: rest ∧
        entry ∈ ((deskAfter work s before).queue.take limit).1 ∧
        (deskAfter work s before).queue.isOpen entry.1 = true := by
  induction acts using List.reverseRecOn with
  | nil => simp [ranBy, Desk.ran]
  | append_singleton acts act ih =>
    rw [ranBy_concat, List.mem_append, ih]
    constructor
    · rintro (⟨before, limit, rest, rfl, h⟩ | h)
      · exact ⟨before, limit, rest ++ [act], by simp, h⟩
      · cases act with
        | drain limit => exact ⟨acts, limit, [], rfl, List.mem_filter.mp h⟩
        | _ => cases h
    · rintro ⟨before, limit, rest, hacts, h⟩
      rcases concat_eq_split hacts with ⟨rfl, rfl⟩ | ⟨rest', hbefore⟩
      · exact .inr (List.mem_filter.mpr h)
      · exact .inl ⟨before, limit, rest', hbefore, h⟩

theorem result_ran (acts : List (Act ι)) {before rest : List (Nat × ι)} {n : Nat} {job : ι}
    (h : ranBy work s acts = before ++ (n, job) :: rest) :
    (deskAfter work s acts).queue.promises.get n =
      .ofExcept (work (runEach work s before) job).2 := by
  induction acts using List.reverseRecOn generalizing rest with
  | nil => simp [ranBy, Desk.ran] at h
  | append_singleton acts act ih =>
    have hwaiting := (List.pairwise_append.mp (pairwise_ran_waiting work s acts)).2.1
    have hlt := waiting_lt_size work s acts
    rw [deskAfter_concat]
    rw [ranBy_concat] at h
    -- a job that the last act runs: that act is a drain
    have hlast : ∀ now, before = ranBy work s acts ++ now →
        act.runs (deskAfter work s acts).queue = now ++ (n, job) :: rest →
        (act.perform work (deskAfter work s acts)).1.queue.promises.get n =
          .ofExcept (work (runEach work s before) job).2 := by
      rintro now rfl hruns
      cases act with
      | drain limit =>
        rw [runEach_append, ← state_after]
        exact result_runAll work _ _ (hwaiting.sublist (List.take_sublist _ _))
          (fun entry hentry => hlt entry (List.mem_of_mem_take hentry)) hruns
      | _ => simp [Act.runs] at hruns
    rcases List.append_eq_append_iff.mp h with ⟨now, hbefore, hruns⟩ | ⟨earlier, hran, hrest⟩
    · exact hlast now hbefore hruns
    · cases earlier with
      | nil => exact hlast [] (by simpa using hran.symm) hrest.symm
      | cons first earlier =>
        obtain ⟨rfl, -⟩ := List.cons.inj hrest
        have hold := ih hran
        rw [get_perform_of_settled, hold]
        rw [hold]
        exact Promise.ofExcept_ne_pending _

end

/-- Jobs are run once at most and in the order in which they were handed in; a job is run exactly when its
entry is taken out without having been cancelled before, and its promise holds what it made of the state, be it
a failure. A drain takes out and counts the first entries, as many as its limit allows, none for a negative one
and all without one; those that were cancelled count too. Promises that are not open stay as they are. -/
theorem jobs_run_once_in_order (work : σ → ι → σ × Except ε α) (s : σ) (acts : List (Act ι)) :
    -- what is run, in which order, and what the jobs see of each other
    (deskAfter work s acts).state = runEach work s (ranBy work s acts) ∧
    (ranBy work s acts).Pairwise (·.1 < ·.1) ∧
    (∀ n job, (n, job) ∈ ranBy work s acts → (handedIn acts)[n]? = some job) ∧
    (∀ n job, (n, job) ∈ ranBy work s acts ↔
      ∃ before limit rest, acts = before ++ .drain limit :: rest ∧ ¬ CancelledIn before n ∧
        (n, job) ∈ (deskAfter work s before).queue.waiting.take
          (room (deskAfter work s before).queue.waiting.length limit)) ∧
    -- the promises of the jobs that were run
    (∀ before n job rest, ranBy work s acts = before ++ (n, job) :: rest →
      (deskAfter work s acts).queue.promises.get n =
        .ofExcept (work (runEach work s before) job).2) ∧
    -- what the next act does to the queue, and what it answers
    (∀ job, (Act.submit job).perform work (deskAfter work s acts) =
      (⟨(deskAfter work s acts).state, (deskAfter work s acts).queue.submit job⟩,
        .promised (handedIn acts).length)) ∧
    (∀ job, (deskAfter work s (acts ++ [.submit job])).queue.waiting =
      (deskAfter work s acts).queue.waiting ++ [((handedIn acts).length, job)]) ∧
    (∀ n, (deskAfter work s (acts ++ [.cancel n])).queue.waiting =
      (deskAfter work s acts).queue.waiting) ∧
    (∀ limit, (deskAfter work s (acts ++ [.drain limit])).queue.waiting =
        (deskAfter work s acts).queue.waiting.drop
          (room (deskAfter work s acts).queue.waiting.length limit) ∧
      ((Act.drain limit).perform work (deskAfter work s acts)).2 =
        .taken (room (deskAfter work s acts).queue.waiting.length limit)) ∧
    -- a promise that is not open
    (∀ more n, (deskAfter work s acts).queue.promises.get n ≠ .pending →
      (deskAfter work s (acts ++ more)).queue.promises.get n =
        (deskAfter work s acts).queue.promises.get n) := by
  refine ⟨state_after work s acts, ?_, ?_, ?_, fun before n job rest => result_ran work s acts, ?_, ?_, ?_, ?_,
    ?_⟩
  · exact (List.pairwise_append.mp (pairwise_ran_waiting work s acts)).1
  · intro n job hran
    exact mem_numbered.mp ((sublist_handedIn work s acts).mem (List.mem_append_left _ hran))
  · intro n job
    rw [mem_ran]
    constructor
    · rintro ⟨before, limit, rest, hacts, htaken, hopen⟩
      have hwaiting := List.mem_of_mem_take htaken
      refine ⟨before, limit, rest, hacts, (isOpen_waiting work s before _ hwaiting).mp hopen, ?_⟩
      rwa [← allowed_eq]
    · rintro ⟨before, limit, rest, hacts, hcancelled, htaken⟩
      have hwaiting := List.mem_of_mem_take htaken
      refine ⟨before, limit, rest, hacts, ?_, (isOpen_waiting work s before _ hwaiting).mpr hcancelled⟩
      rwa [← allowed_eq] at htaken
  · intro job
    rw [← size_after work s acts]
    rfl
  · intro job
    rw [deskAfter_concat, ← size_after work s acts]
    rfl
  · intro n
    rw [deskAfter_concat]
    rfl
  · intro limit
    rw [deskAfter_concat]
    rw [waiting_drain, perform_drain]
    exact ⟨rfl, rfl⟩
  · intro more n hn
    rw [deskAfter, Desk.after_append]
    exact get_after_of_settled work _ more hn

end MainQueue

end EventScript
