import EventScript.Proofs.CanonicalLines
import EventScript.Proofs.PaddedTerms

/-!
Variables read back after they were set.

In a line a reference reaches from a brace to the first closing brace, and further opening braces may stand in it.
The store takes such a reference as it is. Expressions and texts do not: for them a reference has no brace inside,
and what comes before the last opening brace is ordinary text. So a number is read back from a variable unless
there is an opening brace in its name, and then never, whatever the variables are.

Main facts:
* `isReference_iff_of_line`: which references of lines are references of texts;
* `head?_of_render`, `evaluate_ne_int`: what a text is rendered to that starts with no reference;
* `ofText_of_whole`, `ofText_of_not_whole`: what a text stands for;
* `set_reads_back_iff`: which variables read back.
-/

namespace EventScript

set_option autoImplicit false

open Text Condition

/-! ## References of lines and of texts -/

variable {cs : List Char}

theorem isReference_iff_of_line (h : Line.IsReference cs) : isReference cs = true ↔ '\x7b' ∉ cs.tail := by
  obtain ⟨inside, hne, hclosing, rfl⟩ := h
  have htail : '\x7b' ∉ ('\x7b' :: (inside ++ ['\x7d'])).tail ↔ '\x7b' ∉ inside := by simp
  rw [htail, isReference_iff]
  constructor
  · rintro ⟨name, hcs, -, hopening, -⟩
    obtain rfl : inside = name := by simpa using hcs
    exact hopening
  · exact fun hopening => ⟨inside, rfl, hne, hopening, hclosing⟩

/-- With a brace inside, no reference of a text starts where that of the line does. -/
theorem referenceAt_of_inner_brace (h : Line.IsReference cs) (hinner : '\x7b' ∈ cs.tail) (before : Option Char) :
    referenceAt before cs = none := by
  obtain ⟨inside, -, hclosing, rfl⟩ := h
  cases hat : referenceAt before ('\x7b' :: (inside ++ ['\x7d'])) with
  | none => rfl
  | some found =>
    obtain ⟨name, after, hcs, hletters, -⟩ := exists_of_referenceAt hat
    obtain ⟨rfl, -, -⟩ := (List.append_cons_inj_of_notMem hclosing List.not_mem_nil).1 (List.cons.inj hcs).2
    have hmem : '\x7b' ∈ inside := by simpa using hinner
    exact absurd (hletters _ hmem) (by decide)

/-! ## Texts that start with no reference -/

section

variable {α β : Type} {ctx : Nat} {m : Memory} {c : Char}

theorem Access.exists_of_bind_ok {a : Access α} {next : α → Access β} {y : β}
    (h : ((a >>= next).run.run m).1 = .ok y) :
    ∃ x m', a.run.run m = (.ok x, m') ∧ ((next x).run.run m').1 = .ok y := by
  rw [Access.run_bind] at h
  cases hrun : a.run.run m with
  | mk result m' =>
    rw [hrun] at h
    cases result with
    | error fault => cases h
    | ok x => exact ⟨x, m', rfl, h⟩

theorem Access.exists_of_ok {a : Access α} {x : α} (h : (a.run.run m).1 = .ok x) :
    ∃ m', a.run.run m = (.ok x, m') := ⟨_, Prod.ext h rfl⟩

theorem exists_of_filled {find : Option Char → List Char → Option (α × Nat)} {fill : Char ⊕ α → Access (List Char)}
    {piece : Char ⊕ α} {rest : List (Char ⊕ α)} (hscan : scan find cs = piece :: rest) {out : List Char}
    (h : ((filled find fill cs).run.run m).1 = .ok out) :
    ∃ first others, ((fill piece).run.run m).1 = .ok first ∧ out = first ++ others := by
  unfold filled at h
  rw [hscan, List.mapM_cons, map_eq_pure_bind, bind_assoc] at h
  obtain ⟨first, m₁, hfirst, h⟩ := Access.exists_of_bind_ok h
  rw [bind_assoc] at h
  obtain ⟨others, m₂, -, h⟩ := Access.exists_of_bind_ok h
  cases h
  exact ⟨first, others.flatten, by rw [hfirst], rfl⟩

theorem head?_of_filled {find : Option Char → List Char → Option (α × Nat)} {fill : Char ⊕ α → Access (List Char)}
    (hfill : ∀ c, fill (.inl c) = pure [c]) (hfind : find none (c :: cs) = none) {out : List Char}
    (h : ((filled find fill (c :: cs)).run.run m).1 = .ok out) : out.head? = some c := by
  have hscan : scan find (c :: cs) = .inl c :: scanFrom find (some c) 0 cs := by rw [scan, scanFrom, hfind]
  obtain ⟨first, others, hfirst, rfl⟩ := exists_of_filled hscan h
  rw [hfill] at hfirst
  cases hfirst
  rfl

theorem head?_of_render (hreference : referenceAt none (c :: cs) = none) (hc : c ≠ '%') {text : String}
    (h : ((render ctx (String.ofList (c :: cs))).run.run m).1 = .ok text) : text.toList.head? = some c := by
  rw [render_eq, String.toList_ofList] at h
  obtain ⟨out, m₁, hout, h⟩ := Access.exists_of_bind_ok h
  obtain ⟨others, rfl⟩ := List.head?_eq_some_iff.1 (head?_of_filled (fun _ => rfl) hreference (congrArg Prod.fst hout))
  rw [map_eq_pure_bind] at h
  obtain ⟨rendered, _, hrendered, h⟩ := Access.exists_of_bind_ok h
  cases h
  rw [String.toList_ofList]
  exact head?_of_filled (fun _ => rfl) (placeholderAt_eq_none hc none others) (congrArg Prod.fst hrendered)

theorem head?_trim (h : isBlank c = false) (cs : List Char) : (trim (c :: cs)).head? = some c := by
  obtain ⟨front, back, hcut, hfront, -, hback⟩ := exists_trim (c :: cs)
  cases front with
  | cons d front =>
    obtain ⟨rfl, -⟩ := List.cons.inj hcut
    rw [hfront _ List.mem_cons_self] at h
    cases h
  | nil =>
    rw [List.nil_append] at hcut
    cases htrim : trim (c :: cs) with
    | nil =>
      have hblank := hback c (by rw [htrim, List.nil_append] at hcut; rw [← hcut]; exact List.mem_cons_self)
      rw [h] at hblank
      cases hblank
    | cons d rest =>
      rw [htrim] at hcut
      obtain ⟨rfl, -⟩ := List.cons.inj hcut
      rfl

theorem ofText_of_whole {text : String} {n : Int} (h : Number.intOf? (trim text.toList) = .ok (some n)) :
    Value.ofText text = .ok (.int n) := by
  unfold Value.ofText
  rw [h]
  rfl

theorem ofText_of_not_whole {text : String} (h : Number.intOf? (trim text.toList) = .ok none) :
    Value.ofText text = .ok (if Value.spells text.toList "true" then .bool true
      else if Value.spells text.toList "false" then .bool false else .text text) := by
  unfold Value.ofText
  rw [h]
  simp only [Except.mapError, apply_ite (@Except.ok Fault Value)]
  rfl

theorem ofText_ne_int {text : String} (h : text.toList.head? = some '\x7b') (n : Int) :
    Value.ofText text ≠ .ok (.int n) := by
  obtain ⟨others, hchars⟩ := List.head?_eq_some_iff.1 h
  have hhead := head?_trim (c := '\x7b') (by decide) others
  obtain ⟨rest, htrim⟩ := List.head?_eq_some_iff.1 hhead
  have hnone : Number.intOf? ('\x7b' :: rest) = .ok none := rfl
  rw [← htrim, ← hchars] at hnone
  rw [ofText_of_not_whole hnone]
  intro hint
  split at hint
  · cases hint
  · split at hint <;> cases hint

theorem evaluate_ne_int (h : Line.IsReference cs) (hinner : '\x7b' ∈ cs.tail) (n : Int) :
    ((evaluate ctx (String.ofList cs)).run.run m).1 ≠ .ok (.int n) := by
  have hreference := referenceAt_of_inner_brace h hinner none
  obtain ⟨inside, -, -, rfl⟩ := h
  have htrim : trim (String.ofList ('\x7b' :: (inside ++ ['\x7d']))).toList = '\x7b' :: (inside ++ ['\x7d']) := by
    rw [String.toList_ofList, trim_of_trimmed (trimmed_braces inside)]
  have hlone : isReference ('\x7b' :: (inside ++ ['\x7d'])) = false := by rw [isReference, hreference]
  have hlocal : ∀ c, localNamed? c ('\x7b' :: (inside ++ ['\x7d'])) = none := fun c => rfl
  intro hint
  rw [run_evaluate_text (by rw [htrim, hlone]) (by rw [htrim, hlocal])] at hint
  obtain ⟨rendered, m', hrender, hint⟩ := Access.exists_of_bind_ok hint
  rw [Access.run_ofExcept] at hint
  refine ofText_ne_int ?_ n hint
  exact head?_of_render hreference (by decide) (congrArg Prod.fst hrender)

/-! ## Reading back -/

/-- A reference of texts is read back, both as a value and in a text. -/
theorem reads_back_of_isReference {reference : String} {n : Int} (h : isReference reference.toList = true)
    {m' : Memory} (hread : (Memory.read ctx reference).run.run m = (.ok (.int n), m')) :
    ((evaluate ctx reference).run.run m).1 = .ok (.int n) ∧
      ((render ctx reference).run.run m).1 = (Number.writeInt n).mapError Fault.digits := by
  have hin : (Value.int n).inText m'.lists = (Number.writeInt n).mapError Fault.digits := rfl
  have hplain : ∀ text, (Value.int n).inText m'.lists = .ok text → '%' ∉ text.toList := by
    intro text htext
    obtain ⟨d, ds, hchars, hdigits⟩ := exists_digits (inText_int_iff.1 htext)
    rw [hchars]
    exact fun hmem => (notMem_marks (hdigits _ hmem)).1 (by decide)
  have hnothing : Fixed "" := by decide
  have hrender := run_render_reference h hnothing hnothing hread rfl hplain
  simp only [String.empty_append, String.append_empty] at hrender
  refine ⟨by rw [run_evaluate_reference h hread rfl], ?_⟩
  rw [hrender, hin]
  cases Number.writeInt n <;> rfl

end

section

open Run Source

theorem sayable_of_meaning {line : String} {clause : Clause} (hline : OneLine line.toList)
    (h : meaning line = clause) : clause.Sayable := by
  have hphrase := isPhrase_trimmed hline
  unfold meaning at h
  generalize trimmed line = source at h hphrase
  rw [← h]
  exact sayable_ofString hphrase.1 hphrase.2

theorem exists_assigned {host : Host} {env : Invocation} {caller : Caller} {source reference text : String}
    {block : (Outcome → Bool) → Nat → Run Outcome} {ctx : Nat} {w : World} {value : Value}
    (hvalue : ((evaluate ctx text).run.run w.memory).1 = .ok value)
    (h : (result host (perform env caller (.variableSet reference text) source block ctx) w).2 = .ok (.done, none)) :
    ∃ m, (Memory.assign ctx reference value).run.run m =
      (.ok (), (result host (perform env caller (.variableSet reference text) source block ctx) w).1.memory) := by
  have hevaluate : result host (access (evaluate ctx text)) w = _ := result_access _ w
  rw [hvalue] at hevaluate
  generalize (w.note .accessed).changeMemory _ = w₁ at hevaluate
  have hassign : result host (access (Memory.assign ctx reference value)) w₁ = _ := result_access _ w₁
  unfold perform plainly at h ⊢
  rw [result_bind, result_bind_ok hevaluate, result_bind, hassign] at h ⊢
  refine ⟨w₁.memory, ?_⟩
  cases hrun : (Memory.assign ctx reference value).run.run w₁.memory with
  | mk ended m =>
    rw [hrun] at h
    cases ended with
    | error fault => cases h
    | ok _ => rfl

/-- After a line has set a variable to a number, the variable reads back as that number, and in texts as its
decimal text, unless an opening brace stands in its name; then it never does. -/
theorem set_reads_back_iff (host : Host) (env : Invocation) (caller : Caller)
    (block : (Outcome → Bool) → Nat → Run Outcome) (ctx : Nat) (w : World) (line reference value : String) (n : Int)
    (hline : OneLine line.toList) (hset : meaning line = .variableSet reference value)
    (hspace : Namespace.of reference ≠ .list)
    (hvalue : ((evaluate ctx value).run.run w.memory).1 = .ok (.int n))
    (hstored : (result host (perform env caller (meaning line) line block ctx) w).2 = .ok (.done, none)) :
    let m := (result host (perform env caller (meaning line) line block ctx) w).1.memory
    (((evaluate ctx reference).run.run m).1 = .ok (.int n) ↔ '\x7b' ∉ reference.toList.tail) ∧
    ('\x7b' ∉ reference.toList.tail →
      ((render ctx reference).run.run m).1 = (Number.writeInt n).mapError Fault.digits) ∧
    ('\x7b' ∈ reference.toList.tail →
      ∀ text, Number.writeInt n = .ok text → ((render ctx reference).run.run m).1 ≠ .ok text) := by
  obtain ⟨hreference, -, -⟩ := sayable_of_meaning hline hset
  have hlocal : Namespace.of reference ≠ .local := by
    obtain ⟨inside, -, -, hchars⟩ := hreference
    rw [← String.ofList_toList (s := reference), hchars]
    exact Namespace.of_braces_ne_local inside
  rw [hset] at hstored ⊢
  obtain ⟨m₀, hassigned⟩ := exists_assigned hvalue hstored
  intro m
  obtain ⟨touched, space, hread⟩ := Memory.run_read_assigned hlocal hspace hassigned
  have hiff := isReference_iff_of_line hreference
  by_cases hinner : '\x7b' ∈ reference.toList.tail
  · have hnumber : ((evaluate ctx (String.ofList reference.toList)).run.run m).1 ≠ .ok (.int n) :=
      evaluate_ne_int hreference hinner n
    rw [String.ofList_toList] at hnumber
    refine ⟨iff_of_false hnumber (not_not_intro hinner), fun hnone => absurd hinner hnone, ?_⟩
    intro _ text htext hrendered
    obtain ⟨d, ds, hchars, hdigits⟩ := exists_digits htext
    have hfirst := referenceAt_of_inner_brace hreference hinner none
    obtain ⟨inside, -, -, hcs⟩ := hreference
    rw [hcs] at hfirst
    rw [← String.ofList_toList (s := reference), hcs] at hrendered
    have hhead := head?_of_render hfirst (by decide) hrendered
    rw [hchars, List.head?_cons, Option.some_inj] at hhead
    exact (notMem_marks (hdigits d List.mem_cons_self)).1 (hhead ▸ by decide)
  · obtain ⟨hnumber, hdecimal⟩ := reads_back_of_isReference (hiff.2 hinner) hread
    exact ⟨iff_of_true hnumber hinner, fun _ => hdecimal, fun hmem => absurd hmem hinner⟩

theorem set_reads_back_of_score :
    let w : World := { memory := { contexts := ⟨#[{}]⟩ } }
    let env : Invocation := ⟨0, {}, {}, 0⟩
    let caller : Caller := fun _ _ _ => return .done
    let line := "set \x7b_island score\x7d to 5"
    let reference := "\x7b_island score\x7d"
    let stored := result (Roster.host {}) (perform env caller (meaning line) line (fun _ _ => return .done) 0) w
    OneLine line.toList ∧ meaning line = .variableSet reference "5" ∧ Namespace.of reference ≠ .list ∧
    ((evaluate 0 "5").run.run w.memory).1 = .ok (.int 5) ∧ stored.2 = .ok (.done, none) ∧
    '\x7b' ∉ reference.toList.tail ∧
    ((evaluate 0 reference).run.run stored.1.memory).1 = .ok (.int 5) ∧
    ((render 0 reference).run.run stored.1.memory).1 = (Number.writeInt 5).mapError Fault.digits := by
  intro w env caller line reference
  have hline : OneLine line.toList := oneLine_of_all (by decide)
  have hset : meaning line = .variableSet reference "5" := by decide +kernel
  have hspace : Namespace.of reference ≠ .list := by decide +kernel
  have hvalue : ((evaluate 0 "5").run.run w.memory).1 = .ok (.int 5) := by decide +kernel
  have hstored : (result (Roster.host {}) (perform env caller (meaning line) line (fun _ _ => return .done) 0) w).2 =
      .ok (.done, none) := by decide +kernel
  have hplain : '\x7b' ∉ reference.toList.tail := by decide
  have hback := set_reads_back_iff (Roster.host {}) env caller (fun _ _ => return .done) 0 w line reference "5" 5
    hline hset hspace hvalue hstored
  dsimp only at hback ⊢
  exact ⟨hline, hset, hspace, hvalue, hstored, hplain, hback.1.2 hplain, hback.2.1 hplain⟩

end

end EventScript
