import GuardClause.Proofs.Registry.Histories

/-!
# Owners told by history

Who owns an extension, and which language is registered under a name, can be told from the changes
that a registry went through, without running them. A language is registered when no later change
registered its name again or removed it (`Registered`). A name owns an extension when it was the
last one to be registered with it, and no removal of the name came later at a moment when the
language of that name listed the extension (`Owns`). One lemma for each kind of change says what
one more change does to either, and `owners_told_by_history` follows by induction from the end of
the history.
-/

namespace GuardClause.Registry

variable {α : Type} {history past later : List (Change α)} {c e : Change α} {d : Registration α}
  {name x : String}

/-- The last registration of its name in a history, with no removal of the name after it. -/
def Registered (history : List (Change α)) (d : Registration α) : Prop :=
  ∃ past later, history = past ++ Change.register d :: later ∧
    (∀ e, Change.register e ∈ later → e.name ≠ d.name) ∧ Change.unregister d.name ∉ later

/-- The last registration that lists an extension was under a name, and whenever the name was
removed after that, the language that was registered under it did not list the extension. -/
def Owns (history : List (Change α)) (name x : String) : Prop :=
  ∃ past d later, history = past ++ Change.register d :: later ∧ d.name = name ∧ x ∈ d.extensions ∧
    (∀ e, Change.register e ∈ later → x ∉ e.extensions) ∧
    ∀ before after e, later = before ++ Change.unregister name :: after →
      Registered (past ++ Change.register d :: before) e → e.name = name → x ∉ e.extensions

/-! ## One more change -/

/-- A change stands in a history with one more change as the last one, or before the last one. -/
theorem append_singleton_eq_iff :
    history ++ [c] = past ++ e :: later ↔
      (later = [] ∧ history = past ∧ c = e) ∨
        ∃ rest, later = rest ++ [c] ∧ history = past ++ e :: rest := by
  constructor
  · intro h
    rcases List.eq_nil_or_concat' later with rfl | ⟨rest, last, rfl⟩
    · obtain ⟨hpast, hlast⟩ := List.append_inj' h rfl
      exact Or.inl ⟨rfl, hpast, List.singleton_inj.mp hlast⟩
    · rw [← List.cons_append, ← List.append_assoc] at h
      obtain ⟨hpast, hlast⟩ := List.append_inj' h rfl
      obtain rfl := List.singleton_inj.mp hlast
      exact Or.inr ⟨rest, rfl, hpast⟩
  · rintro (⟨rfl, rfl, rfl⟩ | ⟨rest, rfl, rfl⟩)
    · rfl
    · rw [List.append_assoc, List.cons_append]

theorem not_registered_nil : ¬ Registered [] d := by
  rintro ⟨past, later, h, -⟩
  exact List.append_ne_nil_of_right_ne_nil past (List.cons_ne_nil _ later) h.symm

theorem registered_append_register {e : Registration α} :
    Registered (history ++ [Change.register e]) d ↔
      if e.name = d.name then e = d else Registered history d := by
  constructor
  · rintro ⟨past, later, h, hlast, hkept⟩
    rcases append_singleton_eq_iff.mp h with ⟨-, -, he⟩ | ⟨rest, rfl, hrest⟩
    · obtain rfl := Change.register.inj he
      rw [if_pos rfl]
    · rw [if_neg (hlast e (by simp))]
      refine ⟨past, rest, hrest, ?_, ?_⟩
      · exact fun c hc => hlast c (List.mem_append_left _ hc)
      · exact fun hc => hkept (List.mem_append_left _ hc)
  · split_ifs with hname
    · rintro rfl
      exact ⟨history, [], rfl, by simp, by simp⟩
    · rintro ⟨past, later, rfl, hlast, hkept⟩
      refine ⟨past, later ++ [Change.register e], by simp, ?_, by simpa using hkept⟩
      intro c hc
      rcases List.mem_append.mp hc with hc | hc
      · exact hlast c hc
      · obtain rfl := Change.register.inj (List.mem_singleton.mp hc)
        exact hname

theorem registered_append_unregister :
    Registered (history ++ [Change.unregister name]) d ↔ name ≠ d.name ∧ Registered history d := by
  constructor
  · rintro ⟨past, later, h, hlast, hkept⟩
    rcases append_singleton_eq_iff.mp h with ⟨-, -, he⟩ | ⟨rest, rfl, hrest⟩
    · cases he
    · refine ⟨?_, past, rest, hrest, ?_, ?_⟩
      · rintro rfl
        exact hkept (by simp)
      · exact fun c hc => hlast c (List.mem_append_left _ hc)
      · exact fun hc => hkept (List.mem_append_left _ hc)
  · rintro ⟨hne, past, later, rfl, hlast, hkept⟩
    refine ⟨past, later ++ [Change.unregister name], by simp, ?_, ?_⟩
    · intro c hc
      exact hlast c (by simpa using hc)
    · intro hc
      rcases List.mem_append.mp hc with hc | hc
      · exact hkept hc
      · exact hne (Change.unregister.inj (List.mem_singleton.mp hc)).symm

theorem not_owns_nil : ¬ Owns ([] : List (Change α)) name x := by
  rintro ⟨past, d, later, h, -⟩
  exact List.append_ne_nil_of_right_ne_nil past (List.cons_ne_nil _ later) h.symm

theorem owns_append_register {e : Registration α} :
    Owns (history ++ [Change.register e]) name x ↔
      if x ∈ e.extensions then e.name = name else Owns history name x := by
  constructor
  · rintro ⟨past, d, later, h, hname, hx, hlast, hkept⟩
    rcases append_singleton_eq_iff.mp h with ⟨-, -, he⟩ | ⟨rest, rfl, hrest⟩
    · obtain rfl := Change.register.inj he
      rwa [if_pos hx]
    · rw [if_neg (hlast e (by simp))]
      refine ⟨past, d, rest, hrest, hname, hx, ?_, ?_⟩
      · exact fun c hc => hlast c (List.mem_append_left _ hc)
      · rintro before after c rfl
        exact hkept before (after ++ [Change.register e]) c (by simp)
  · split_ifs with hx
    · intro hname
      refine ⟨history, e, [], rfl, hname, hx, by simp, ?_⟩
      intro before after c hnil
      exact absurd hnil.symm (List.append_ne_nil_of_right_ne_nil before (List.cons_ne_nil _ after))
    · rintro ⟨past, d, later, rfl, hname, hxd, hlast, hkept⟩
      refine ⟨past, d, later ++ [Change.register e], by simp, hname, hxd, ?_, ?_⟩
      · intro c hc
        rcases List.mem_append.mp hc with hc | hc
        · exact hlast c hc
        · obtain rfl := Change.register.inj (List.mem_singleton.mp hc)
          exact hx
      · intro before after c hsplit
        rcases append_singleton_eq_iff.mp hsplit with ⟨-, -, he⟩ | ⟨rest, -, hrest⟩
        · cases he
        · exact hkept before rest c hrest

theorem owns_append_unregister {removed : String} :
    Owns (history ++ [Change.unregister removed]) name x ↔
      Owns history name x ∧ ∀ d, removed = name → Registered history d → d.name = name →
        x ∉ d.extensions := by
  constructor
  · rintro ⟨past, d, later, h, hname, hx, hlast, hkept⟩
    rcases append_singleton_eq_iff.mp h with ⟨-, -, he⟩ | ⟨rest, rfl, rfl⟩
    · cases he
    · refine ⟨⟨past, d, rest, rfl, hname, hx, ?_, ?_⟩, ?_⟩
      · exact fun c hc => hlast c (List.mem_append_left _ hc)
      · rintro before after c rfl
        exact hkept before (after ++ [Change.unregister removed]) c (by simp)
      · rintro c rfl
        exact hkept rest [] c rfl
  · rintro ⟨⟨past, d, later, rfl, hname, hx, hlast, hkept⟩, hremoved⟩
    refine ⟨past, d, later ++ [Change.unregister removed], by simp, hname, hx, ?_, ?_⟩
    · intro c hc
      exact hlast c (by simpa using hc)
    · intro before after c hsplit
      rcases append_singleton_eq_iff.mp hsplit with ⟨-, rfl, he⟩ | ⟨rest, -, hrest⟩
      · exact hremoved c (Change.unregister.inj he)
      · exact hkept before rest c hrest

/-- A removal takes an extension from its owner when the owner is removed and its language lists the
extension. -/
theorem owner?_unregister_eq_some_iff {r : Registry α} {removed : String} :
    (r.unregister removed).owner? x = some name ↔
      r.owner? x = some name ∧
        ∀ d, removed = name → r.entries.get? name = some d → x ∉ d.extensions := by
  cases hentry : r.entries.get? removed with
  | none =>
      rw [unregister_of_absent hentry]
      refine (and_iff_left ?_).symm
      rintro d rfl hd
      cases hentry.symm.trans hd
  | some d =>
      rw [owner?_unregister hentry]
      split_ifs with htaken
      · refine iff_of_false not_false ?_
        rintro ⟨howner, hkept⟩
        have hname := Option.some.inj (htaken.2.symm.trans howner)
        exact hkept d hname (hname ▸ hentry) htaken.1
      · refine (and_iff_left_of_imp ?_).symm
        rintro howner e rfl he hx
        obtain rfl := Option.some.inj (hentry.symm.trans he)
        exact htaken ⟨hx, howner⟩

/-! ## Whole histories -/

/-- What is found in a registry that has a history stands under its own name. -/
theorem name_of_get?_run (h : (run history).entries.get? name = some d) : d.name = name := by
  induction history using List.reverseRecOn with
  | nil => cases h
  | append_singleton history c ih =>
      rw [run_append_singleton] at h
      cases c with
      | register e =>
          rw [step, get?_register] at h
          split_ifs at h with hname
          · obtain rfl := Option.some.inj h
            exact hname
          · exact ih h
      | unregister removed =>
          rw [step, get?_unregister] at h
          split_ifs at h
          exact ih h

theorem get?_run_name_iff : (run history).entries.get? d.name = some d ↔ Registered history d := by
  induction history using List.reverseRecOn with
  | nil => exact iff_of_false (Option.some_ne_none d).symm not_registered_nil
  | append_singleton history c ih =>
      rw [run_append_singleton]
      cases c with
      | register e =>
          rw [step, get?_register, registered_append_register]
          split_ifs
          · exact Option.some_inj
          · exact ih
      | unregister removed =>
          rw [step, get?_unregister, registered_append_unregister]
          split_ifs with hname
          · exact iff_of_false not_false fun h => h.1 hname
          · rw [ih, and_iff_right hname]

/-- What a history says of a name is what it leaves under the name. -/
theorem get?_run_iff :
    (run history).entries.get? name = some d ↔ d.name = name ∧ Registered history d := by
  constructor
  · intro h
    obtain rfl := name_of_get?_run h
    exact ⟨rfl, get?_run_name_iff.mp h⟩
  · rintro ⟨rfl, h⟩
    exact get?_run_name_iff.mpr h

/-- What a history says of an extension is what it leaves under the extension. -/
theorem owner?_run_iff : (run history).owner? x = some name ↔ Owns history name x := by
  induction history using List.reverseRecOn with
  | nil => exact iff_of_false (Option.some_ne_none name).symm not_owns_nil
  | append_singleton history c ih =>
      rw [run_append_singleton]
      cases c with
      | register e =>
          rw [step, owner?_register, owns_append_register]
          split_ifs
          · exact Option.some_inj
          · exact ih
      | unregister removed =>
          rw [step, owner?_unregister_eq_some_iff, owns_append_unregister, ih]
          refine and_congr_right fun _ => forall₂_congr fun d _ => ?_
          rw [get?_run_iff, and_comm, and_imp]

/-- After every history, an extension is owned by a name exactly if the last registration that
lists the extension was under that name, and the name was not removed afterwards while its language
listed the extension. A name is registered exactly if no removal of it follows its last
registration, and what is found under it is that registration. A removal answers whether the name
was registered, and one that answers that it was not changes and logs nothing. -/
theorem owners_told_by_history (history : List (Change α)) :
    (∀ x name, (run history).owner? x = some name ↔ Owns history name x) ∧
    (∀ name d, (run history).entries.get? name = some d ↔ d.name = name ∧ Registered history d) ∧
    (∀ name, (run history).has name = true ↔ ∃ d, d.name = name ∧ Registered history d) ∧
    (∀ name, ((run history).remove name).1 = (run history).has name) ∧
    ∀ name, ((run history).remove name).1 = false →
      run (history ++ [Change.unregister name]) = run history ∧
        (run history).unregisterLog name = [] := by
  refine ⟨fun x name => owner?_run_iff, fun name d => get?_run_iff, ?_, fst_remove _, ?_⟩
  · intro name
    rw [has, Table.has, Option.isSome_iff_exists]
    exact exists_congr fun d => get?_run_iff
  · intro name hanswer
    have habsent : (run history).has name = false := (fst_remove _ name).symm.trans hanswer
    rw [run_append_singleton]
    constructor
    · rw [has, Table.has, Option.isSome_eq_false_iff, Option.isNone_iff_eq_none] at habsent
      exact unregister_of_absent habsent
    · rw [unregisterLog, habsent]
      rfl

end GuardClause.Registry
