import GuardClause.Proofs.Log.Programs

/-!
# Scopes tell what is written

The fields that an adapter has can be told from the text of the program (`Event.Told`): those of the
scopes around, of which the innermost one wins, then those with which the adapter was made, and then
those that the call is given. Only what leaks into the adapter (`Event.LeaksInto`) changes this: a
call through another one that is given its context, and the end of a scope on it whose copy a call
was given. A leak is over when a scope on the adapter is left that was open around it
(`Event.Over`). What carries the argument is that the adapter shows what the open scopes tell
(`State.Shows`) whenever all leaks are over.

`contexts_are_scoped` says this of every program over one adapter, together with what always holds.
-/

namespace GuardClause.Log

/-! ## What the open scopes tell -/

/-- The value that a field of an adapter has under the open scopes: that of the innermost scope on
the adapter which sets it, or else the one with which the adapter was made. -/
def visible (scopes : List Opening) (initial : Table Value) (i : Nat) (name : String) :
    Option Value :=
  ((scopes.filter (·.target = i)).findSome? fun o => o.fields.get? name).or
    (initial.get? name)

theorem visible_cons_self (scopes : List Opening) (initial : Table Value) (o : Opening)
    (name : String) :
    visible (o :: scopes) initial o.target name =
      (o.fields.get? name).or (visible scopes initial o.target name) := by
  unfold visible
  rw [List.filter_cons_of_pos (by simp), List.findSome?_cons]
  cases o.fields.get? name <;> rfl

theorem visible_cons_of_ne {scopes : List Opening} {initial : Table Value} {o : Opening} {i : Nat}
    (h : o.target ≠ i) : visible (o :: scopes) initial i = visible scopes initial i := by
  funext name
  simp [visible, h]

theorem visible_of_forall_ne {scopes : List Opening} {initial : Table Value} {i : Nat}
    (h : ∀ o ∈ scopes, o.target ≠ i) : visible scopes initial i = initial.get? := by
  funext name
  have hnil : scopes.filter (·.target = i) = [] := by simpa using h
  rw [visible, hnil]
  rfl

/-- An adapter has the fields that the open scopes tell. -/
def State.Shows (s : State) (scopes : List Opening) (i : Nat) : Prop :=
  ∀ a, s.memory.adapter? i = some a →
    ∃ initial, s.initials[i]? = some initial ∧ a.context.get? = visible scopes initial i

namespace Event

/-- What may give an adapter fields that the scopes do not tell: an enabled call of another adapter
that is given its context, and the end of a scope on it in whose body a call was given the copy. -/
def LeaksInto (sink : Sink) (i : Nat) : Event → Prop
  | logged _ s _ j c own _ =>
      j ≠ i ∧ (∃ h ∈ s.memory.handles[j]?, sink.isEnabled h.logger c.level = true) ∧
        ∃ h ∈ s.memory.handles[i]?, own = some h.context
  | left _ _ body _ _ target copy => target = i ∧ ∃ e ∈ body, e.Fills sink copy
  | _ => False

instance (sink : Sink) (i : Nat) : DecidablePred (LeaksInto sink i)
  | logged .. | left .. => instDecidableAnd
  | derived .. | entered .. => instDecidableFalse

/-- What an event did to an adapter is over when certain scopes are open: it happened in a scope on
the adapter that is not one of them. -/
def Over (i : Nat) (scopes : List Opening) (e : Event) : Prop :=
  ∃ o ∈ e.scopes, o.target = i ∧ o ∉ scopes

theorem Over.mono {i : Nat} {scopes scopes' : List Opening} {e : Event} (h : e.Over i scopes')
    (hsub : scopes ⊆ scopes') : e.Over i scopes := by
  obtain ⟨o, ho, htarget, hclosed⟩ := h
  exact ⟨o, ho, htarget, fun hopen => hclosed (hsub hopen)⟩

/-- What happened where no other scopes were open is not over. -/
theorem not_over {i : Nat} {scopes : List Opening} {e : Event} (h : e.scopes = scopes) :
    ¬ e.Over i scopes := by
  rintro ⟨o, ho, -, hclosed⟩
  exact hclosed (h ▸ ho)

/-- What an event does to an adapter, and what a call through the adapter comes to, are as the open
scopes tell. -/
def Told (sink : Sink) (logger : String) (i : Nat) : Event → Prop
  | logged scopes s _ j c own outcome =>
      s.Shows scopes i ∧
        (j = i → ∃ initial, s.initials[i]? = some initial ∧
          Answers sink logger c (visible scopes initial i) (own.map s.memory.read) outcome)
  | derived scopes s s' parent fields =>
      s.Shows scopes i ∧ s'.Shows scopes i ∧
        (parent = i → ∃ initial made, s.initials[i]? = some initial ∧
          s'.initials[s.memory.handles.length]? = some made ∧
          ∀ name, made.get? name = (fields.get? name).or (visible scopes initial i name))
  | entered scopes s s' target fields =>
      s.Shows scopes i ∧ s'.Shows (s.opening target fields :: scopes) i
  | left scopes _ body _ s' target copy =>
      (target = i → ∀ e ∈ body, ¬ e.Fills sink copy) → s'.Shows scopes i

end Event

/-- What happens is as the open scopes tell, whenever all that leaked into the adapter before is
over. -/
def ToldUnlessLeaked (sink : Sink) (logger : String) (i : Nat) (es : List Event) : Prop :=
  ∀ earlier e later, es = earlier ++ e :: later →
    (∀ e' ∈ earlier, e'.LeaksInto sink i → e'.Over i e.scopes) → e.Told sink logger i

namespace ToldUnlessLeaked

variable {sink : Sink} {logger : String} {i : Nat} {es es' : List Event} {e : Event}

theorem nil : ToldUnlessLeaked sink logger i [] := by
  intro earlier e later hsplit
  exact absurd hsplit.symm (by simp)

theorem cons (he : e.Told sink logger i) (hes : ToldUnlessLeaked sink logger i es) :
    ToldUnlessLeaked sink logger i (e :: es) := by
  rintro (_ | ⟨first, earlier⟩) e' later hsplit hquiet
  · obtain ⟨rfl, -⟩ := List.cons.inj hsplit
    exact he
  · obtain ⟨-, hrest⟩ := List.cons.inj hsplit
    exact hes earlier e' later hrest (List.forall_mem_cons.mp hquiet).2

/-- Of the later events it is enough to look at those before which all leaks are over. -/
theorem append (hes : ToldUnlessLeaked sink logger i es)
    (hes' : ∀ earlier e later, es' = earlier ++ e :: later →
      (∀ e' ∈ es, e'.LeaksInto sink i → e'.Over i e.scopes) →
      (∀ e' ∈ earlier, e'.LeaksInto sink i → e'.Over i e.scopes) → e.Told sink logger i) :
    ToldUnlessLeaked sink logger i (es ++ es') := by
  intro earlier e later hsplit hquiet
  rcases List.append_eq_append_iff.mp hsplit with
    ⟨rest, rfl, hrest⟩ | ⟨_ | ⟨first, rest⟩, rfl, hrest⟩
  · obtain ⟨hfirst, hsecond⟩ := List.forall_mem_append.mp hquiet
    exact hes' rest e later hrest hfirst hsecond
  · exact hes' [] e later hrest.symm (by simpa using hquiet) (by simp)
  · obtain ⟨rfl, -⟩ := List.cons.inj hrest
    exact hes earlier e rest rfl hquiet

theorem concat (hes : ToldUnlessLeaked sink logger i es)
    (he : (∀ e' ∈ es, e'.LeaksInto sink i → e'.Over i e.scopes) → e.Told sink logger i) :
    ToldUnlessLeaked sink logger i (es ++ [e]) := by
  refine hes.append ?_
  rintro (_ | ⟨first, earlier⟩) e' later hsplit hquiet -
  · obtain ⟨rfl, -⟩ := List.cons.inj hsplit
    exact he hquiet
  · exact absurd hsplit (by simp)

end ToldUnlessLeaked

namespace State.Shows

variable {sink : Sink} {logger : String} {s s' : State} {scopes : List Opening} {h : Handle}
  {i j : Nat} {c : Call} {own : Option Nat} {fields : Table Value} {r : Run}

/-- What an adapter has is told as long as it does not change. -/
theorem congr (hs : s.Shows scopes i) (hadapter : s'.memory.adapter? i = s.memory.adapter? i)
    (hinitial : ∀ t, s.initials[i]? = some t → s'.initials[i]? = some t) :
    s'.Shows scopes i := by
  intro a ha
  obtain ⟨initial, hi, hget⟩ := hs a (hadapter ▸ ha)
  exact ⟨initial, hinitial initial hi, hget⟩

/-- A call changes nothing for an adapter whose context no other adapter gives to it. -/
theorem call (hs : s.Shows scopes i) (hv : s.Valid logger)
    (hlt : ∀ a, own = some a → a < s.memory.dicts.length) (hj : s.memory.handles[j]? = some h)
    (hquiet : j ≠ i → ∀ k, s.memory.handles[i]? = some k → own = some k.context →
      sink.isEnabled h.logger c.level = false) :
    (s.call sink h c own).2.Shows scopes i := by
  rcases s.call_cases sink h c own with ⟨-, hsame⟩ | ⟨address, hon, rfl, hfill⟩
  · rwa [hsame]
  · rw [hfill]
    intro a ha
    cases hi : s.memory.handles[i]? with
    | none =>
        have hnone : (s.fill h address).memory.adapter? i = none := Memory.adapter?_eq_none hi
        exact (Option.some_ne_none a (ha.symm.trans hnone)).elim
    | some k =>
        obtain ⟨initial, hinitial, hget⟩ := hs _ (Memory.adapter?_of_getElem? hi)
        refine ⟨initial, hinitial, ?_⟩
        rw [adapter?_fill (hlt address rfl) hi] at ha
        obtain rfl := Option.some.inj ha
        split_ifs with hk
        · by_cases hij : j = i
          · -- The adapter brings its own fields into its own context.
            subst hij
            obtain rfl := Option.some.inj (hj.symm.trans hi)
            rw [← hget]
            refine (Adapter.get?_process (hv.distinct h.context) _).trans ?_
            funext name
            exact Option.or_self
          · exact absurd (hon.symm.trans (hquiet hij k hi (congrArg some hk))) (by decide)
        · exact hget

/-- A new adapter has the fields with which it was made, since no scope is open on it. -/
theorem derive (hs : s.Shows scopes i) (hv : s.Valid logger) (hopens : s.Opens scopes) :
    (s.derive h fields).Shows scopes i := by
  intro a ha
  rcases lt_trichotomy i s.memory.handles.length with hlt | rfl | hgt
  · have hinitial := fun t => (s.extends_derive h fields).initial (i := i) (t := t)
    exact hs.congr (adapter?_derive hv hlt) hinitial a ha
  · rw [adapter?_derive_self] at ha
    obtain rfl := Option.some.inj ha
    have hother : ∀ o ∈ scopes, o.target ≠ s.memory.handles.length := fun o ho =>
      (hopens o ho).1.ne
    exact ⟨_, initial_derive hv, (visible_of_forall_ne hother).symm⟩
  · have hnone : (s.derive h fields).memory.adapter? i = none := by
      apply Memory.adapter?_eq_none
      rw [handles_derive]
      exact List.getElem?_eq_none (by simpa using hgt)
    exact (Option.some_ne_none a (ha.symm.trans hnone)).elim

theorem enter (hs : s.Shows scopes i) (hv : s.Valid logger) (hj : s.memory.handles[j]? = some h)
    (hfields : fields.keys.Nodup) :
    (s.enter j h fields).Shows (s.opening j fields :: scopes) i := by
  by_cases hji : j = i
  · subst hji
    intro a ha
    rw [adapter?_enter_self hj] at ha
    obtain rfl := Option.some.inj ha
    obtain ⟨initial, hinitial, hget⟩ := hs _ (Memory.adapter?_of_getElem? hj)
    refine ⟨initial, hinitial, ?_⟩
    funext name
    refine (Table.get?_merge hfields _ name).trans ?_
    rw [congrFun hget name]
    exact (visible_cons_self scopes initial (s.opening j fields) name).symm
  · intro a ha
    obtain ⟨initial, hinitial, hget⟩ := hs a (adapter?_enter_of_ne hv hji ▸ ha)
    exact ⟨initial, hinitial, hget.trans (visible_cons_of_ne hji).symm⟩

/-- The adapter of a scope has again what it had before the scope, and the others have what they
had at the end of its body. -/
theorem leave (hs : s.Shows scopes i) (hv : s.Valid logger) (hj : s.memory.handles[j]? = some h)
    (hbody : r.Sound sink logger (s.opening j fields :: scopes) (s.enter j h fields))
    (hquiet : j = i → ∀ e ∈ r.events, ¬ e.Fills sink s.memory.dicts.length)
    (hshows : j ≠ i → r.state.Shows (s.opening j fields :: scopes) i) :
    (r.state.leave j s.memory.dicts.length).Shows scopes i := by
  by_cases hji : j = i
  · subst hji
    have hgrows := (s.extends_enter j h fields).trans hbody.grows
    exact hs.congr (hbody.restored hv hj (hquiet rfl)) fun t ht => hgrows.initial ht
  · intro a ha
    obtain ⟨initial, hinitial, hget⟩ := hshows hji a (adapter?_leave_of_ne hji ▸ ha)
    exact ⟨initial, hinitial, hget.trans (visible_cons_of_ne hji)⟩

end State.Shows

namespace Run

/-- What happens in a run is as the open scopes tell whenever all that leaked into the adapter is
over, and so is what the run leaves behind. -/
structure Told (sink : Sink) (logger : String) (i : Nat) (scopes : List Opening) (r : Run) :
    Prop where
  events : ToldUnlessLeaked sink logger i r.events
  shows : (∀ e ∈ r.events, e.LeaksInto sink i → e.Over i scopes) → r.state.Shows scopes i

namespace Told

variable {sink : Sink} {logger : String} {s s' : State} {scopes : List Opening} {h : Handle}
  {own : Option Nat} {fields : Table Value} {i j : Nat} {r later : Run} {failed : Bool}

theorem idle (hs : s.Shows scopes i) : (Run.idle s failed).Told sink logger i scopes :=
  ⟨.nil, fun _ => hs⟩

theorem append (hr : r.Told sink logger i scopes)
    (hinside : ∀ e ∈ later.events, scopes ⊆ e.scopes)
    (hlater : r.state.Shows scopes i → later.Told sink logger i scopes) :
    (r.append later).Told sink logger i scopes := by
  constructor
  · refine hr.events.append fun earlier e rest hsplit hfirst hsecond => ?_
    have he : e ∈ later.events := hsplit ▸ List.mem_append_right _ List.mem_cons_self
    have hshows := hr.shows fun e' he' hleak => (hfirst e' he' hleak).mono (hinside e he)
    exact (hlater hshows).events earlier e rest hsplit hsecond
  · intro hquiet
    obtain ⟨hfirst, hsecond⟩ := List.forall_mem_append.mp hquiet
    exact (hlater (hr.shows hfirst)).shows hsecond

theorem log {c : Call} (hs : s.Shows scopes i) (hg : s.Gives logger s' own)
    (hj : s'.memory.handles[j]? = some h) :
    (Run.mk (s'.call sink h c own).2 failed
      [.logged scopes s' (s'.call sink h c own).2 j c own (s'.call sink h c own).1]).Told
        sink logger i scopes := by
  have hs' : s'.Shows scopes i := hs.congr (hg.adapter_eq i) fun t ht => hg.initials_eq ▸ ht
  refine ⟨.cons ⟨hs', ?_⟩ .nil, fun hquiet => ?_⟩
  · rintro rfl
    obtain ⟨initial, hinitial, hget⟩ := hs' _ (Memory.adapter?_of_getElem? hj)
    have hcalls : Calls sink s' (s'.call sink h c own).2 (s'.memory.adapter h) c own
        (s'.call sink h c own).1 := State.calls hg.valid hg.lt
    have hlogger : (s'.memory.adapter h).logger = logger :=
      hg.valid.logger_eq h (List.mem_of_getElem? hj)
    exact ⟨initial, hinitial, hlogger ▸ hget ▸ hcalls.answers⟩
  · refine hs'.call hg.valid hg.lt hj fun hne k hk hown => ?_
    by_contra hon
    have hleak := hquiet _ (List.mem_singleton.mpr rfl)
      ⟨hne, ⟨h, hj, eq_true_of_ne_false hon⟩, k, hk, hown⟩
    exact Event.not_over rfl hleak

theorem derive (hs : s.Shows scopes i) (hv : s.Valid logger) (hopens : s.Opens scopes)
    (hj : s.memory.handles[j]? = some h) (hfields : fields.keys.Nodup) :
    (Run.mk (s.derive h fields) failed
      [.derived scopes s (s.derive h fields) j fields]).Told sink logger i scopes := by
  have hs' : (s.derive h fields).Shows scopes i := hs.derive hv hopens
  refine ⟨.cons ⟨hs, hs', ?_⟩ .nil, fun _ => hs'⟩
  rintro rfl
  obtain ⟨initial, hinitial, hget⟩ := hs _ (Memory.adapter?_of_getElem? hj)
  refine ⟨initial, _, hinitial, State.initial_derive hv, fun name => ?_⟩
  rw [← hget]
  exact Table.get?_merge hfields _ name

/-- Leaks are over for the adapter of a scope when it is left, unless its copy was filled. -/
theorem within (hs : s.Shows scopes i) (hv : s.Valid logger) (hj : s.memory.handles[j]? = some h)
    (hfields : fields.keys.Nodup)
    (hsound : r.Sound sink logger (s.opening j fields :: scopes) (s.enter j h fields))
    (hbody : r.Told sink logger i (s.opening j fields :: scopes)) :
    (Run.within scopes s j h fields r).Told sink logger i scopes := by
  have hleave : (∀ e ∈ r.events, e.LeaksInto sink i → e.Over i scopes) →
      (j = i → ∀ e ∈ r.events, ¬ e.Fills sink s.memory.dicts.length) →
        (r.state.leave j s.memory.dicts.length).Shows scopes i := by
    intro hinner hcopy
    refine hs.leave hv hj hsound hcopy fun hji => hbody.shows fun e he hleak => ?_
    -- A scope on the adapter in which it leaked is not the one around the body.
    obtain ⟨o, ho, rfl, hclosed⟩ := hinner e he hleak
    refine ⟨o, ho, rfl, fun hopen => ?_⟩
    rcases List.mem_cons.mp hopen with rfl | hopen
    · exact hji rfl
    · exact hclosed hopen
  constructor
  · exact .cons ⟨hs, hs.enter hv hj hfields⟩ (hbody.events.concat hleave)
  · intro hquiet
    obtain ⟨-, hrest⟩ := List.forall_mem_cons.mp hquiet
    obtain ⟨hinner, hleft⟩ := List.forall_mem_append.mp hrest
    refine hleave hinner fun hji e he hfills => ?_
    exact Event.not_over rfl (hleft _ (List.mem_singleton.mpr rfl) ⟨hji, e, he, hfills⟩)

end Told

end Run

theorem Program.told_run (sink : Sink) (p : Program) {logger : String} {scopes : List Opening}
    {s : State} {i : Nat} (hv : s.Valid logger) (hs : s.Shows scopes i)
    (hopens : s.Opens scopes) : (p.run sink scopes s).Told sink logger i scopes := by
  induction p generalizing scopes s with
  | done | fail => exact .idle hs
  | make fields => exact .idle (hs.congr (State.adapter?_make hv fields i) fun _ h => h)
  | takeContext _ | takeCopy _ =>
      unfold run
      split
      · exact .idle hs
      · exact .idle (hs.congr rfl fun _ h => h)
  | log j c given =>
      unfold run
      split
      · rename_i h own s' hj hgive
        have hg := State.gives hv hgive
        exact .log hs hg (hg.handles_eq ▸ hj)
      · exact .idle hs
  | derive parent given =>
      unfold run
      split
      · rename_i h fields hj hgiven
        exact .derive hs hv hopens hj (State.nodup_given? hv hgiven)
      · exact .idle hs
  | within target given body ih =>
      unfold run
      split
      · rename_i h fields hj hgiven
        have hfields := State.nodup_given? hv hgiven
        have hv' : (s.enter target h fields).Valid logger := hv.enter fields
        have hopens' : (s.enter target h fields).Opens (s.opening target fields :: scopes) :=
          hopens.enter hj
        apply Run.Told.within hs hv hj hfields (body.sound_run sink hv' hopens')
        exact ih hv' (hs.enter hv hj hfields) hopens'
      · exact .idle hs
  | seq first second ih ih' =>
      have hsound := first.sound_run sink hv hopens
      unfold run
      dsimp only
      split
      · exact ih hv hs hopens
      · have hopens' := hopens.mono hsound.grows
        have hinside := (second.sound_run sink hsound.valid hopens').inside
        exact (ih hv hs hopens).append hinside fun hs' => ih' hsound.valid hs' hopens'
  | attempt body handler ih ih' =>
      have hsound := body.sound_run sink hv hopens
      unfold run
      dsimp only
      split
      · have hopens' := hopens.mono hsound.grows
        have hinside := (handler.sound_run sink hsound.valid hopens').inside
        exact (ih hv hs hopens).append hinside fun hs' => ih' hsound.valid hs' hopens'
      · exact ih hv hs hopens

/-! ## Programs over one adapter -/

/-- The state in which a program over one adapter starts. -/
def State.start (logger : String) (context : Fields) : State :=
  ⟨⟨[context.table], [⟨logger, 0⟩]⟩, [], [context.table]⟩

theorem State.valid_start (logger : String) (context : Fields) :
    (State.start logger context).Valid logger := by
  constructor
  case context_lt | logger_eq =>
      intro h hh
      obtain rfl := List.mem_singleton.mp hh
      simp [start]
  case held_lt => simp [start]
  case distinct =>
      intro a
      cases a with
      | zero => exact context.distinct
      | succ a => exact List.nodup_nil
  case length_initials => rfl

theorem State.shows_start (logger : String) (context : Fields) (i : Nat) :
    (State.start logger context).Shows [] i := by
  intro a ha
  cases i with
  | zero =>
      obtain rfl := Option.some.inj ha
      exact ⟨context.table, rfl, rfl⟩
  | succ i => exact (Option.some_ne_none a ha.symm).elim

/-- In a program over one adapter, a scope that is left has its adapter back as it was, unless a
call in its body was given the copy, a derived adapter leaves the others as they are, and a call
brings the fields of its adapter into the dictionary that it is given and nowhere else. For every
adapter, whenever all that leaked into it is over, its calls are answered by the fields that the
open scopes tell: all of them are written, unless one has a reserved name or hides the message. -/
theorem contexts_are_scoped (sink : Sink) (logger : String) (context : Fields) (p : Program) :
    (∀ e ∈ (p.run sink [] (State.start logger context)).events, e.Happens sink logger) ∧
      ∀ i earlier e later,
        (p.run sink [] (State.start logger context)).events = earlier ++ e :: later →
        (∀ e' ∈ earlier, e'.LeaksInto sink i → e'.Over i e.scopes) → e.Told sink logger i := by
  have hv := State.valid_start logger context
  have hopens : (State.start logger context).Opens [] := by simp [State.Opens]
  constructor
  · exact (p.sound_run sink hv hopens).happens
  · intro i earlier e later hevents hquiet
    have hrun := p.told_run sink hv (State.shows_start logger context i) hopens
    exact hrun.events earlier e later hevents hquiet

/-- Two scopes on one adapter that both set a step. In them a child logs twice, the second time
with the context of the adapter, and then there is a failure. A call comes after the scopes, with
the dictionary that the first one was given. -/
def Program.twoSteps : Program :=
  .seq (.make ⟨[("step", .int 3)], by decide⟩) <|
  .seq
    (.attempt
      (.within 0 (.fresh ⟨[("language", .text "java"), ("step", .int 1)], by decide⟩)
        (.within 0 (.fresh ⟨[("step", .int 2)], by decide⟩)
          (.seq (.derive 0 (.fresh ⟨[("child", .bool true)], by decide⟩))
            (.seq (.log 1 ⟨.info, "inside", none⟩ (.held 0))
              (.seq (.takeContext 0)
                (.seq (.log 1 ⟨.info, "leaking", none⟩ (.held 1)) .fail))))))
      .done)
    (.log 0 ⟨.error, "after", none⟩ (.held 0))

/-- The adapter of one request. -/
def State.ofRequest : State := .start "app" ⟨[("request_id", .text "r")], by decide⟩

/-- What happens in these scopes. -/
def Program.eventsOfTwoSteps : List Event :=
  (Program.twoSteps.run ⟨20, some 20⟩ [] State.ofRequest).events

/-- What leaks into the adapter is over when it logs. -/
theorem contexts_are_scoped_twoSteps :
    (∀ e ∈ Program.eventsOfTwoSteps, e.Happens ⟨20, some 20⟩ "app") ∧
      ∃ earlier e, Program.eventsOfTwoSteps = earlier ++ [e] ∧ earlier.length = 7 ∧
        (∃ e' ∈ earlier, e'.LeaksInto ⟨20, some 20⟩ 0) ∧ e.Told ⟨20, some 20⟩ "app" 0 := by
  obtain ⟨hhappens, htold⟩ := contexts_are_scoped ⟨20, some 20⟩ "app"
    ⟨[("request_id", .text "r")], by decide⟩ Program.twoSteps
  have hne : Program.eventsOfTwoSteps ≠ [] := List.cons_ne_nil _ _
  have hsplit := (List.dropLast_append_getLast hne).symm
  have hover : ∀ e' ∈ Program.eventsOfTwoSteps.dropLast,
      e'.LeaksInto ⟨20, some 20⟩ 0 → ∃ o ∈ e'.scopes, o.target = 0 := by
    decide
  refine ⟨hhappens, _, _, hsplit, rfl, by decide, htold 0 _ _ [] hsplit fun e' he' hleak => ?_⟩
  obtain ⟨o, ho, htarget⟩ := hover e' he' hleak
  exact ⟨o, ho, htarget, List.not_mem_nil⟩

/-- The call within the scopes leaves their fields in the dictionary, and the one after them writes
them too. -/
example : Program.eventsOfTwoSteps.filterMap (fun
      | .logged _ _ _ _ c _ (.ok [r]) => some (c.message, r.render.get? "context")
      | _ => none) =
    [("inside", some (.record [("step", .int 2), ("child", .bool true)])),
      ("leaking", some (.record [("step", .int 2), ("child", .bool true)])),
      ("after", some (.record [("step", .int 2), ("child", .bool true)]))] := rfl

/-- A call with a field that hides the message of its record. -/
def Program.hidesMessage : Program :=
  .log 0 ⟨.info, "m", none⟩ (.fresh ⟨[("getMessage", .int 1)], by decide⟩)

/-- A call through a child that is given the context of its parent. -/
def Program.passesContext : Program :=
  .seq (.derive 0 (.fresh ⟨[("child", .bool true)], by decide⟩))
    (.seq (.takeContext 0) (.log 1 ⟨.info, "m", none⟩ (.held 0)))

/-- A call in a scope that is given the copy of the scope. -/
def Program.passesCopy : Program :=
  .within 0 (.fresh ⟨[("step", .int 1)], by decide⟩)
    (.seq (.takeCopy 0) (.log 0 ⟨.info, "m", none⟩ (.held 0)))

/-- A field that is not reserved may keep a record from being written, a call through a child may
change its parent, and fields of a scope may stay when it is left. -/
theorem not_written_and_not_scoped :
    (messageField ∉ reservedFields ∧ messageField ≠ silentField ∧
      ∃ s s', (Program.hidesMessage.run ⟨20, some 20⟩ [] State.ofRequest).events =
        [.logged [] s s' 0 ⟨.info, "m", none⟩ (some 1) (.ok [])]) ∧
    State.ofRequest.memory.adapter? 0 = some ⟨"app", [("request_id", .text "r")]⟩ ∧
    (Program.passesContext.run ⟨20, some 20⟩ [] State.ofRequest).state.memory.adapter? 0 =
      some ⟨"app", [("request_id", .text "r"), ("child", .bool true)]⟩ ∧
    (Program.passesCopy.run ⟨20, some 20⟩ [] State.ofRequest).state.memory.adapter? 0 =
      some ⟨"app", [("request_id", .text "r"), ("step", .int 1)]⟩ := by
  refine ⟨⟨by decide, by decide, ?_⟩, rfl, rfl, rfl⟩
  exact ⟨_, _, rfl⟩

end GuardClause.Log
