import GuardClause.Proofs.Log.Memory
import GuardClause.Proofs.Log.Records

/-!
# Programs that log

A program opens scopes on adapters, derives adapters with further fields from others and logs
through them, and any part of it may fail (`Program.run`). It may hold dictionaries and give them
along: such as it has made, the contexts of adapters, and the copies that scopes keep aside.
Adapters are numbered as they are made, and dictionaries as the program gets hold of them.

What happens in a run does not depend on what the program does elsewhere (`Event.Happens`): a scope
that is left, in whatever way, has its adapter back as it was, unless a call in its body was given
the copy, and deriving an adapter or logging through one changes no other, except that a call
changes an adapter whose very context it is given. There is one lemma for each part of a program,
and `Program.sound_run` puts them together.
-/

namespace GuardClause.Log

/-- What a call, a scope or a new adapter is given for its fields. -/
inductive Given where
  | null
  | fresh (fields : Fields)
  /-- A dictionary that the program holds. -/
  | held (k : Nat)

/-- The names of the parameters with which an adapter is derived. No further field can have one. -/
def deriveParameters : List String := ["self"]

/-- The names of the parameters with which a scope is made. None of its fields can have one. -/
def scopeParameters : List String := ["self", "logger"]

/-- A program that logs through adapters. -/
inductive Program where
  | done
  | fail
  /-- A new dictionary. -/
  | make (fields : Fields)
  /-- The dictionary that is at present the context of an adapter. -/
  | takeContext (adapter : Nat)
  /-- The copy that an open scope keeps aside; the innermost scope has number 0. -/
  | takeCopy (scope : Nat)
  | log (adapter : Nat) (call : Call) (given : Given)
  /-- A new adapter with the context of another one and further fields. -/
  | derive (parent : Nat) (given : Given)
  /-- A body with a scope of its own around it. -/
  | within (target : Nat) (given : Given) (body : Program)
  | seq (first second : Program)
  /-- A body, and what runs when it fails. -/
  | attempt (body handler : Program)

/-- A scope that is open on an adapter. -/
structure Opening where
  target : Nat
  fields : Table Value
  /-- The address of the copy that it keeps aside. -/
  copy : Nat

/-- What happens in a run, with the scopes that are open around it, the innermost one first, and the
states before and after. A scope that is left is noted with the state in which it was entered and
with what happened in its body. -/
inductive Event where
  | logged (scopes : List Opening) (before after : State) (adapter : Nat) (call : Call)
      (own : Option Nat) (outcome : Except RecordFault (List Record))
  | derived (scopes : List Opening) (before after : State) (parent : Nat) (fields : Table Value)
  | entered (scopes : List Opening) (before after : State) (target : Nat) (fields : Table Value)
  | left (scopes : List Opening) (entry : State) (body : List Event) (before after : State)
      (target copy : Nat)

/-- What a program leaves behind. -/
structure Run where
  state : State
  failed : Bool
  events : List Event

namespace State

/-- The dictionary that a call is given. A new one is held from then on. -/
def give (s : State) : Given → Option (Option Nat × State)
  | .null => some (none, s)
  | .fresh fields => some (some s.memory.dicts.length, s.make fields)
  | .held k => (s.held[k]?).map fun a => (some a, s)

/-- The table that is given. -/
def tableOf? (s : State) : Given → Option (Table Value)
  | .null => none
  | .fresh fields => some fields.table
  | .held k => (s.held[k]?).map s.memory.read

/-- The fields that a scope or a new adapter is given. They have to be there, under names that are
not those of parameters. -/
def given? (s : State) (parameters : List String) (given : Given) : Option (Table Value) :=
  (s.tableOf? given).filter fun fields => !fields.keys.any parameters.contains

/-- The outcome of a call, and the state after it. -/
def call (s : State) (sink : Sink) (h : Handle) (c : Call) (own : Option Nat) :
    Except RecordFault (List Record) × State :=
  let (outcome, memory) := s.memory.log sink h c.level c.message own c.error
  (outcome, { s with memory := memory })

/-- The scope on an adapter that is entered in a state. -/
def opening (s : State) (target : Nat) (fields : Table Value) : Opening :=
  ⟨target, fields, s.memory.dicts.length⟩

end State

namespace Run

/-- A part of a program that does nothing to adapters. -/
def idle (s : State) (failed : Bool) : Run := ⟨s, failed, []⟩

/-- One run after another. -/
def append (r later : Run) : Run := { later with events := r.events ++ later.events }

/-- The run of a scope on an adapter, made of the run of its body. -/
def within (scopes : List Opening) (s : State) (target : Nat) (h : Handle) (fields : Table Value)
    (body : Run) : Run :=
  let copy := (s.opening target fields).copy
  let s' := body.state.leave target copy
  ⟨s', body.failed, .entered scopes s (s.enter target h fields) target fields ::
    (body.events ++ [.left scopes s body.events body.state s' target copy])⟩

end Run

/-- What a program does where certain scopes are open. A number that nothing has is a failure. -/
def Program.run (sink : Sink) : Program → List Opening → State → Run
  | done, _, s => .idle s false
  | fail, _, s => .idle s true
  | make fields, _, s => .idle (s.make fields) false
  | takeContext i, _, s =>
      match s.memory.handles[i]? with
      | none => .idle s true
      | some h => .idle (s.take h.context) false
  | takeCopy k, scopes, s =>
      match scopes[k]? with
      | none => .idle s true
      | some o => .idle (s.take o.copy) false
  | log i c given, scopes, s =>
      match s.memory.handles[i]?, s.give given with
      | some h, some (own, s) =>
          let (outcome, s') := s.call sink h c own
          ⟨s', !outcome.isOk, [.logged scopes s s' i c own outcome]⟩
      | _, _ => .idle s true
  | derive parent given, scopes, s =>
      match s.memory.handles[parent]?, s.given? deriveParameters given with
      | some h, some fields =>
          ⟨s.derive h fields, false, [.derived scopes s (s.derive h fields) parent fields]⟩
      | _, _ => .idle s true
  | within target given body, scopes, s =>
      match s.memory.handles[target]?, s.given? scopeParameters given with
      | some h, some fields =>
          .within scopes s target h fields
            (run sink body (s.opening target fields :: scopes) (s.enter target h fields))
      | _, _ => .idle s true
  | seq first second, scopes, s =>
      let r := run sink first scopes s
      if r.failed then r else r.append (run sink second scopes r.state)
  | attempt body handler, scopes, s =>
      let r := run sink body scopes s
      if r.failed then r.append (run sink handler scopes r.state) else r

/-! ## What happens -/

/-- What a call through an adapter does. The dictionary that it is given has afterwards the fields
of the context too, nothing else changes in memory, and so only adapters change whose context it is.
A call that is not enabled changes nothing. -/
structure Calls (sink : Sink) (s s' : State) (a : Adapter) (c : Call) (own : Option Nat)
    (outcome : Except RecordFault (List Record)) : Prop where
  answers : Answers sink a.logger c a.context.get? (own.map s.memory.read) outcome
  dropped : sink.isEnabled a.logger c.level = false → s' = s
  filled : ∀ address, sink.isEnabled a.logger c.level = true → own = some address → ∀ name,
    (s'.memory.read address).get? name =
      (a.context.get? name).or ((s.memory.read address).get? name)
  elsewhere : ∀ address, own ≠ some address → s'.memory.read address = s.memory.read address
  adapters : ∀ j k, s.memory.handles[j]? = some k → s'.memory.adapter? j =
    some (if sink.isEnabled a.logger c.level = true ∧ own = some k.context
      then ⟨k.logger, a.process (s.memory.read k.context)⟩
      else s.memory.adapter k)

namespace Event

/-- The scopes that are open around an event. -/
def scopes : Event → List Opening
  | logged scopes .. | derived scopes .. | entered scopes .. | left scopes .. => scopes

/-- A call that is enabled is given the dictionary at an address. -/
def Fills (sink : Sink) (address : Nat) : Event → Prop
  | logged _ s _ i c own _ =>
      own = some address ∧ ∃ h ∈ s.memory.handles[i]?, sink.isEnabled h.logger c.level = true
  | _ => False

instance (sink : Sink) (address : Nat) : DecidablePred (Fills sink address)
  | logged .. => instDecidableAnd
  | derived .. | entered .. | left .. => instDecidableFalse

/-- What an event does to the adapters of a logger. -/
def Happens (sink : Sink) (logger : String) : Event → Prop
  | logged _ s s' i c own outcome =>
      ∃ a, s.memory.adapter? i = some a ∧ a.logger = logger ∧ Calls sink s s' a c own outcome
  | derived _ s s' parent fields =>
      ∃ a, s.memory.adapter? parent = some a ∧
        s'.memory.adapter? s.memory.handles.length = some (a.withContext fields) ∧
        ∀ j < s.memory.handles.length, s'.memory.adapter? j = s.memory.adapter? j
  | entered _ s s' target fields =>
      ∃ a, s.memory.adapter? target = some a ∧
        s'.memory.adapter? target = some (a.withContext fields) ∧
        ∀ j, target ≠ j → s'.memory.adapter? j = s.memory.adapter? j
  | left _ entry body s s' target copy =>
      ((∀ e ∈ body, ¬ e.Fills sink copy) →
        s'.memory.adapter? target = entry.memory.adapter? target) ∧
      s'.memory.adapter? target = some ⟨logger, s.memory.read copy⟩ ∧
      ∀ j, target ≠ j → s'.memory.adapter? j = s.memory.adapter? j

end Event

namespace State

variable {sink : Sink} {logger : String} {s s' : State} {h : Handle} {i : Nat} {c : Call}
  {own : Option Nat} {given : Given} {fields : Table Value}

/-- A call that is enabled and is given a dictionary fills it, and any other changes nothing. -/
theorem call_cases (s : State) (sink : Sink) (h : Handle) (c : Call) (own : Option Nat) :
    (sink.isEnabled h.logger c.level = false ∨ own = none) ∧ (s.call sink h c own).2 = s ∨
      ∃ a, sink.isEnabled h.logger c.level = true ∧ own = some a ∧
        (s.call sink h c own).2 = s.fill h a := by
  cases own with
  | none => exact Or.inl ⟨Or.inr rfl, rfl⟩
  | some a =>
      unfold call Memory.log
      dsimp only
      cases hon : sink.isEnabled h.logger c.level with
      | false => exact Or.inl ⟨Or.inl rfl, rfl⟩
      | true => exact Or.inr ⟨a, rfl, rfl, rfl⟩

theorem nodup_given? {parameters : List String} (hv : s.Valid logger)
    (hgiven : s.given? parameters given = some fields) : fields.keys.Nodup := by
  have htable : s.tableOf? given = some fields := (Option.filter_eq_some_iff.mp hgiven).1
  cases given with
  | null => exact (Option.some_ne_none fields htable.symm).elim
  | fresh f =>
      obtain rfl := Option.some.inj htable
      exact f.distinct
  | held k =>
      obtain ⟨a, -, rfl⟩ := Option.map_eq_some_iff.mp htable
      exact hv.distinct a

/-- What a call is given is there, and nothing that was there before has changed. -/
structure Gives (logger : String) (s s' : State) (own : Option Nat) : Prop where
  valid : s'.Valid logger
  grows : s.Extends s'
  lt : ∀ a, own = some a → a < s'.memory.dicts.length
  read_eq : ∀ a < s.memory.dicts.length, s'.memory.read a = s.memory.read a
  handles_eq : s'.memory.handles = s.memory.handles
  initials_eq : s'.initials = s.initials
  adapter_eq : ∀ i, s'.memory.adapter? i = s.memory.adapter? i

theorem gives (hv : s.Valid logger) (hgive : s.give given = some (own, s')) :
    s.Gives logger s' own := by
  cases given with
  | null =>
      obtain ⟨rfl, rfl⟩ := Prod.mk.inj (Option.some.inj hgive)
      refine ⟨hv, .refl s, ?_, fun _ _ => rfl, rfl, rfl, fun _ => rfl⟩
      exact fun a h => (Option.some_ne_none a h.symm).elim
  | fresh fields =>
      obtain ⟨rfl, rfl⟩ := Prod.mk.inj (Option.some.inj hgive)
      refine ⟨hv.make fields, s.extends_make fields, ?_, ?_, rfl, rfl, adapter?_make hv fields⟩
      · rintro a h
        obtain rfl := Option.some.inj h
        rw [length_make]
        exact Nat.lt_succ_self _
      · exact fun a ha => read_make_of_lt ha fields
  | held k =>
      obtain ⟨a, ha, hpair⟩ := Option.map_eq_some_iff.mp hgive
      obtain ⟨rfl, rfl⟩ := Prod.mk.inj hpair
      refine ⟨hv, .refl s, ?_, fun _ _ => rfl, rfl, rfl, fun _ => rfl⟩
      rintro b h
      obtain rfl := Option.some.inj h
      exact hv.held_lt a (List.mem_of_getElem? ha)

/-- A call does what it should. -/
theorem calls (hv : s.Valid logger) (hlt : ∀ a, own = some a → a < s.memory.dicts.length) :
    Calls sink s (s.call sink h c own).2 (s.memory.adapter h) c own
      (s.call sink h c own).1 := by
  have hanswers : Answers sink (s.memory.adapter h).logger c (s.memory.adapter h).context.get?
      (own.map s.memory.read) (s.call sink h c own).1 := by
    apply sink.answers_log (hv.distinct h.context) c
    intro t ht
    obtain ⟨a, -, rfl⟩ := Option.map_eq_some_iff.mp ht
    exact hv.distinct a
  rcases s.call_cases sink h c own with ⟨hidle, hsame⟩ | ⟨a, hon, rfl, hfill⟩
  · rw [hsame]
    have hnot : ∀ a, ¬ (sink.isEnabled (s.memory.adapter h).logger c.level = true ∧
        own = some a) := by
      rintro a ⟨hon, hown⟩
      rcases hidle with hoff | hnone
      · exact absurd (hon.symm.trans hoff) (by decide)
      · exact Option.some_ne_none a (hown.symm.trans hnone)
    refine ⟨hanswers, fun _ => rfl, ?_, fun _ _ => rfl, ?_⟩
    · exact fun a hon hown => (hnot a ⟨hon, hown⟩).elim
    · intro j k hk
      rw [if_neg (hnot k.context), Memory.adapter?_of_getElem? hk]
  · rw [hfill]
    have ha := hlt a rfl
    refine ⟨hanswers, fun hoff => ?_, ?_, ?_, ?_⟩
    · exact absurd (hon.symm.trans hoff) (by decide)
    · rintro b - hb name
      obtain rfl := Option.some.inj hb
      rw [read_fill ha, if_pos rfl]
      exact congrFun (Adapter.get?_process (hv.distinct h.context) _) name
    · intro b hb
      rw [read_fill ha, if_neg fun hab => hb (congrArg some hab)]
    · intro j k hk
      rw [adapter?_fill ha hk]
      by_cases hak : a = k.context
      · rw [if_pos hak, if_pos ⟨hon, congrArg some hak⟩]
      · rw [if_neg hak, if_neg fun hboth => hak (Option.some.inj hboth.2)]

theorem Valid.call (hv : s.Valid logger) (hlt : ∀ a, own = some a → a < s.memory.dicts.length) :
    (s.call sink h c own).2.Valid logger := by
  rcases s.call_cases sink h c own with ⟨-, hsame⟩ | ⟨a, -, rfl, hfill⟩
  · rwa [hsame]
  · rw [hfill]
    exact hv.fill (hlt a rfl)

theorem extends_call (s : State) (sink : Sink) (h : Handle) (c : Call) (own : Option Nat) :
    s.Extends (s.call sink h c own).2 := by
  rcases s.call_cases sink h c own with ⟨-, hsame⟩ | ⟨a, -, -, hfill⟩
  · rw [hsame]
    exact .refl s
  · rw [hfill]
    exact s.extends_fill h a

/-- All open scopes are on adapters that are there, and so are their copies. -/
def Opens (s : State) (scopes : List Opening) : Prop :=
  ∀ o ∈ scopes, o.target < s.memory.handles.length ∧ o.copy < s.memory.dicts.length

theorem Opens.mono {scopes : List Opening} (hopens : s.Opens scopes) (hgrows : s.Extends s') :
    s'.Opens scopes := by
  intro o ho
  obtain ⟨htarget, hcopy⟩ := hopens o ho
  exact ⟨htarget.trans_le hgrows.handles_le, hcopy.trans_le hgrows.dicts_le⟩

theorem Opens.enter {scopes : List Opening} (hopens : s.Opens scopes)
    (hi : s.memory.handles[i]? = some h) :
    (s.enter i h fields).Opens (s.opening i fields :: scopes) := by
  have hgrows := s.extends_enter i h fields
  refine List.forall_mem_cons.mpr ⟨⟨?_, ?_⟩, hopens.mono hgrows⟩
  · exact (List.getElem?_eq_some_iff.mp hi).1.trans_le hgrows.handles_le
  · exact s.lt_length_enter i h fields

end State

namespace Run

/-- A run keeps states valid, memory only grows in it, only the dictionaries that calls are given
change, and in it happens what should happen, within the scopes that are open around it. -/
structure Sound (sink : Sink) (logger : String) (scopes : List Opening) (s : State) (r : Run) :
    Prop where
  valid : r.state.Valid logger
  grows : s.Extends r.state
  kept : ∀ a < s.memory.dicts.length, (∀ e ∈ r.events, ¬ e.Fills sink a) →
    r.state.memory.read a = s.memory.read a
  happens : ∀ e ∈ r.events, e.Happens sink logger
  inside : ∀ e ∈ r.events, scopes ⊆ e.scopes

namespace Sound

variable {sink : Sink} {logger : String} {s s' : State} {scopes : List Opening} {h : Handle}
  {own : Option Nat} {fields : Table Value} {i : Nat} {r later : Run} {failed : Bool}

theorem idle (hv : s'.Valid logger) (hgrows : s.Extends s')
    (hread : ∀ a < s.memory.dicts.length, s'.memory.read a = s.memory.read a) :
    (Run.idle s' failed).Sound sink logger scopes s :=
  ⟨hv, hgrows, fun a ha _ => hread a ha, by simp [Run.idle], by simp [Run.idle]⟩

theorem unchanged (hv : s.Valid logger) : (Run.idle s failed).Sound sink logger scopes s :=
  .idle hv (.refl s) fun _ _ => rfl

theorem append (hr : r.Sound sink logger scopes s)
    (hlater : later.Sound sink logger scopes r.state) :
    (r.append later).Sound sink logger scopes s := by
  refine ⟨hlater.valid, hr.grows.trans hlater.grows, fun a ha hquiet => ?_,
    List.forall_mem_append.mpr ⟨hr.happens, hlater.happens⟩,
    List.forall_mem_append.mpr ⟨hr.inside, hlater.inside⟩⟩
  obtain ⟨hfirst, hsecond⟩ := List.forall_mem_append.mp hquiet
  exact (hlater.kept a (ha.trans_le hr.grows.dicts_le) hsecond).trans (hr.kept a ha hfirst)

theorem log {c : Call} (hg : s.Gives logger s' own) (hi : s'.memory.handles[i]? = some h) :
    (Run.mk (s'.call sink h c own).2 failed
      [.logged scopes s' (s'.call sink h c own).2 i c own (s'.call sink h c own).1]).Sound
        sink logger scopes s := by
  have hcalls : Calls sink s' (s'.call sink h c own).2 (s'.memory.adapter h) c own
      (s'.call sink h c own).1 := State.calls hg.valid hg.lt
  have hlogger := hg.valid.logger_eq h (List.mem_of_getElem? hi)
  refine ⟨hg.valid.call hg.lt, hg.grows.trans (s'.extends_call sink h c own), ?_, ?_,
    List.forall_mem_singleton.mpr (List.Subset.refl scopes)⟩
  · intro a ha hquiet
    have hnot := hquiet _ (List.mem_singleton.mpr rfl)
    rw [← hg.read_eq a ha]
    by_cases hon : sink.isEnabled h.logger c.level = true
    · exact hcalls.elsewhere a fun hown => hnot ⟨hown, h, hi, hon⟩
    · rw [hcalls.dropped (eq_false_of_ne_true hon)]
  · exact List.forall_mem_singleton.mpr
      ⟨s'.memory.adapter h, Memory.adapter?_of_getElem? hi, hlogger, hcalls⟩

theorem derive (hv : s.Valid logger) (hi : s.memory.handles[i]? = some h) :
    (Run.mk (s.derive h fields) failed
      [.derived scopes s (s.derive h fields) i fields]).Sound sink logger scopes s := by
  refine ⟨hv.derive (List.mem_of_getElem? hi) fields, s.extends_derive h fields, ?_, ?_,
    List.forall_mem_singleton.mpr (List.Subset.refl scopes)⟩
  · exact fun a ha _ => State.read_derive_of_lt ha
  · refine List.forall_mem_singleton.mpr ⟨_, Memory.adapter?_of_getElem? hi, ?_, ?_⟩
    · exact s.adapter?_derive_self h fields
    · exact fun j hj => State.adapter?_derive hv hj

/-- A scope that is left has its adapter back as it was, unless its body fills the copy. -/
theorem restored (hv : s.Valid logger) (hi : s.memory.handles[i]? = some h)
    (hbody : r.Sound sink logger (s.opening i fields :: scopes) (s.enter i h fields))
    (hquiet : ∀ e ∈ r.events, ¬ e.Fills sink s.memory.dicts.length) :
    (r.state.leave i s.memory.dicts.length).memory.adapter? i = s.memory.adapter? i := by
  have hlt := (List.getElem?_eq_some_iff.mp hi).1.trans_le
    ((s.extends_enter i h fields).trans hbody.grows).handles_le
  have hcopy := s.lt_length_enter i h fields
  have hread := (hbody.kept _ hcopy hquiet).trans (s.read_enter_copy i h fields)
  rw [State.adapter?_leave_self hbody.valid hlt, hread, Memory.adapter?_of_getElem? hi,
    Memory.adapter, hv.logger_eq h (List.mem_of_getElem? hi)]

/-- The body of a scope may do what it likes with the adapter of the scope. -/
theorem within (hv : s.Valid logger) (hi : s.memory.handles[i]? = some h)
    (hbody : r.Sound sink logger (s.opening i fields :: scopes) (s.enter i h fields)) :
    (Run.within scopes s i h fields r).Sound sink logger scopes s := by
  have hgrows := (s.extends_enter i h fields).trans hbody.grows
  have hcopy := s.lt_length_enter i h fields
  have hlt := (List.getElem?_eq_some_iff.mp hi).1.trans_le hgrows.handles_le
  refine ⟨hbody.valid.leave (hcopy.trans_le hbody.grows.dicts_le), ?_, ?_, ?_, ?_⟩
  · exact hgrows.trans (r.state.extends_leave i s.memory.dicts.length)
  · intro a ha hquiet
    have hinner : ∀ e ∈ r.events, ¬ e.Fills sink a := fun e he =>
      hquiet e (List.mem_cons_of_mem _ (List.mem_append_left _ he))
    exact (hbody.kept a (ha.trans hcopy) hinner).trans (State.read_enter_of_lt ha)
  · refine List.forall_mem_cons.mpr ⟨?_, List.forall_mem_append.mpr ⟨hbody.happens, ?_⟩⟩
    · exact ⟨_, Memory.adapter?_of_getElem? hi, State.adapter?_enter_self hi fields,
        fun j hj => State.adapter?_enter_of_ne hv hj⟩
    · exact List.forall_mem_singleton.mpr ⟨restored hv hi hbody,
        State.adapter?_leave_self hbody.valid hlt _, fun j hj => State.adapter?_leave_of_ne hj⟩
  · refine List.forall_mem_cons.mpr ⟨List.Subset.refl scopes, List.forall_mem_append.mpr ⟨?_, ?_⟩⟩
    · exact fun e he => List.Subset.trans (List.subset_cons_self _ scopes) (hbody.inside e he)
    · exact List.forall_mem_singleton.mpr (List.Subset.refl scopes)

end Sound

end Run

theorem Program.sound_run (sink : Sink) (p : Program) {logger : String} {scopes : List Opening}
    {s : State} (hv : s.Valid logger) (hopens : s.Opens scopes) :
    (p.run sink scopes s).Sound sink logger scopes s := by
  induction p generalizing scopes s with
  | done | fail => exact .unchanged hv
  | make fields =>
      exact .idle (hv.make fields) (s.extends_make fields) fun a ha =>
        State.read_make_of_lt ha fields
  | takeContext i =>
      unfold run
      split
      · exact .unchanged hv
      · rename_i h hi
        have hlt := hv.context_lt h (List.mem_of_getElem? hi)
        exact .idle (hv.take hlt) (s.extends_take h.context) fun _ _ => rfl
  | takeCopy k =>
      unfold run
      split
      · exact .unchanged hv
      · rename_i o ho
        have hlt := (hopens o (List.mem_of_getElem? ho)).2
        exact .idle (hv.take hlt) (s.extends_take o.copy) fun _ _ => rfl
  | log i c given =>
      unfold run
      split
      · rename_i h own s' hi hgive
        have hg := State.gives hv hgive
        exact .log hg (hg.handles_eq ▸ hi)
      · exact .unchanged hv
  | derive parent given =>
      unfold run
      split
      · rename_i h fields hi _
        exact .derive hv hi
      · exact .unchanged hv
  | within target given body ih =>
      unfold run
      split
      · rename_i h fields hi _
        exact .within hv hi (ih (hv.enter fields) (hopens.enter hi))
      · exact .unchanged hv
  | seq first second ih ih' =>
      have hfirst := ih hv hopens
      unfold run
      dsimp only
      split
      · exact hfirst
      · exact hfirst.append (ih' hfirst.valid (hopens.mono hfirst.grows))
  | attempt body handler ih ih' =>
      have hbody := ih hv hopens
      unfold run
      dsimp only
      split
      · exact hbody.append (ih' hbody.valid (hopens.mono hbody.grows))
      · exact hbody

end GuardClause.Log
