import GuardClause.Log.Sink
import GuardClause.Proofs.Steps
import GuardClause.Proofs.Tables

/-!
# What a call writes

`Log.Written` says what the line of a record holds when its fields have certain values: when and
where the record was made, the level, the logger, the message and the error under their names, three
of the fields beside them, all other fields under `context`, and every name once. It is told by the
values that the fields have, not by the table in which they stand. A record whose fields have
distinct names is written in this way, unless a field hides its message (`Record.written_line`).

`Log.Answers` says what a call comes to when the adapter has certain values for its fields
(`Sink.answers_log`).
-/

namespace GuardClause.Log

/-- The names that a written record uses besides those of fields. -/
def recordNames : List String :=
  ["timestamp", "level", "logger", "message", "context", "error", "source"]

/-- The fields that stand under `context` in a written record. -/
def contextOf (out : Table Value) : Table Value :=
  match out.get? "context" with
  | some (.record fields) => fields
  | _ => []

/-- A record is written, with certain values for its fields. -/
structure Written (level : Level) (logger message : String) (error : Option ErrorInfo)
    (stamp : Stamp) (value? : String → Option Value) (out : Table Value) : Prop where
  time_eq : out.get? "timestamp" = some (.text stamp.time)
  source_eq : out.get? "source" = some stamp.source
  level_eq : out.get? "level" = some (.text level.name)
  logger_eq : out.get? "logger" = some (.text logger)
  message_eq : out.get? "message" = some (.text message)
  error_eq : out.get? "error" = error.map ErrorInfo.render
  /-- At the top level there are the names above and those of the fields that belong there. -/
  names : ∀ name ∈ out.keys, name ∈ topFields ∨ name ∈ recordNames
  once : out.keys.Nodup
  top : ∀ name ∈ topFields, out.get? name = value? name
  once_below : (contextOf out).keys.Nodup
  /-- Under `context` there are the other fields, but for the one that is never written. -/
  below : ∀ name, (contextOf out).get? name =
    if name ∈ topFields ∨ name = silentField then none else value? name
  /-- There is no empty `context`. -/
  absent : out.get? "context" = none ↔ contextOf out = []

namespace Record

variable {r : Record} {name : String}

theorem get?_top (r : Record) (name : String) :
    r.top.get? name = if name ∈ topFields then r.fields.get? name else none :=
  Table.get?_filterMap r.fields topFields name

theorem get?_context (r : Record) (name : String) :
    r.context.get? name =
      if name ∈ topFields ∨ name = silentField then none else r.fields.get? name := by
  rw [context, Table.get?_filter r.fields fun n => !(topFields.contains n || n = silentField)]
  by_cases htop : name ∈ topFields <;> by_cases hsilent : name = silentField <;>
    simp [htop, hsilent]

theorem keys_top_sublist (r : Record) : r.top.keys.Sublist topFields := by
  unfold top
  induction topFields with
  | nil => exact List.Sublist.refl []
  | cons n names ih =>
      rw [List.filterMap_cons]
      cases hn : r.fields.get? n with
      | none => exact ih.cons n
      | some v => exact ih.cons_cons n

theorem nodup_context (h : r.fields.keys.Nodup) : r.context.keys.Nodup :=
  h.sublist (List.filter_sublist.map Prod.fst)

/-- The part of a written record that holds the fields of its context. -/
def contextPart (r : Record) : Table Value :=
  if r.context.isEmpty then [] else [("context", .record r.context)]

/-- The part of a written record that holds its error. -/
def errorPart (r : Record) : Table Value :=
  match r.error with
  | some e => [("error", e.render)]
  | none => []

theorem render_eq (r : Record) :
    r.render = [("level", .text r.level.name), ("logger", .text r.logger),
      ("message", .text r.message)] ++ r.top ++ r.contextPart ++ r.errorPart := rfl

theorem get?_errorPart (r : Record) (name : String) :
    r.errorPart.get? name = if name = "error" then r.error.map ErrorInfo.render else none := by
  unfold errorPart
  cases r.error with
  | none => simp
  | some e =>
      by_cases hname : name = "error"
      · simp [hname, Table.get?]
      · simp [hname, Ne.symm hname, Table.get?]

theorem get?_contextPart (r : Record) (name : String) :
    r.contextPart.get? name =
      if name = "context" ∧ r.context ≠ [] then some (.record r.context) else none := by
  unfold contextPart
  by_cases h : r.context = []
  · simp [h]
  · by_cases hname : name = "context"
    · simp [h, hname, Table.get?]
    · simp [h, hname, Ne.symm hname, Table.get?]

/-- What is read from a written record under a name. -/
theorem get?_render (r : Record) (name : String) :
    r.render.get? name =
      (((Table.get? name [("level", .text r.level.name), ("logger", .text r.logger),
        ("message", .text r.message)]).or (r.top.get? name)).or (r.contextPart.get? name)).or
          (r.errorPart.get? name) := by
  rw [render_eq, Table.get?_append, Table.get?_append, Table.get?_append]

theorem get?_render_context (r : Record) :
    r.render.get? "context" = if r.context = [] then none else some (.record r.context) := by
  rw [get?_render, get?_top, get?_contextPart, get?_errorPart]
  by_cases h : r.context = [] <;> simp [h, Table.get?, topFields]

theorem contextOf_render (r : Record) : contextOf r.render = r.context := by
  unfold contextOf
  rw [get?_render_context]
  by_cases h : r.context = [] <;> simp [h]

/-- Each part of a written record takes its names from a list. -/
theorem keys_render_sublist (r : Record) :
    r.render.keys.Sublist
      (["level", "logger", "message"] ++ topFields ++ ["context"] ++ ["error"]) := by
  rw [render_eq]
  simp only [Table.keys, List.map_append]
  refine (((List.Sublist.refl _).append r.keys_top_sublist).append ?_).append ?_
  · unfold contextPart
    split
    · exact List.nil_sublist _
    · exact List.Sublist.refl _
  · unfold errorPart
    split
    · exact List.Sublist.refl _
    · exact List.nil_sublist _

/-! ### The whole line -/

theorem message?_of_free (h : r.fields.get? messageField = none) : r.message? = .ok r.message := by
  rw [message?, h]

theorem message?_of_hidden (h : r.fields.get? messageField ≠ none) :
    ∃ f, r.message? = .error f := by
  obtain ⟨v, hv⟩ := Option.ne_none_iff_exists'.mp h
  exact ⟨⟨v.typeName⟩, by rw [message?, hv]⟩

/-- The line of a record that gives its message. -/
def lineOf (r : Record) (s : Stamp) : Table Value :=
  [("timestamp", .text s.time)] ++ r.render ++ [("source", s.source)]

theorem line_of_free (h : r.fields.get? messageField = none) (s : Stamp) :
    r.line s = .ok (r.lineOf s) := by
  rw [line, message?_of_free h]
  rfl

theorem keys_lineOf_sublist (r : Record) (s : Stamp) :
    (r.lineOf s).keys.Sublist
      (["timestamp"] ++ (["level", "logger", "message"] ++ topFields ++ ["context"] ++ ["error"])
        ++ ["source"]) := by
  simp only [lineOf, Table.keys, List.map_append]
  exact ((List.Sublist.refl _).append r.keys_render_sublist).append (List.Sublist.refl _)

/-- What is read from a line under a name. -/
theorem get?_lineOf (r : Record) (s : Stamp) (name : String) :
    (r.lineOf s).get? name =
      if name = "timestamp" then some (.text s.time)
      else if name = "source" then some s.source
      else r.render.get? name := by
  rw [lineOf, Table.get?_append, Table.get?_append]
  by_cases htime : name = "timestamp"
  · simp [htime, Table.get?]
  · by_cases hsource : name = "source"
    · -- The record itself has nothing under this name.
      have habsent : r.render.get? "source" = none :=
        Table.get?_eq_none_iff.mpr fun h => absurd (r.keys_render_sublist.mem h) (by decide)
      simp [hsource, habsent, Table.get?]
    · simp [htime, hsource, Ne.symm htime, Ne.symm hsource, Table.get?]

theorem contextOf_lineOf (r : Record) (s : Stamp) : contextOf (r.lineOf s) = r.context := by
  rw [← contextOf_render, contextOf, contextOf, get?_lineOf]
  rfl

/-- A record whose fields have distinct names is written as it should be, if it gives its
message. -/
theorem written_line (h : r.fields.keys.Nodup) (hfree : r.fields.get? messageField = none)
    (s : Stamp) :
    ∃ out, r.line s = .ok out ∧
      Written r.level r.logger r.message r.error s r.fields.get? out := by
  refine ⟨r.lineOf s, line_of_free hfree s, ?_⟩
  constructor
  case time_eq | level_eq | logger_eq | message_eq => rfl
  case source_eq => rw [get?_lineOf]; rfl
  case error_eq =>
      rw [get?_lineOf, get?_render, get?_top, get?_contextPart, get?_errorPart]
      simp [Table.get?, topFields]
  case names =>
      intro name hname
      have hlisted := (r.keys_lineOf_sublist s).mem hname
      simp only [List.mem_append] at hlisted
      rcases hlisted with (hlisted | (((hlisted | hlisted) | hlisted) | hlisted)) | hlisted
      case inl.inr.inl.inl.inr => exact Or.inl hlisted
      all_goals
        apply Or.inr
        simp only [recordNames, List.mem_cons, List.not_mem_nil, or_false] at hlisted ⊢
        tauto
  case once =>
      -- No name comes twice in the lists of all parts together.
      exact List.Nodup.sublist (r.keys_lineOf_sublist s) (by decide)
  case top =>
      intro name hname
      have htime : name ≠ "timestamp" := by rintro rfl; exact absurd hname (by decide)
      have hsource : name ≠ "source" := by rintro rfl; exact absurd hname (by decide)
      rw [get?_lineOf, if_neg htime, if_neg hsource, get?_render, get?_top, get?_contextPart,
        get?_errorPart, if_pos hname]
      simp only [topFields, List.mem_cons, List.not_mem_nil, or_false] at hname
      rcases hname with rfl | rfl | rfl <;> simp [Table.get?]
  case once_below =>
      rw [contextOf_lineOf]
      exact nodup_context h
  case below =>
      intro name
      rw [contextOf_lineOf, get?_context]
  case absent =>
      rw [contextOf_lineOf, get?_lineOf, if_neg (by decide), if_neg (by decide),
        get?_render_context]
      split <;> simp_all

end Record

/-! ## Records that adapters make -/

namespace Adapter

variable {a : Adapter} {own : Table Value}

/-- The fields of the context win over those of the call. -/
theorem get?_process (hcontext : a.context.keys.Nodup) (own : Table Value) :
    (a.process own).get? = fun name => (a.context.get? name).or (own.get? name) :=
  funext (Table.get?_merge hcontext own)

/-- An adapter makes a record of its own fields and those of its context, unless one of them has a
reserved name. -/
theorem record_cases (a : Adapter) (level : Level) (message : String) (own : Table Value)
    (error : Option ErrorInfo) :
    (∃ name ∈ reservedFields, (a.process own).get? name ≠ none ∧
        a.record level message own error = .error (.reserved name)) ∨
      (∀ name ∈ reservedFields, (a.process own).get? name = none) ∧
        a.record level message own error =
          .ok ⟨level, a.logger, message, a.process own, error⟩ := by
  unfold record
  dsimp only
  cases hfind : (a.process own).keys.find? (reservedFields.contains ·) with
  | some name =>
      have hreserved : name ∈ reservedFields := by simpa using List.find?_some hfind
      have hmem := List.mem_of_find?_eq_some hfind
      exact Or.inl ⟨name, hreserved, fun h => Table.get?_eq_none_iff.mp h hmem, rfl⟩
  | none =>
      have hnone : ∀ name ∈ (a.process own).keys, name ∉ reservedFields := by
        simpa using List.find?_eq_none.mp hfind
      exact Or.inr ⟨fun name h => Table.get?_eq_none_iff.mpr fun hmem => hnone name hmem h, rfl⟩

end Adapter

/-! ## Calls -/

/-- What a call says: how severe it is, its message, and possibly an error. -/
structure Call where
  level : Level
  message : String
  error : Option ErrorInfo

/-- What a call comes to when the adapter has certain values for its fields: fields that the adapter
lacks have the values that the call gives them. It is refused if one of them has a reserved name. It
is accepted and nothing is written if one of them hides the message. -/
structure Answers (sink : Sink) (logger : String) (c : Call) (inherited : String → Option Value)
    (own : Option (Table Value)) (outcome : Except RecordFault (List Record)) : Prop where
  dropped : sink.isEnabled logger c.level = false → outcome = .ok []
  fieldless : sink.isEnabled logger c.level = true → own = none → outcome = .error .noFields
  refused : ∀ t, sink.isEnabled logger c.level = true → own = some t →
    (∃ name ∈ reservedFields, (inherited name).or (t.get? name) ≠ none) →
      ∃ name ∈ reservedFields, (inherited name).or (t.get? name) ≠ none ∧
        outcome = .error (.reserved name)
  hidden : ∀ t, sink.isEnabled logger c.level = true → own = some t →
    (∀ name ∈ reservedFields, (inherited name).or (t.get? name) = none) →
    (inherited messageField).or (t.get? messageField) ≠ none → outcome = .ok []
  accepted : ∀ t, sink.isEnabled logger c.level = true → own = some t →
    (∀ name ∈ reservedFields, (inherited name).or (t.get? name) = none) →
    (inherited messageField).or (t.get? messageField) = none →
      ∃ r, outcome = .ok (if sink.writes c.level then [r] else []) ∧
        ∀ stamp, ∃ out, r.line stamp = .ok out ∧
          Written c.level logger c.message c.error stamp
            (fun name => (inherited name).or (t.get? name)) out

namespace Sink

variable {sink : Sink} {r : Record}

theorem emit_of_hidden (h : r.fields.get? messageField ≠ none) : sink.emit r = [] := by
  obtain ⟨f, hf⟩ := Record.message?_of_hidden h
  simp [emit, hf, Except.isOk, Except.toBool]

theorem emit_of_free (h : r.fields.get? messageField = none) :
    sink.emit r = if sink.writes r.level then [r] else [] := by
  simp [emit, Record.message?_of_free h, Except.isOk, Except.toBool]

/-- A call is answered by the context of its adapter and the fields that it gives. -/
theorem answers_log (sink : Sink) {a : Adapter} (hcontext : a.context.keys.Nodup) (c : Call)
    {own : Option (Table Value)} (hown : ∀ t, own = some t → t.keys.Nodup) :
    Answers sink a.logger c a.context.get? own (sink.log a c.level c.message own c.error) := by
  have hget : ∀ t name, (a.process t).get? name = (a.context.get? name).or (t.get? name) :=
    fun t => congrFun (a.get?_process hcontext t)
  unfold log
  constructor
  case dropped =>
      intro hoff
      simp [hoff]
      rfl
  case fieldless =>
      intro hon hnull
      simp [hon, hnull]
  case refused =>
      rintro t hon rfl ⟨name, hname, hvalue⟩
      rw [if_pos hon]
      rcases a.record_cases c.level c.message t c.error with
        ⟨other, hother, hvalue', herror⟩ | ⟨hnone, -⟩
      · refine ⟨other, hother, (hget t other) ▸ hvalue', ?_⟩
        exact bind_eq_error.mpr (Or.inl herror)
      · exact absurd ((hget t name).symm.trans (hnone name hname)) hvalue
  case hidden =>
      rintro t hon rfl hfree hhidden
      rw [if_pos hon]
      rcases a.record_cases c.level c.message t c.error with
        ⟨other, hother, hvalue, -⟩ | ⟨-, hrecord⟩
      · exact absurd ((hget t other).trans (hfree other hother)) hvalue
      · refine bind_eq_ok.mpr ⟨_, hrecord, congrArg Except.ok ?_⟩
        exact emit_of_hidden fun h => hhidden ((hget t _).symm.trans h)
  case accepted =>
      rintro t hon rfl hfree hclear
      rw [if_pos hon]
      rcases a.record_cases c.level c.message t c.error with
        ⟨other, hother, hvalue, -⟩ | ⟨-, hrecord⟩
      · exact absurd ((hget t other).trans (hfree other hother)) hvalue
      · let r : Record := ⟨c.level, a.logger, c.message, a.process t, c.error⟩
        have hmessage : r.fields.get? messageField = none := (hget t messageField).trans hclear
        have hnodup : r.fields.keys.Nodup := Table.nodup_merge (hown t rfl) a.context
        refine ⟨r, bind_eq_ok.mpr ⟨r, hrecord, congrArg Except.ok (emit_of_free hmessage)⟩, ?_⟩
        intro stamp
        rw [← a.get?_process hcontext t]
        exact r.written_line hnodup hmessage stamp

end Sink

end GuardClause.Log
