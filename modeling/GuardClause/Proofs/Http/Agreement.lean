import GuardClause.Http.Answer
import GuardClause.Proofs.Service.Selection

/-!
# The answer to a request agrees with the service

A request for edits is answered in two steps: a language is picked by all hints, and then the
service is asked for the edits in that language, where it picks a language once more, by name. Over
the bundled languages the second pick repeats the first one, so that the two steps come to what the
service says of the query itself (`proposeEdits_of_select`). The only difference lies in the order
of the checks: the answer looks for a language before it looks at the size of the buffer, the
service looks at the size first. `answer_reports` says for every query which answer follows.
-/

namespace GuardClause

namespace Reader

variable {α : Type} {read : Value → Checked α} {name : String} {r : Table Value} {v : Value} {x : α}

theorem required_eq_ok (hv : r.get? name = some v) (hx : read v = .ok x) :
    required read name r = .ok x := by
  rw [required, hv]
  dsimp only
  rw [hx]
  rfl

theorem withDefault_eq_ok {value : α} (hv : r.get? name = some v) (hx : read v = .ok x) :
    withDefault value read name r = .ok x := by
  rw [withDefault, hv]
  dsimp only
  rw [hx]
  rfl

theorem natural_of_nonneg {i : Int} (h : 0 ≤ i) : natural (.int i) = .ok i.toNat := if_pos h

end Reader

namespace Http

variable {s : Service} {q : Query} {parsed : Parsed} {r : Request} {found : Registration Grammar}
  {u : Unsupported}

/-! ## Requests and queries -/

/-- A request asks for the edits of a query. -/
structure Asks (r : Request) (q : Query) : Prop where
  method_eq : r.method = "POST"
  resource_eq : resource? r.path = some .edits
  body_eq : readBody r.body = .ok q

/-- A hint as it stands in a body. -/
def hintValue (hint : Option String) : Value := (hint.map Value.text).getD .null

/-- The body of a request for the edits of a query. -/
def queryFields (q : Query) : Table Value :=
  [("content", .text (String.ofList q.content)), ("line", .int q.line), ("column", .int q.column),
    ("language", hintValue q.language), ("file_path", hintValue q.file)]

theorem optional_hintValue (hint : Option String) :
    Reader.optional Reader.text (hintValue hint) = .ok hint := by
  cases hint <;> rfl

/-- Every query can be asked whose cursor is not before the front of the buffer. -/
theorem readBody_queryFields (hline : 0 ≤ q.line) (hcolumn : 0 ≤ q.column) :
    readBody (.record (queryFields q)) = .ok q := by
  have hcontent : Reader.required Reader.text "content" (queryFields q) =
      .ok (String.ofList q.content) := Reader.required_eq_ok rfl rfl
  have hl : Reader.required Reader.natural "line" (queryFields q) = .ok q.line.toNat :=
    Reader.required_eq_ok rfl (Reader.natural_of_nonneg hline)
  have hc : Reader.required Reader.natural "column" (queryFields q) = .ok q.column.toNat :=
    Reader.required_eq_ok rfl (Reader.natural_of_nonneg hcolumn)
  have hlanguage : Reader.withDefault none (Reader.optional Reader.text) "language"
      (queryFields q) = .ok q.language :=
    Reader.withDefault_eq_ok rfl (optional_hintValue q.language)
  have hfile : Reader.withDefault none (Reader.optional Reader.text) "file_path"
      (queryFields q) = .ok q.file := Reader.withDefault_eq_ok rfl (optional_hintValue q.file)
  have hread : readQuery (queryFields q) = .ok q := by
    rw [readQuery, hcontent, hl, hc, hlanguage, hfile]
    simp [Reader.both, Except.map, Int.toNat_of_nonneg hline, Int.toNat_of_nonneg hcolumn]
  unfold readBody
  show Reader.under (.field "body") (readQuery (queryFields q)) = .ok q
  rw [hread]
  rfl

/-! ## Picking twice -/

/-- Asked in the language that was picked for a query, the service says what it says of the query
itself. -/
theorem propose_withLanguage (hs : s.registry = Registry.bundled)
    (h : s.select q.language q.file = .ok found) (parsed : Parsed) :
    s.propose (withLanguage q found.name) parsed = s.propose q parsed := by
  have hsame : (withLanguage q found.name).content = q.content := rfl
  have hagain : s.select (withLanguage q found.name).language (withLanguage q found.name).file =
      .ok found := Service.select_name hs h
  by_cases hsize : s.maxSourceChars < q.content.length
  · rw [Service.propose_of_tooLarge hsize, Service.propose_of_tooLarge (hsame ▸ hsize), hsame]
  · rw [Service.propose_of_select hsize h, Service.propose_of_select (hsame ▸ hsize) hagain]
    rfl

theorem proposeEdits_of_select (hs : s.registry = Registry.bundled)
    (h : s.select q.language q.file = .ok found) (parsed : Parsed) :
    proposeEdits s q parsed = (fun es => (found.name, es)) <$> s.propose q parsed := by
  rw [proposeEdits, h]
  show (s.propose (withLanguage q found.name) parsed >>= fun es => pure (found.name, es)) = _
  rw [propose_withLanguage hs h]
  rfl

theorem proposeEdits_of_unsupported (h : s.select q.language q.file = .error u) (parsed : Parsed) :
    proposeEdits s q parsed = .error (.unsupported u) := by
  rw [proposeEdits, h]
  rfl

/-! ## The answer -/

theorem answer_of_asks (h : Asks r q) : answer s r = editsResponse s q r.parsed := by
  rw [answer, h.resource_eq]
  show (if r.method = "POST" then serve s r .edits else _) = _
  rw [if_pos h.method_eq, serve, h.body_eq]

theorem editsResponse_of_unsupported (h : s.select q.language q.file = .error u) (parsed : Parsed) :
    editsResponse s q parsed = failure (.unsupported u) := by
  rw [editsResponse, proposeEdits_of_unsupported h]

theorem editsResponse_of_ok {es : List Edit} (hs : s.registry = Registry.bundled)
    (h : s.select q.language q.file = .ok found) (hes : s.propose q parsed = .ok es) :
    editsResponse s q parsed =
      ⟨200, .record [("language", .text found.name), ("edits", .list (es.map Edit.toValue))]⟩ := by
  rw [editsResponse, proposeEdits_of_select hs h, hes]
  rfl

theorem editsResponse_of_error {f : QueryFault} (hs : s.registry = Registry.bundled)
    (h : s.select q.language q.file = .ok found) (hf : s.propose q parsed = .error f) :
    editsResponse s q parsed = failure f := by
  rw [editsResponse, proposeEdits_of_select hs h, hf]
  rfl

/-- The response to a request for edits says what the service says of the query: first whether no
language was picked, then whether the buffer is too large, then what the edits are. -/
structure Reports (s : Service) (q : Query) (parsed : Parsed) (response : Response) : Prop where
  unsupported : response.status = 400 ↔ ∃ u, s.select q.language q.file = .error u
  tooLarge : ∀ found, s.select q.language q.file = .ok found →
    (response.status = 413 ↔ s.maxSourceChars < q.content.length)
  answered : ∀ found, s.select q.language q.file = .ok found →
    ¬ s.maxSourceChars < q.content.length →
    (response.status = 200 ↔ ∃ es, s.propose q parsed = .ok es)
  body_eq : ∀ found es, s.select q.language q.file = .ok found → s.propose q parsed = .ok es →
    response.body =
      .record [("language", .text found.name), ("edits", .list (es.map Edit.toValue))]
  failed : ∀ found f, s.select q.language q.file = .ok found →
    ¬ s.maxSourceChars < q.content.length → s.propose q parsed = .error f → response.status = 500
  selectedAgain : ∀ found, s.select q.language q.file = .ok found →
    s.select (some found.name) none = .ok found
  /-- What the endpoint meets is of the same kind as what the service meets, unless both the
  language and the size are at fault. -/
  sameKind : ∀ f, s.propose q parsed = .error f →
    ((∃ f', proposeEdits s q parsed = .error f' ∧ response = failure f' ∧ f'.kind = f.kind) ↔
      ¬ ((∃ u, s.select q.language q.file = .error u) ∧ s.maxSourceChars < q.content.length))

/-- Without a language the response says so, whatever the size of the buffer. -/
theorem reports_of_unsupported (h : s.select q.language q.file = .error u) (parsed : Parsed) :
    Reports s q parsed (editsResponse s q parsed) := by
  have hnone : ∀ found, s.select q.language q.file ≠ .ok found := by
    intro found hfound
    cases h.symm.trans hfound
  rw [editsResponse_of_unsupported h]
  constructor
  case unsupported => exact ⟨fun _ => ⟨u, h⟩, fun _ => rfl⟩
  case tooLarge => exact fun found hfound => absurd hfound (hnone found)
  case answered => exact fun found hfound => absurd hfound (hnone found)
  case body_eq => exact fun found es hfound => absurd hfound (hnone found)
  case failed => exact fun found f hfound => absurd hfound (hnone found)
  case selectedAgain => exact fun found hfound => absurd hfound (hnone found)
  case sameKind =>
      intro f hf
      rw [proposeEdits_of_unsupported h]
      by_cases hsize : s.maxSourceChars < q.content.length
      · -- The service has not looked for a language yet.
        rw [Service.propose_of_tooLarge hsize] at hf
        cases hf
        constructor
        · rintro ⟨f', hf', -, hkind⟩
          cases hf'
          simp [QueryFault.kind] at hkind
        · intro hnot
          exact absurd ⟨⟨u, h⟩, hsize⟩ hnot
      · rw [Service.propose_of_unsupported hsize h] at hf
        cases hf
        exact ⟨fun _ hboth => hsize hboth.2, fun _ => ⟨_, rfl, rfl, rfl⟩⟩

/-- The status of a response that says how something ended. -/
def statusOf {α : Type} : Except QueryFault α → Nat
  | .ok _ => 200
  | .error f => (failure f).status

theorem status_editsResponse (hs : s.registry = Registry.bundled)
    (h : s.select q.language q.file = .ok found) (parsed : Parsed) :
    (editsResponse s q parsed).status = statusOf (s.propose q parsed) := by
  cases hend : s.propose q parsed with
  | ok es =>
      rw [editsResponse_of_ok hs h hend]
      rfl
  | error f =>
      rw [editsResponse_of_error hs h hend]
      rfl

/-- With a language the response says what the service says. -/
theorem reports_of_select (hs : s.registry = Registry.bundled)
    (h : s.select q.language q.file = .ok found) (parsed : Parsed) :
    Reports s q parsed (editsResponse s q parsed) := by
  have hsupported : ∀ u, s.select q.language q.file ≠ .error u := by
    intro u hu
    cases h.symm.trans hu
  have hfound : ∀ other, s.select q.language q.file = .ok other → other = found :=
    fun other hother => Except.ok.inj (hother.symm.trans h)
  have hstatus := status_editsResponse hs h parsed
  have hends := Service.propose_cases h parsed
  constructor
  case unsupported =>
      rw [hstatus]
      refine ⟨fun h400 => ?_, fun ⟨u, hu⟩ => absurd hu (hsupported u)⟩
      rcases hends with ⟨-, hend⟩ | ⟨-, ⟨es, hend⟩ | ⟨e, hend⟩ | ⟨f, hend⟩⟩ <;>
        simp [hend, statusOf, failure, refusal] at h400
  case tooLarge =>
      intro _ _
      rw [hstatus]
      rcases hends with ⟨hsize, hend⟩ | ⟨hsize, ⟨es, hend⟩ | ⟨e, hend⟩ | ⟨f, hend⟩⟩ <;>
        simp [hend, hsize, statusOf, failure, refusal]
  case answered =>
      intro _ _ hsize
      rw [hstatus]
      rcases hends with ⟨hlarge, -⟩ | ⟨-, ⟨es, hend⟩ | ⟨e, hend⟩ | ⟨f, hend⟩⟩
      · exact absurd hlarge hsize
      all_goals simp [hend, statusOf, failure, refusal]
  case body_eq =>
      intro other es hother hes
      rw [hfound other hother, editsResponse_of_ok hs h hes]
  case failed =>
      intro _ f _ hsize hf
      rw [hstatus]
      rcases hends with ⟨hlarge, -⟩ | ⟨-, ⟨es, hend⟩ | ⟨e, hend⟩ | ⟨f, hend⟩⟩
      · exact absurd hlarge hsize
      · cases hf.symm.trans hend
      all_goals simp [hend, statusOf, failure, refusal]
  case selectedAgain =>
      intro other hother
      exact Service.select_name hs hother
  case sameKind =>
      intro f hf
      have hmeets : proposeEdits s q parsed = .error f := by
        rw [proposeEdits_of_select hs h, hf]
        rfl
      constructor
      · rintro - ⟨⟨u, hu⟩, -⟩
        exact hsupported u hu
      · intro _
        exact ⟨f, hmeets, editsResponse_of_error hs h hf, rfl⟩

/-- A service over the bundled languages, whatever its limits and its default language: every query
can be asked, and the answer to a request that asks it reports what the service says of it. -/
theorem answer_reports (hs : s.registry = Registry.bundled) (hline : 0 ≤ q.line)
    (hcolumn : 0 ≤ q.column) (parsed : Parsed) :
    (∃ r, Asks r q ∧ r.parsed = parsed) ∧
      ∀ r, Asks r q → r.parsed = parsed → Reports s q parsed (answer s r) := by
  constructor
  · have hpath : resource? "/api/refactorings" = some .edits := rfl
    exact ⟨⟨"POST", "/api/refactorings", .record (queryFields q), parsed⟩,
      ⟨rfl, hpath, readBody_queryFields hline hcolumn⟩, rfl⟩
  · rintro r hr rfl
    rw [answer_of_asks hr]
    cases h : s.select q.language q.file with
    | error u => exact reports_of_unsupported h r.parsed
    | ok found => exact reports_of_select hs h r.parsed

/-- A service that takes at most four characters. -/
def tinyService : Service := ⟨.bundled, 4, 4, "python"⟩

/-- A query with an empty hint and a path, for a buffer of five characters. -/
def emptyHint : Query :=
  { content := "a?b:c".toList, line := 0, column := 1, language := some "",
    file := some "src/Main.JAVA" }

theorem answer_reports_emptyHint :
    tinyService.registry = Registry.bundled ∧ 0 ≤ emptyHint.line ∧ 0 ≤ emptyHint.column ∧
      tinyService.select emptyHint.language emptyHint.file = .ok Bundled.java.registration ∧
      (∃ r, Asks r emptyHint ∧ r.parsed = ⟨none, false⟩) ∧
      ∀ r, Asks r emptyHint → r.parsed = ⟨none, false⟩ →
        Reports tinyService emptyHint ⟨none, false⟩ (answer tinyService r) := by
  have hline : 0 ≤ emptyHint.line := by decide
  have hcolumn : 0 ≤ emptyHint.column := by decide
  exact ⟨rfl, hline, hcolumn, rfl, answer_reports rfl hline hcolumn ⟨none, false⟩⟩

end Http

end GuardClause
