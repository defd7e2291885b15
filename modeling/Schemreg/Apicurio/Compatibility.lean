import Schemreg.Lib.UpdateOrCreate
import Schemreg.Retries

/-
  `set_compatibility` of `src/apicurio/mod.rs`, called concurrently.

  Each request is atomic, and the registry answers all of them. A call updates the rule and
  creates it if it is not found. By `step_simulates` the calls are callers of `UpdateOrCreate`,
  so that what goes wrong is an update that finds no rule while another call is about to create
  it: of the two calls that create it then, one is told that there is a conflict.

  Proved: `concurrent_calls_iff`, for any calls on one scope, in every interleaving.
-/

namespace Schemreg.Apicurio

open Retry HttpClient Transition

/-- The registry, and what each of the calls has still to do. -/
structure Calls (ι : Type) where
  registry : Registry
  rest : ι → Requests Request

variable {ι : Type} [DecidableEq ι] {policy : Policy} {respond : Answer → HttpResponse}
  {serde : OperationSerde} {subject : String} {scope : RuleScope} {registry : Registry}
  {levels : ι → CompatibilityLevel} {level : CompatibilityLevel} {es : List ι} {i : ι}

namespace Calls

/-- The next request of a call, with its answer. -/
def step (policy : Policy) (respond : Answer → HttpResponse) (s : Calls ι) (i : ι) :
    Option (Calls ι) :=
  match s.rest i with
  | .done _ => none
  | .send req next =>
      let (answer, registry) := serve policy respond req s.registry
      some ⟨registry, Function.update s.rest i (next (.ok answer))⟩

/-- Calls of `set_compatibility` that have not sent anything yet. -/
def start (serde : OperationSerde) (subject : String) (levels : ι → CompatibilityLevel)
    (registry : Registry) : Calls ι :=
  ⟨registry, fun i => setCompatibility serde subject (levels i)⟩

/-- The request that a call sends next. -/
def upcoming : Requests Request → Option Request
  | .done _ => none
  | .send req _ => some req

/-- The update of a call finds no rule, and another call is about to create it. -/
def Races (scope : RuleScope) (s : Calls ι) (i : ι) : Prop :=
  (∃ level, upcoming (s.rest i) = some (.putRule scope level)) ∧
    s.registry.ruleOf scope = some none ∧
    ∃ j level, upcoming (s.rest j) = some (.postRule scope level)

/-- A call has returned. -/
def Returns (s : Calls ι) (i : ι) (result : Result Returned) : Prop :=
  s.rest i = .done (some result)

/-! ## The steps of a call -/

/-- What follows the answer to the creation. -/
def afterCreation (serde : OperationSerde) (answer : Result HttpResponse) : Requests Request :=
  .done (some do
    postNoContent serde (← answer)
    return .unit)

/-- What follows the answer to the update. -/
def afterUpdate (serde : OperationSerde) (scope : RuleScope) (level : CompatibilityLevel)
    (answer : Result HttpResponse) : Requests Request :=
  match answer >>= handleJsonAs serde serde.value with
  | .ok _ => .done (some (.ok .unit))
  | .error e =>
      if e.isNotFound then .send (.postRule scope level) (afterCreation serde)
      else .done (some (.error e))

/-- What a caller in a phase has still to do. -/
def Stage (serde : OperationSerde) (scope : RuleScope) (level : CompatibilityLevel) :
    UpdateOrCreate.Phase → Requests Request → Prop
  | .updating, rest => rest = .send (.putRule scope level) (afterUpdate serde scope level)
  | .creating, rest => rest = .send (.postRule scope level) (afterCreation serde)
  | .succeeded, rest => rest = .done (some (.ok .unit))
  | .conflicted, rest => ∃ err, rest = .done (some (.error err))

/-- The calls are callers that update the rule or create it. -/
structure Simulates (serde : OperationSerde) (scope : RuleScope) (levels : ι → CompatibilityLevel)
    (a : UpdateOrCreate.State ι CompatibilityLevel) (s : Calls ι) : Prop where
  rule : s.registry.ruleOf scope = some a.value
  stage : ∀ i, Stage serde scope (levels i) (a.phase i) (s.rest i)

variable {a : UpdateOrCreate.State ι CompatibilityLevel} {s t : Calls ι}

theorem setCompatibility_eq (hscope : ruleScope subject = .ok scope) :
    setCompatibility serde subject level =
      .send (.putRule scope level) (afterUpdate serde scope level) := by
  unfold setCompatibility
  rw [hscope]
  rfl

omit [DecidableEq ι] in
theorem simulates_start {value : Option CompatibilityLevel}
    (hscope : ruleScope subject = .ok scope) (hrule : registry.ruleOf scope = some value) :
    Simulates serde scope levels (UpdateOrCreate.start value)
      (start serde subject levels registry) :=
  ⟨hrule, fun _ => setCompatibility_eq hscope⟩

theorem simulates_move (h : Simulates serde scope levels a s) {phase : UpdateOrCreate.Phase}
    {value : Option CompatibilityLevel} {rest : Requests Request}
    (hrule : registry.ruleOf scope = some value)
    (hstage : Stage serde scope (levels i) phase rest) :
    Simulates serde scope levels (a.move i phase value)
      ⟨registry, Function.update s.rest i rest⟩ := by
  refine ⟨hrule, fun j => ?_⟩
  by_cases hji : j = i
  · subst hji
    rw [UpdateOrCreate.move_self]
    show Stage serde scope _ phase (Function.update s.rest j rest j)
    rw [Function.update_self]
    exact hstage
  · rw [UpdateOrCreate.move_of_ne hji]
    show Stage serde scope _ _ (Function.update s.rest i rest j)
    rw [Function.update_of_ne hji]
    exact h.stage j

theorem step_send {req : Request} {next : Result HttpResponse → Requests Request}
    (h : s.rest i = .send req next) :
    step policy respond s i = some ⟨(s.registry.apply policy req).2,
      Function.update s.rest i (next (.ok (respond (s.registry.apply policy req).1)))⟩ := by
  unfold step
  rw [h]
  rfl

section

variable (hstatus : ∀ answer, (respond answer).status = answer.status)
  (hvalue : ∀ level, serde.value (respond (.rule level)).body = .ok ())

include hstatus in
theorem afterUpdate_absent {message : String} :
    afterUpdate serde scope level (.ok (respond (.refused 404 message))) =
      .send (.postRule scope level) (afterCreation serde) := by
  obtain ⟨msg, hmsg⟩ : ∃ msg, handleJsonAs serde serde.value (respond (.refused 404 message)) =
    .error (.api 40401 msg) := handleJsonAs_notFound hstatus
  unfold afterUpdate
  show (match handleJsonAs serde serde.value (respond (.refused 404 message)) with
    | .ok _ => _
    | .error e => _) = _
  rw [hmsg]
  rfl

include hstatus hvalue in
theorem afterUpdate_present :
    afterUpdate serde scope level (.ok (respond (.rule level))) = .done (some (.ok .unit)) := by
  have hok : handleJsonAs serde serde.value (respond (.rule level)) = .ok () := by
    unfold handleJsonAs
    rw [hstatus, hvalue]
    rfl
  unfold afterUpdate
  show (match handleJsonAs serde serde.value (respond (.rule level)) with
    | .ok _ => _
    | .error e => _) = _
  rw [hok]

include hstatus in
theorem afterCreation_absent :
    afterCreation serde (.ok (respond .noContent)) = .done (some (.ok .unit)) := by
  have hok : postNoContent serde (respond .noContent) = .ok () := postNoContent_noContent hstatus
  show Program.done (some (postNoContent serde (respond .noContent) >>= _)) = _
  rw [hok]
  rfl

include hstatus in
theorem afterCreation_present {message : String} :
    ∃ err, afterCreation serde (.ok (respond (.refused 409 message))) =
      .done (some (.error err)) := by
  obtain ⟨err, herr⟩ : ∃ err, postNoContent serde (respond (.refused 409 message)) = .error err :=
    postNoContent_conflict hstatus
  refine ⟨err, ?_⟩
  show Program.done (some (postNoContent serde (respond (.refused 409 message)) >>= _)) = _
  rw [herr]
  rfl

include hstatus hvalue in
/-- Each request of a call is a step of a caller. -/
theorem step_simulates (h : Simulates serde scope levels a s)
    (hs : step policy respond s i = some t) :
    ∃ b, UpdateOrCreate.step levels a i = some b ∧ Simulates serde scope levels b t := by
  have hstage := h.stage i
  have hset : ∀ {level : CompatibilityLevel},
      (s.registry.setRule level scope).ruleOf scope = some (some level) :=
    ruleOf_setRule (by rw [h.rule]; exact nofun)
  unfold UpdateOrCreate.step
  cases hphase : a.phase i with
  | updating =>
    rw [hphase] at hstage
    rw [step_send hstage] at hs
    cases hvalue' : a.value with
    | none =>
      have hnone : s.registry.ruleOf scope = some none := by rw [h.rule, hvalue']
      simp only [Registry.apply, Registry.putRule_of_none hnone] at hs
      cases hs
      exact ⟨_, rfl, simulates_move h (h.rule.trans (congrArg some hvalue'))
        (afterUpdate_absent hstatus)⟩
    | some old =>
      have hold : s.registry.ruleOf scope = some (some old) := by rw [h.rule, hvalue']
      simp only [Registry.apply, Registry.putRule_of_rule hold] at hs
      cases hs
      exact ⟨_, rfl, simulates_move h hset (afterUpdate_present hstatus hvalue)⟩
  | creating =>
    rw [hphase] at hstage
    rw [step_send hstage] at hs
    cases hvalue' : a.value with
    | none =>
      have hnone : s.registry.ruleOf scope = some none := by rw [h.rule, hvalue']
      simp only [Registry.apply, Registry.postRule_of_none hnone] at hs
      cases hs
      exact ⟨_, rfl, simulates_move h hset (afterCreation_absent hstatus)⟩
    | some old =>
      have hold : s.registry.ruleOf scope = some (some old) := by rw [h.rule, hvalue']
      simp only [Registry.apply, Registry.postRule_of_rule hold] at hs
      cases hs
      exact ⟨_, rfl, simulates_move h (h.rule.trans (congrArg some hvalue'))
        (afterCreation_present hstatus)⟩
  | succeeded =>
    rw [hphase] at hstage
    unfold step at hs
    rw [show s.rest i = _ from hstage] at hs
    cases hs
  | conflicted =>
    rw [hphase] at hstage
    obtain ⟨err, herr⟩ := hstage
    unfold step at hs
    rw [herr] at hs
    cases hs

end

/-! ## What a phase shows -/

theorem upcoming_of_stage {phase : UpdateOrCreate.Phase} {rest : Requests Request}
    (h : Stage serde scope level phase rest) :
    upcoming rest = match phase with
      | .updating => some (.putRule scope level)
      | .creating => some (.postRule scope level)
      | .succeeded => none
      | .conflicted => none := by
  cases phase with
  | updating =>
    cases h
    rfl
  | creating =>
    cases h
    rfl
  | succeeded =>
    cases h
    rfl
  | conflicted =>
    obtain ⟨err, rfl⟩ := h
    rfl

theorem upcoming_putRule {phase : UpdateOrCreate.Phase} {rest : Requests Request}
    (h : Stage serde scope level phase rest) :
    (∃ level, upcoming rest = some (.putRule scope level)) ↔ phase = .updating := by
  rw [upcoming_of_stage h]
  cases phase <;> simp

theorem upcoming_postRule {phase : UpdateOrCreate.Phase} {rest : Requests Request}
    (h : Stage serde scope level phase rest) :
    (∃ level, upcoming rest = some (.postRule scope level)) ↔ phase = .creating := by
  rw [upcoming_of_stage h]
  cases phase <;> simp

/-- A caller has returned if it has nothing to do, and well unless it has been refused. -/
theorem stage_done {phase : UpdateOrCreate.Phase} {result : Option (Result Returned)}
    (h : Stage serde scope level phase (.done result)) :
    phase = .succeeded ∧ result = some (.ok .unit) ∨
      phase = .conflicted ∧ ∃ err, result = some (.error err) := by
  cases phase with
  | updating => cases h
  | creating => cases h
  | succeeded =>
    cases h
    exact .inl ⟨rfl, rfl⟩
  | conflicted =>
    obtain ⟨err, h⟩ := h
    cases h
    exact .inr ⟨rfl, err, rfl⟩

omit [DecidableEq ι] in
/-- The calls race as the callers do. -/
theorem races_iff (h : Simulates serde scope levels a s) :
    Races scope s i ↔ UpdateOrCreate.Races a i := by
  unfold Races UpdateOrCreate.Races
  rw [upcoming_putRule (h.stage i), h.rule, Option.some.injEq]
  refine and_congr_right' (and_congr_right' (exists_congr fun j => ?_))
  exact upcoming_postRule (h.stage j)

/-! ## Runs -/

section

variable (hstatus : ∀ answer, (respond answer).status = answer.status)
  (hvalue : ∀ level, serde.value (respond (.rule level)).body = .ok ())
  (hscope : ruleScope subject = .ok scope)
include hstatus hvalue hscope

/-- A run of the calls is a run of the callers. -/
theorem run_simulates {P : Calls ι → ι → Prop}
    {Q : UpdateOrCreate.State ι CompatibilityLevel → ι → Prop} {value : Option CompatibilityLevel}
    (hguard : ∀ a s i, Simulates serde scope levels a s → P s i → Q a i)
    (hrule : registry.ruleOf scope = some value)
    (hrun : Run (step policy respond) P (start serde subject levels registry) es t) :
    ∃ a, Run (UpdateOrCreate.step levels) Q (UpdateOrCreate.start value) es a ∧
      Simulates serde scope levels a t := by
  refine hrun.relative (I := fun es t => ∃ a,
    Run (UpdateOrCreate.step levels) Q (UpdateOrCreate.start value) es a ∧
      Simulates serde scope levels a t) ⟨_, Run.nil, simulates_start hscope hrule⟩ ?_
  rintro es x i y ⟨a, ha, hx⟩ hP hs
  obtain ⟨b, hb, hy⟩ := step_simulates hstatus hvalue hx hs
  exact ⟨b, Run.snoc ha (hguard a x i hx hP) hb, hy⟩

/-- Nobody is refused in a run without races. -/
theorem run_orderly (hexists : registry.ruleOf scope ≠ none)
    (hrun : Run (step policy respond) (fun s i => ¬ Races scope s i)
      (start serde subject levels registry) es t) {result : Result Returned}
    (hreturns : Returns t i result) :
    result = .ok .unit ∧ ∃ j, t.registry.ruleOf scope = some (some (levels j)) := by
  obtain ⟨value, hrule⟩ := Option.ne_none_iff_exists'.mp hexists
  obtain ⟨a, ha, ht⟩ := run_simulates (Q := fun a i => ¬ UpdateOrCreate.Races a i) hstatus hvalue
    hscope (fun a s i h hP hQ => hP ((races_iff h).mpr hQ)) hrule hrun
  have horderly : UpdateOrCreate.Orderly a := ha.invariant UpdateOrCreate.orderly_start
    fun x e y hx hP hs => UpdateOrCreate.step_orderly hx hP hs
  have hoffered : UpdateOrCreate.Offered levels a := ha.invariant UpdateOrCreate.offered_start
    fun x e y hx _ hs => UpdateOrCreate.step_offered hx hs
  have hstage := ht.stage i
  rw [hreturns] at hstage
  obtain ⟨hphase, hresult⟩ | ⟨hphase, -⟩ := stage_done hstage
  · obtain ⟨j, hj⟩ := hoffered ⟨i, hphase⟩
    exact ⟨Option.some.inj hresult, j, ht.rule.trans (congrArg some hj)⟩
  · exact absurd hphase (horderly.accepted i)

/-- Somebody is refused in any other run, once all have returned. -/
theorem run_refused (hexists : registry.ruleOf scope ≠ none)
    (hrun : Run (step policy respond) (fun _ _ => True)
      (start serde subject levels registry) es t)
    (hreturned : ∀ i, ∃ result, Returns t i result)
    (hraced : ¬ Run (step policy respond) (fun s i => ¬ Races scope s i)
      (start serde subject levels registry) es t) :
    ∃ i err, Returns t i (.error err) := by
  obtain ⟨value, hrule⟩ := Option.ne_none_iff_exists'.mp hexists
  have hcalls : Run (step policy respond) (fun s _ => ∃ a, Simulates serde scope levels a s)
      (start serde subject levels registry) es t := by
    refine hrun.and (I := fun s => ∃ a, Simulates serde scope levels a s)
      ⟨_, simulates_start hscope hrule⟩ ?_ fun _ _ _ h _ _ => h
    rintro x i y ⟨a, hx⟩ - hs
    obtain ⟨b, -, hy⟩ := step_simulates hstatus hvalue hx hs
    exact ⟨b, hy⟩
  obtain h | ⟨a, ht, hcontended⟩ := hcalls.within_or (Q := fun s i => ¬ Races scope s i)
    (I := fun s => ∃ a, Simulates serde scope levels a s ∧ UpdateOrCreate.Contended a)
    (fun x i y ⟨a, hx⟩ hraces hs => by
      obtain ⟨b, hb, hy⟩ := step_simulates hstatus hvalue hx hs
      have hraces := (races_iff hx).mp (not_not.mp hraces)
      exact ⟨b, hy, UpdateOrCreate.contended_of_races hraces hb⟩)
    (fun x i y ⟨a, hx, hcontended⟩ _ hs => by
      obtain ⟨b, hb, hy⟩ := step_simulates hstatus hvalue hx hs
      exact ⟨b, hy, UpdateOrCreate.step_contended hcontended hb⟩)
  · exact absurd h hraced
  have hfinished : UpdateOrCreate.Finished a := by
    intro i
    obtain ⟨result, hresult⟩ := hreturned i
    have hstage := ht.stage i
    rw [hresult] at hstage
    exact (stage_done hstage).imp And.left And.left
  obtain ⟨i, hi⟩ := UpdateOrCreate.refused_of_contended hcontended hfinished
  have hstage := ht.stage i
  rw [hi] at hstage
  obtain ⟨err, herr⟩ := hstage
  exact ⟨i, err, herr⟩

/-- A call sends two requests at most, and has returned when it has sent two. -/
theorem run_returns (hexists : registry.ruleOf scope ≠ none)
    (hrun : Run (step policy respond) (fun _ _ => True)
      (start serde subject levels registry) es t) (i : ι) :
    es.count i ≤ 2 ∧ (es.count i = 2 → ∃ result, Returns t i result) := by
  obtain ⟨value, hrule⟩ := Option.ne_none_iff_exists'.mp hexists
  obtain ⟨a, ha, ht⟩ := run_simulates (Q := fun _ _ => True) hstatus hvalue hscope
    (fun _ _ _ _ _ => trivial) hrule hrun
  have hcount := UpdateOrCreate.count_remaining ha i
  refine ⟨by omega, fun htwo => ?_⟩
  have hstage := ht.stage i
  cases hphase : a.phase i with
  | updating =>
    rw [hphase, htwo] at hcount
    exact absurd hcount (by decide)
  | creating =>
    rw [hphase, htwo] at hcount
    exact absurd hcount (by decide)
  | succeeded =>
    rw [hphase] at hstage
    exact ⟨_, hstage⟩
  | conflicted =>
    rw [hphase] at hstage
    obtain ⟨err, herr⟩ := hstage
    exact ⟨_, herr⟩

end

end Calls

/-- Concurrent calls of `set_compatibility` on one scope that exists, in any interleaving of their
    requests: each returns after two requests at most. Where no step races, all that return have
    succeeded, and the rule is the level of one of them. Once all have returned, that is so only
    if no step has raced. -/
theorem concurrent_calls_iff {ι : Type} [DecidableEq ι] (policy : Policy)
    (respond : Answer → HttpResponse) (serde : OperationSerde) (subject : String)
    (scope : RuleScope) (levels : ι → CompatibilityLevel) (registry : Registry)
    (hstatus : ∀ answer, (respond answer).status = answer.status)
    (hvalue : ∀ level, serde.value (respond (.rule level)).body = .ok ())
    (hscope : ruleScope subject = .ok scope) (hexists : registry.ruleOf scope ≠ none)
    (es : List ι) (t : Calls ι)
    (hrun : Run (Calls.step policy respond) (fun _ _ => True)
      (Calls.start serde subject levels registry) es t) :
    (∀ i, es.count i ≤ 2 ∧ (es.count i = 2 → ∃ result, t.Returns i result)) ∧
      (Run (Calls.step policy respond) (fun s i => ¬ Calls.Races scope s i)
          (Calls.start serde subject levels registry) es t →
        ∀ i result, t.Returns i result → result = .ok .unit ∧
          ∃ j, t.registry.ruleOf scope = some (some (levels j))) ∧
      ((∀ i, ∃ result, t.Returns i result) →
        ((∀ i, t.Returns i (.ok .unit) ∧
            ∃ j, t.registry.ruleOf scope = some (some (levels j))) ↔
          Run (Calls.step policy respond) (fun s i => ¬ Calls.Races scope s i)
            (Calls.start serde subject levels registry) es t)) := by
  refine ⟨Calls.run_returns hstatus hvalue hscope hexists hrun, fun hfree i result hreturns =>
    Calls.run_orderly hstatus hvalue hscope hexists hfree hreturns, fun hreturned => ⟨?_, ?_⟩⟩
  · intro hok
    by_contra hraced
    obtain ⟨i, err, herr⟩ := Calls.run_refused hstatus hvalue hscope hexists hrun hreturned hraced
    have hsame := herr.symm.trans (hok i).1
    cases hsame
  · intro hfree i
    obtain ⟨result, hresult⟩ := hreturned i
    obtain ⟨rfl, hrule⟩ := Calls.run_orderly hstatus hvalue hscope hexists hfree hresult
    exact ⟨hresult, hrule⟩

/-- The levels of two calls. -/
def twoLevels (first : Bool) : CompatibilityLevel := if first then .full else .backward

/-- One call after the other. -/
theorem one_after_another :
    ∃ t, exec (Calls.step lenient respondJson)
        (Calls.start readJson "" twoLevels oneArtifact) [true, true, false] = some t ∧
      t.registry.ruleOf none = some (some .backward) ∧
      ∀ i, t.Returns i (.ok .unit) ∧
        ∃ j, t.registry.ruleOf none = some (some (twoLevels j)) := by
  refine ⟨_, rfl, rfl, ?_⟩
  have hlast : ∀ t, exec (Calls.step lenient respondJson)
      (Calls.start readJson "" twoLevels oneArtifact) [true, true, false] = some t →
      (∀ i, ∃ result, t.Returns i result) ∧ Along (Calls.step lenient respondJson)
        (fun s i => ¬ Calls.Races none s i) (Calls.start readJson "" twoLevels oneArtifact)
        [true, true, false] := by
    intro t ht
    cases ht
    refine ⟨?_, ?_⟩
    · intro i
      cases i with
      | false => exact ⟨.ok .unit, rfl⟩
      | true => exact ⟨.ok .unit, rfl⟩
    · refine ⟨?_, fun t ht => ?_⟩
      · rintro ⟨-, -, j, level, hj⟩
        cases j <;> cases hj
      cases ht
      refine ⟨?_, fun t ht => ?_⟩
      · rintro ⟨⟨level, h⟩, -⟩
        cases h
      cases ht
      refine ⟨?_, fun t ht => trivial⟩
      rintro ⟨-, h, -⟩
      cases h
  obtain ⟨hreturned, halong⟩ := hlast _ rfl
  exact ((concurrent_calls_iff lenient respondJson readJson "" none twoLevels oneArtifact
    (fun _ => rfl) (fun level => by cases level <;> decide +kernel) rfl nofun [true, true, false] _
    (Run.of_exec_free rfl)).2.2 hreturned).mpr (Run.of_exec rfl halong)

/-- Both calls find no rule, and the second to create it is refused. -/
theorem second_creation_refused :
    ∃ t, exec (Calls.step lenient respondJson)
        (Calls.start readJson "" twoLevels oneArtifact) [true, false, true, false] = some t ∧
      t.Returns true (.ok .unit) ∧ t.Returns false (.error (.api 40902 "<empty>")) ∧
      ¬ ∀ es t, Run (Calls.step lenient respondJson) (fun _ _ => True)
          (Calls.start readJson "" twoLevels oneArtifact) es t →
        (∀ i, ∃ result, t.Returns i result) → ∀ i, t.Returns i (.ok .unit) := by
  refine ⟨_, rfl, rfl, rfl, fun hclaim => ?_⟩
  have hfalse := hclaim [true, false, true, false] _ (Run.of_exec_free rfl) (fun i => by
    cases i with
    | false => exact ⟨.error (.api 40902 "<empty>"), rfl⟩
    | true => exact ⟨.ok .unit, rfl⟩) false
  cases hfalse

end Schemreg.Apicurio
