import Atlas.Broker.Envelope
import Atlas.Memory.Experience

/-!
# From the broker to the experience engine

A memory message that the broker accepts is read by the experience engine: `_detect_event_type` picks a capture
function for its payload, and the payload's members become keyword arguments.

* `binds_iff` : the arguments bind just when the keys are the names of the arguments and none is missing;
* `ReadAs` : a payload that the broker decodes and Python loads; an argument that is not `null` is what was checked;
* `Capturable` : what a payload must meet for its capture function, besides the broker's own check;
* `executionOutcome_checks`, `riskAssessment_checks`, `agentDecision_checks` : the checks of the three events;
* `captured_iff` : an accepted message is captured just when its payload is capturable.
-/

namespace Atlas.Memory

open Json GoJson PyJson Broker

/-! ## Members by name -/

/-- The value of the last member named `n`. -/
def lastOf (ms : List (StrLit × Value)) (n : String) : Option Value := lastMember (fun k => goString k = n) ms

theorem lastOf_isSome {ms : List (StrLit × Value)} {n : String} :
    (lastOf ms n).isSome ↔ n ∈ ms.map (goString ·.1) := by
  rw [lastOf, lastMember_isSome]
  simp

/-- A name without U+FFFD, so that the broker and Python agree on which keys spell it. -/
def Plain (n : String) : Prop := Utf8.replacement ∉ n.toList

instance (n : String) : Decidable (Plain n) := inferInstanceAs (Decidable (¬ _))

theorem key_iff {k : StrLit} {n : String} (hn : Plain n) {t : PyStr} (ht : pyText k = some t) :
    t = pyStr n ↔ goString k = n := by
  rw [goString_eq_iff hn, ← pyText_eq_iff, ht, Option.some_inj]

theorem get_eq {ms : List (StrLit × Value)} {items : List (PyStr × PyValue)} (h : ofMembers ms = some items)
    {n : String} (hn : Plain n) : get items (pyStr n) = (lastOf ms n).bind ofJson :=
  get_ofMembers (fun m _ k hk => by rw [key_iff hn hk, decide_eq_true_iff]) h

/-- The members of a payload that was loaded were all loaded. -/
theorem ofJson_isSome {ms : List (StrLit × Value)} {items : List (PyStr × PyValue)} (h : ofMembers ms = some items)
    {m : StrLit × Value} (hm : m ∈ ms) : (pyText m.1).isSome ∧ (ofJson m.2).isSome := by
  obtain ⟨i, hi, rfl⟩ := List.mem_iff_getElem.mp hm
  obtain ⟨hlen, hget⟩ := List.forall₂_iff_get.mp (ofMembers_iff.mp h)
  obtain ⟨hk, hv⟩ := hget i hi (hlen ▸ hi)
  rw [List.get_eq_getElem] at hk hv
  rw [hk, hv]
  exact ⟨rfl, rfl⟩

theorem argsOf_eq {ms : List (StrLit × Value)} {items : List (PyStr × PyValue)} (h : ofMembers ms = some items)
    {n : String} (hn : Plain n) {v : Value} (hv : lastOf ms n = some v) : ofJson v = some (argsOf items n) := by
  obtain ⟨m, hm, -, rfl⟩ := mem_of_lastMember hv
  obtain ⟨x, hx⟩ := Option.isSome_iff_exists.mp (ofJson_isSome h hm).2
  rw [argsOf, get_eq h hn, hv, Option.bind_some, hx]
  rfl

theorem get_isSome {ms : List (StrLit × Value)} {items : List (PyStr × PyValue)} (h : ofMembers ms = some items)
    {n : String} (hn : Plain n) : (get items (pyStr n)).isSome ↔ n ∈ ms.map (goString ·.1) := by
  rw [← lastOf_isSome, get_eq h hn]
  cases hlast : lastOf ms n with
  | none => simp
  | some v =>
    rw [Option.bind_some, argsOf_eq h hn hlast]
    simp

/-! ## Binding -/

/-- The parameters of a capture function are plain names, and its checks are on required ones. -/
structure Regular (f : CaptureFunction) : Prop where
  plain : ∀ n ∈ "metadata" :: f.required, Plain n
  checked : ∀ c ∈ f.checks, c.name ∈ f.required

theorem regular_executionOutcome : Regular captureExecutionOutcome := ⟨by decide, by decide⟩

theorem regular_riskAssessment : Regular captureRiskAssessment :=
  ⟨by decide, by simp [captureRiskAssessment, Check.name]⟩

theorem regular_agentDecision : Regular captureAgentDecision := ⟨by decide, by simp [captureAgentDecision, Check.name]⟩

/-- The arguments bind just when the keys are the names of the arguments and none is missing. -/
theorem binds_iff {f : CaptureFunction} (hf : Regular f) {ms : List (StrLit × Value)}
    {items : List (PyStr × PyValue)} (h : ofMembers ms = some items) (hmetadata : "metadata" ∉ ms.map (goString ·.1))
    {arg : String → PyValue} :
    f.bindArguments items = .ok arg ↔
      ((∀ m ∈ ms, goString m.1 ∈ f.required) ∧ ∀ n ∈ f.required, (lastOf ms n).isSome) ∧ arg = argsOf items := by
  have hkeys : (∀ item ∈ items, item.1 ∈ ("metadata" :: f.required).map pyStr) ↔
      ∀ m ∈ ms, goString m.1 ∈ f.required := by
    have hall := ofMembers_iff.mp h
    have hmember : ∀ m item, m ∈ ms → pyText m.1 = some item →
        (item ∈ ("metadata" :: f.required).map pyStr ↔ goString m.1 ∈ f.required) := by
      intro m item hm hitem
      rw [List.mem_map]
      constructor
      · rintro ⟨n, hn, hname⟩
        have hkey := (key_iff (hf.plain n hn) hitem).mp hname.symm
        rcases List.mem_cons.mp hn with rfl | hn
        · exact absurd (List.mem_map.mpr ⟨m, hm, hkey⟩) hmetadata
        · rwa [hkey]
      · intro hn
        have hmem := List.mem_cons_of_mem "metadata" hn
        exact ⟨_, hmem, ((key_iff (hf.plain _ hmem) hitem).mpr rfl).symm⟩
    obtain ⟨hlen, hget⟩ := List.forall₂_iff_get.mp hall
    simp only [List.get_eq_getElem] at hget
    constructor
    · intro hitems m hm
      obtain ⟨i, hi, rfl⟩ := List.mem_iff_getElem.mp hm
      exact (hmember _ _ hm (hget i hi (hlen ▸ hi)).1).mp (hitems _ (List.getElem_mem _))
    · intro hms item hitem
      obtain ⟨i, hi, rfl⟩ := List.mem_iff_getElem.mp hitem
      have hi' : i < ms.length := hlen ▸ hi
      exact (hmember _ _ (List.getElem_mem hi') (hget i hi' hi).1).mpr (hms _ (List.getElem_mem hi'))
  have hpresent : (∀ n ∈ f.required, (get items (pyStr n)).isSome) ↔ ∀ n ∈ f.required, (lastOf ms n).isSome := by
    refine forall₂_congr fun n hn => ?_
    rw [get_isSome h (hf.plain n (List.mem_cons_of_mem _ hn)), lastOf_isSome]
  rw [bindArguments_ok_iff, hkeys, hpresent]

/-! ## Checks -/

/-- No check passes `None`. -/
theorem check_ne_none {c : Check} {arg : String → PyValue} (h : c.run arg = .ok ()) : arg c.name ≠ .none := by
  intro hnone
  cases c with
  | notEmpty name =>
    rw [Check.run, show arg name = .none from hnone] at h
    cases h
  | oneOf name options text =>
    rw [Check.run, show arg name = .none from hnone] at h
    split_ifs at h with hany
    obtain ⟨o, -, ho⟩ := List.any_eq_true.mp hany
    cases ho
  | between name low high text =>
    rw [Check.run, show arg name = .none from hnone] at h
    cases h

theorem notEmpty_iff {lit : StrLit} {s : PyStr} (h : pyText lit = some s) {arg : String → PyValue} {n : String}
    (harg : arg n = .str s) : (Check.notEmpty n).run arg = .ok () ↔ goString lit ≠ "" := by
  have hempty : s = [] ↔ goString lit = "" := by
    rw [goString_eq_empty, ← pyText_eq_nil_iff, h, Option.some_inj]
  rw [Check.run, harg, ne_eq, ← hempty]
  by_cases hs : s = [] <;> simp [PyValue.truthy, hs]

theorem oneOf_iff {lit : StrLit} {s : PyStr} (h : pyText lit = some s) {arg : String → PyValue} {n : String}
    (harg : arg n = .str s) {options : List String} (hplain : ∀ o ∈ options, Plain o) (text : String) :
    (Check.oneOf n options text).run arg = .ok () ↔ goString lit ∈ options := by
  have hany : options.any (arg n).isStr = true ↔ goString lit ∈ options := by
    rw [List.any_eq_true, harg]
    constructor
    · rintro ⟨o, ho, hs⟩
      rwa [(key_iff (hplain o ho) h).mp (by simpa [PyValue.isStr] using hs)]
    · intro ho
      exact ⟨_, ho, by simpa [PyValue.isStr] using (key_iff (hplain _ ho) h).mpr rfl⟩
  rw [Check.run, ← hany]
  by_cases hs : options.any (arg n).isStr = true <;> simp [hs]

/-- Python compares an integer as it is and the broker its rounding; between small integers that is the same. -/
theorem between_iff {n : NumLit} {r : ℚ} (hr : Binary64.round n.value = some r) {arg : String → PyValue}
    {name : String} (harg : arg name = pyNumber n) (low high : ℤ) (hlow : |low| ≤ 1000000) (hhigh : |high| ≤ 1000000)
    (text : String) :
    (Check.between name low high text).run arg = .ok () ↔ (low : ℚ) ≤ r ∧ r ≤ high := by
  have hnumber : ∃ x : ℚ, (pyNumber n).number? = some ((x : WithTop ℚ) : WithBot (WithTop ℚ)) ∧
      ((low ≤ x ∧ x ≤ high) ↔ (low : ℚ) ≤ r ∧ r ≤ high) := by
    by_cases hint : n.IsInt
    · refine ⟨n.toInt, by rw [pyNumber, if_pos hint]; rfl, ?_⟩
      rw [NumLit.value_of_isInt hint] at hr
      have hsmall : ∀ k : ℤ, |k| ≤ 1000001 → |(k : ℚ)| < 2 ^ 53 := by
        intro k hk
        have hk' : |(k : ℚ)| ≤ 1000001 := by exact_mod_cast hk
        linarith [show (1000001 : ℚ) < 2 ^ 53 by norm_num]
      have hbounds := abs_le.mp hlow
      have hbounds' := abs_le.mp hhigh
      constructor
      · rintro ⟨h1, h2⟩
        exact ⟨Binary64.le_round (hsmall low (by omega)) h1 hr, Binary64.round_le (hsmall high (by omega)) h2 hr⟩
      · rintro ⟨h1, h2⟩
        constructor
        · by_contra hlt
          have hle : (n.toInt : ℚ) ≤ ((low - 1 : ℤ) : ℚ) := by
            have : n.toInt < low := by exact_mod_cast not_le.mp hlt
            exact_mod_cast Int.le_sub_one_of_lt this
          have := Binary64.round_le (hsmall (low - 1) (by rw [abs_le]; omega)) hle hr
          push_cast at this
          linarith
        · by_contra hlt
          have hle : ((high + 1 : ℤ) : ℚ) ≤ (n.toInt : ℚ) := by
            have : high < n.toInt := by exact_mod_cast not_le.mp hlt
            exact_mod_cast Int.add_one_le_of_lt this
          have := Binary64.le_round (hsmall (high + 1) (by rw [abs_le]; omega)) hle hr
          push_cast at this
          linarith
    · refine ⟨r, ?_, Iff.rfl⟩
      rw [pyNumber, if_neg hint, PyValue.number?, pyFloat, hr]
      rfl
  obtain ⟨x, hx, hiff⟩ := hnumber
  rw [Check.run, harg, hx, ← hiff]
  simp only [WithBot.coe_le_coe, WithTop.coe_le_coe]
  by_cases hin : (low : ℚ) ≤ x ∧ x ≤ high <;> simp [hin]

/-! ## Payloads that both sides read -/

/-- The broker decodes the members into `p`, every key being the name of a field, and Python loads them. -/
structure ReadAs {σ : Type} (fields : List (StructField σ)) (zero : σ) (ms : List (StrLit × Value)) (p : σ)
    (items : List (PyStr × PyValue)) : Prop where
  known : ∀ m ∈ ms, ∃ f ∈ fields, f.name = goString m.1
  decode : decodeMembers fields ms zero = .ok p
  load : ofMembers ms = some items

section ReadAs

variable {σ : Type} {fields : List (StructField σ)} {zero p : σ} {ms : List (StrLit × Value)}
  {items : List (PyStr × PyValue)} {n : String}

/-- A text argument that is not `null` is the text the broker has checked. -/
theorem ReadAs.text_arg (h : ReadAs fields zero ms p items) {get : σ → String} (hn : HeldIn fields n string get)
    (hplain : Plain n) (hpresent : (lastOf ms n).isSome) (hnull : lastOf ms n ≠ some (.word .null)) :
    ∃ lit s, pyText lit = some s ∧ argsOf items n = .str s ∧ get p = goString lit := by
  obtain ⟨v, hv⟩ := Option.isSome_iff_exists.mp hpresent
  obtain ⟨a, ha⟩ := hn.decode_ok h.known h.decode hv
  have harg := argsOf_eq h.load hplain hv
  rcases v with (_ | _ | _) | _ | lit | _ | _
  case str =>
    obtain ⟨s, hs, hstr⟩ := Option.map_eq_some_iff.mp (show (pyText lit).map .str = some (argsOf items n) from harg)
    exact ⟨lit, s, hs, hstr.symm, hn.get_eq h.known h.decode hv rfl⟩
  case word.null => exact absurd hv hnull
  all_goals cases ha

/-- A number argument that is not `null` is the number the broker has checked, before rounding. -/
theorem ReadAs.number_arg (h : ReadAs fields zero ms p items) {get : σ → ℚ} (hn : HeldIn fields n float64 get)
    (hplain : Plain n) (hpresent : (lastOf ms n).isSome) (hnull : lastOf ms n ≠ some (.word .null)) :
    ∃ lit, lastOf ms n = some (.num lit) ∧ Binary64.round lit.value = some (get p) ∧
      argsOf items n = pyNumber lit := by
  obtain ⟨v, hv⟩ := Option.isSome_iff_exists.mp hpresent
  obtain ⟨a, ha⟩ := hn.decode_ok h.known h.decode hv
  have harg := argsOf_eq h.load hplain hv
  rcases v with (_ | _ | _) | lit | _ | _ | _
  case num =>
    rw [float64] at ha
    cases hr : Binary64.round lit.value with
    | none => rw [hr] at ha; cases ha
    | some r =>
      have hdec : float64 (.num lit) = .ok (some r) := by rw [float64, hr]; rfl
      have hget := hn.get_eq h.known h.decode hv hdec
      exact ⟨lit, hv, by rw [hr, hget], (Option.some.inj harg).symm⟩
  case word.null => exact absurd hv hnull
  all_goals cases ha

theorem ReadAs.notEmpty (h : ReadAs fields zero ms p items) {get : σ → String} (hn : HeldIn fields n string get)
    (hplain : Plain n) (hpresent : (lastOf ms n).isSome) (hnull : lastOf ms n ≠ some (.word .null))
    (hget : get p ≠ "") : (Check.notEmpty n).run (argsOf items) = .ok () := by
  obtain ⟨lit, s, hs, harg, heq⟩ := h.text_arg hn hplain hpresent hnull
  rwa [notEmpty_iff hs harg, ← heq]

theorem ReadAs.oneOf (h : ReadAs fields zero ms p items) {get : σ → String} (hn : HeldIn fields n string get)
    (hplain : Plain n) (hpresent : (lastOf ms n).isSome) (hnull : lastOf ms n ≠ some (.word .null))
    {options : List String} (hoptions : ∀ o ∈ options, Plain o) (hget : get p ∈ options) (text : String) :
    (Check.oneOf n options text).run (argsOf items) = .ok () := by
  obtain ⟨lit, s, hs, harg, heq⟩ := h.text_arg hn hplain hpresent hnull
  rwa [oneOf_iff hs harg hoptions, ← heq]

end ReadAs

/-! ## Capturable payloads -/

/-- The last risk score, rounded as the broker reads it, is one the engine takes. -/
def ScoreFits (ms : List (StrLit × Value)) : Prop :=
  ∀ n, lastOf ms "risk_score" = some (.num n) → ∃ r, Binary64.round n.value = some r ∧ r ≤ 100

/-- What a payload must meet for its capture function, besides the broker's check. -/
structure Capturable (f : CaptureFunction) (ms : List (StrLit × Value)) : Prop where
  loads : (ofMembers ms).isSome
  known : ∀ m ∈ ms, goString m.1 ∈ f.required
  present : ∀ n ∈ f.required, (lastOf ms n).isSome
  notNull : ∀ c ∈ f.checks, lastOf ms c.name ≠ some (.word .null)
  score : ScoreFits ms

section Capture

variable {ms : List (StrLit × Value)} {items : List (PyStr × PyValue)}

theorem scoreFits_of_known {f : CaptureFunction} (hknown : ∀ m ∈ ms, goString m.1 ∈ f.required)
    (hscore : "risk_score" ∉ f.required) : ScoreFits ms := by
  intro n hn
  obtain ⟨m, hm, hkey⟩ := List.mem_map.mp (lastOf_isSome.mp (by rw [hn]; rfl))
  exact absurd (hkey ▸ hknown m hm) hscore

/-- A check that passes is not on `null`. -/
theorem notNull_of_check (hload : ofMembers ms = some items) {c : Check} (hplain : Plain c.name)
    (h : c.run (argsOf items) = .ok ()) : lastOf ms c.name ≠ some (.word .null) := by
  intro hnull
  refine check_ne_none h ?_
  have harg := argsOf_eq hload hplain hnull
  exact (Option.some.inj harg).symm

/-- A payload is captured just when it is capturable, if all that its checks ask beyond the broker's is a risk score
that fits. -/
theorem isCaptured_iff {f : CaptureFunction} (hf : Regular f) (hload : ofMembers ms = some items)
    (hmetadata : "metadata" ∉ ms.map (goString ·.1))
    (hchecks : (∀ m ∈ ms, goString m.1 ∈ f.required) → (∀ n ∈ f.required, (lastOf ms n).isSome) →
      (∀ c ∈ f.checks, lastOf ms c.name ≠ some (.word .null)) →
      ((∀ c ∈ f.checks, c.run (argsOf items) = .ok ()) ↔ ScoreFits ms))
    (storage : Storage) (memoryId : NonEmptyStr) {agentId operationId : String} (hagent : agentId ≠ "")
    (hoperation : operationId ≠ "") :
    IsCaptured (f.call storage memoryId items agentId operationId).1 ↔ Capturable f ms := by
  have hnone : get items (pyStr "metadata") = none := by
    rw [← Option.not_isSome_iff_eq_none, get_isSome hload (hf.plain _ (List.mem_cons_self ..))]
    exact hmetadata
  rw [call_isCaptured_iff f storage memoryId hagent hoperation hnone]
  constructor
  · rintro ⟨arg, hbind, hrun⟩
    obtain ⟨⟨hknown, hpresent⟩, rfl⟩ := (binds_iff hf hload hmetadata).mp hbind
    have hnull : ∀ c ∈ f.checks, lastOf ms c.name ≠ some (.word .null) := fun c hc =>
      notNull_of_check hload (hf.plain _ (List.mem_cons_of_mem _ (hf.checked c hc))) (hrun c hc)
    exact ⟨by rw [hload]; rfl, hknown, hpresent, hnull, (hchecks hknown hpresent hnull).mp hrun⟩
  · intro h
    refine ⟨_, (binds_iff hf hload hmetadata).mpr ⟨⟨h.known, h.present⟩, rfl⟩, ?_⟩
    exact (hchecks h.known h.present h.notNull).mpr h.score

/-! ### The three events -/

theorem executionOutcome_checks {p : ExecutionOutcomePayload} (hload : ofMembers ms = some items)
    (hdecode : decodeMembers ExecutionOutcomePayload.fields ms ⟨"", "", "", 0, 0, ""⟩ = .ok p)
    (hcheck : p.check = .ok ())
    (hknown : ∀ m ∈ ms, goString m.1 ∈ captureExecutionOutcome.required)
    (hpresent : ∀ n ∈ captureExecutionOutcome.required, (lastOf ms n).isSome)
    (hnull : ∀ c ∈ captureExecutionOutcome.checks, lastOf ms c.name ≠ some (.word .null)) :
    (∀ c ∈ captureExecutionOutcome.checks, c.run (argsOf items) = .ok ()) ↔ ScoreFits ms := by
  refine iff_of_true ?_ (scoreFits_of_known hknown (by decide))
  have hread : ReadAs ExecutionOutcomePayload.fields _ ms p items :=
    ⟨fun m hm => List.mem_map.mp (hknown m hm), hdecode, hload⟩
  obtain ⟨horder, hsymbol, hside, hstatus⟩ := ExecutionOutcomePayload.check_ok hcheck
  simp only [captureExecutionOutcome, List.forall_mem_cons, List.not_mem_nil, false_imp_iff, implies_true, and_true,
    Check.name] at hpresent hnull ⊢
  obtain ⟨hpo, hpsy, hpsi, -, -, hpst⟩ := hpresent
  obtain ⟨hno, hnsy, hnsi, hnst⟩ := hnull
  exact ⟨hread.notEmpty ExecutionOutcomePayload.heldIn_orderID (by decide) hpo hno horder,
    hread.notEmpty ExecutionOutcomePayload.heldIn_symbol (by decide) hpsy hnsy hsymbol,
    hread.oneOf ExecutionOutcomePayload.heldIn_side (by decide) hpsi hnsi (by decide) hside _,
    hread.oneOf ExecutionOutcomePayload.heldIn_status (by decide) hpst hnst (by decide) hstatus _⟩

/-- The broker lets the risk score go up to 10000, the engine to 100. -/
theorem riskAssessment_checks {p : RiskAssessmentPayload} (hload : ofMembers ms = some items)
    (hdecode : decodeMembers RiskAssessmentPayload.fields ms ⟨"", "", "", 0⟩ = .ok p) (hcheck : p.check = .ok ())
    (hknown : ∀ m ∈ ms, goString m.1 ∈ captureRiskAssessment.required)
    (hpresent : ∀ n ∈ captureRiskAssessment.required, (lastOf ms n).isSome)
    (hnull : ∀ c ∈ captureRiskAssessment.checks, lastOf ms c.name ≠ some (.word .null)) :
    (∀ c ∈ captureRiskAssessment.checks, c.run (argsOf items) = .ok ()) ↔ ScoreFits ms := by
  have hread : ReadAs RiskAssessmentPayload.fields _ ms p items :=
    ⟨fun m hm => List.mem_map.mp (hknown m hm), hdecode, hload⟩
  obtain ⟨htype, hresult, hstate, hlow, -⟩ := RiskAssessmentPayload.check_ok hcheck
  simp only [captureRiskAssessment, List.forall_mem_cons, List.not_mem_nil, false_imp_iff, implies_true, and_true,
    Check.name] at hpresent hnull ⊢
  obtain ⟨hpt, hpr, hpst, hpsc⟩ := hpresent
  obtain ⟨hnt, hnr, hnst, hnsc⟩ := hnull
  obtain ⟨lit, hlast, hround, harg⟩ := hread.number_arg RiskAssessmentPayload.heldIn_riskScore (by decide) hpsc hnsc
  have hrange : (Check.between "risk_score" 0 100 "risk_score must be 0-100, got ").run (argsOf items) = .ok () ↔
      ScoreFits ms := by
    have hbetween := between_iff hround harg 0 100 (by decide) (by decide) "risk_score must be 0-100, got "
    rw [Int.cast_zero, Int.cast_ofNat] at hbetween
    rw [hbetween]
    constructor
    · rintro ⟨-, hhigh⟩ n hn
      obtain rfl : lit = n := by simpa using hlast.symm.trans hn
      exact ⟨_, hround, hhigh⟩
    · intro hfits
      obtain ⟨r, hr, hhigh⟩ := hfits lit hlast
      obtain rfl : r = p.riskScore := Option.some.inj (hr.symm.trans hround)
      exact ⟨hlow, hhigh⟩
  rw [hrange]
  refine ⟨fun h => h.2.2.2, fun h => ⟨?_, ?_, ?_, h⟩⟩
  · exact hread.notEmpty RiskAssessmentPayload.heldIn_assessmentType (by decide) hpt hnt htype
  · exact hread.oneOf RiskAssessmentPayload.heldIn_result (by decide) hpr hnr (by decide) hresult _
  · exact hread.oneOf RiskAssessmentPayload.heldIn_circuitBreakerState (by decide) hpst hnst (by decide) hstate _

theorem agentDecision_checks {p : AgentDecisionPayload} (hload : ofMembers ms = some items)
    (hdecode : decodeMembers AgentDecisionPayload.fields ms ⟨"", "", "", 0⟩ = .ok p) (hcheck : p.check = .ok ())
    (hknown : ∀ m ∈ ms, goString m.1 ∈ captureAgentDecision.required)
    (hpresent : ∀ n ∈ captureAgentDecision.required, (lastOf ms n).isSome)
    (hnull : ∀ c ∈ captureAgentDecision.checks, lastOf ms c.name ≠ some (.word .null)) :
    (∀ c ∈ captureAgentDecision.checks, c.run (argsOf items) = .ok ()) ↔ ScoreFits ms := by
  refine iff_of_true ?_ (scoreFits_of_known hknown (by decide))
  have hread : ReadAs AgentDecisionPayload.fields _ ms p items :=
    ⟨fun m hm => List.mem_map.mp (hknown m hm), hdecode, hload⟩
  obtain ⟨htype, hinput, houtput, hlow, hhigh⟩ := AgentDecisionPayload.check_ok hcheck
  simp only [captureAgentDecision, List.forall_mem_cons, List.not_mem_nil, false_imp_iff, implies_true, and_true,
    Check.name] at hpresent hnull ⊢
  obtain ⟨hpt, hpi, hpo, hpc⟩ := hpresent
  obtain ⟨hnt, hni, hno, hnc⟩ := hnull
  refine ⟨hread.notEmpty AgentDecisionPayload.heldIn_decisionType (by decide) hpt hnt htype,
    hread.notEmpty AgentDecisionPayload.heldIn_inputSummary (by decide) hpi hni hinput,
    hread.notEmpty AgentDecisionPayload.heldIn_outputAction (by decide) hpo hno houtput, ?_⟩
  obtain ⟨lit, -, hround, harg⟩ := hread.number_arg AgentDecisionPayload.heldIn_confidence (by decide) hpc hnc
  have hbetween := between_iff hround harg 0 1 (by decide) (by decide) "confidence must be 0-1, got "
  rw [Int.cast_zero, Int.cast_one] at hbetween
  exact hbetween.mpr ⟨hlow, hhigh⟩

/-! ### The event -/

/-- The capture function the broker's own test of the keys would select. -/
def eventFor (ms : List (StrLit × Value)) : Option CaptureFunction :=
  if "order_id" ∈ ms.map (goString ·.1) then some captureExecutionOutcome
  else if "assessment_type" ∈ ms.map (goString ·.1) then some captureRiskAssessment
  else if "decision_type" ∈ ms.map (goString ·.1) then some captureAgentDecision
  else none

theorem captureOf_detectEventType (hload : ofMembers ms = some items) :
    captureOf (detectEventType items) = eventFor ms := by
  unfold detectEventType eventFor
  simp only [get_isSome hload (show Plain "order_id" by decide),
    get_isSome hload (show Plain "assessment_type" by decide),
    get_isSome hload (show Plain "decision_type" by decide)]
  split_ifs <;> rfl

/-- No field takes the key `metadata`. -/
theorem metadata_unknown {σ : Type} {fields : List (StructField σ)} {zero p : σ}
    (hdecode : decodeMembers fields ms zero = .ok p) (hfields : ∀ f ∈ fields, foldName f.name ≠ foldName "metadata") :
    "metadata" ∉ ms.map (goString ·.1) := by
  intro hmem
  obtain ⟨m, hm, hkey⟩ := List.mem_map.mp hmem
  obtain ⟨f, hf, -⟩ := decodeMembers_known hdecode m hm
  obtain ⟨hfield, hfold⟩ := field?_sound hf
  exact hfields f hfield (hkey ▸ hfold)

/-- An accepted memory payload has an event, and the call of its capture function is captured just when the payload is
capturable. -/
theorem accepted_cases {raw : Option Value} (h : validateMemoryPayload raw = .ok ()) :
    ∃ ms f, raw = some (.obj ms) ∧ eventFor ms = some f ∧
      ∀ items, ofMembers ms = some items →
        ∀ (storage : Storage) (memoryId : NonEmptyStr) (agentId operationId : String),
        agentId ≠ "" → operationId ≠ "" →
          (IsCaptured (f.call storage memoryId items agentId operationId).1 ↔ Capturable f ms) := by
  obtain ⟨ms, rfl, ⟨ho, hv⟩ | ⟨ho, ha, hv⟩ | ⟨ho, ha, hd, hv⟩⟩ := validateMemoryPayload_cases h
  · refine ⟨ms, captureExecutionOutcome, rfl, if_pos ho, ?_⟩
    intro items hload storage memoryId agentId operationId hagent hoperation
    unfold validateExecutionOutcome at hv
    split at hv
    · cases hv
    · rename_i p hp
      have hdecode := decodeInto_ok.mp hp
      exact isCaptured_iff regular_executionOutcome hload (metadata_unknown hdecode (by decide))
        (executionOutcome_checks hload hdecode hv) storage memoryId hagent hoperation
  · refine ⟨ms, captureRiskAssessment, rfl, by rw [eventFor, if_neg ho, if_pos ha], ?_⟩
    intro items hload storage memoryId agentId operationId hagent hoperation
    unfold validateRiskAssessment at hv
    split at hv
    · cases hv
    · rename_i p hp
      have hdecode := decodeInto_ok.mp hp
      exact isCaptured_iff regular_riskAssessment hload (metadata_unknown hdecode (by decide))
        (riskAssessment_checks hload hdecode hv) storage memoryId hagent hoperation
  · refine ⟨ms, captureAgentDecision, rfl, by rw [eventFor, if_neg ho, if_neg ha, if_pos hd], ?_⟩
    intro items hload storage memoryId agentId operationId hagent hoperation
    unfold validateAgentDecision at hv
    split at hv
    · cases hv
    · rename_i p hp
      have hdecode := decodeInto_ok.mp hp
      exact isCaptured_iff regular_agentDecision hload (metadata_unknown hdecode (by decide))
        (agentDecision_checks hload hdecode hv) storage memoryId hagent hoperation

end Capture

/-! ## Accepted messages -/

/-- The payload is loaded, its event type selects a capture function, and the call with its fields raises no validation
error. -/
def CapturedBy (storage : Storage) (memoryId : NonEmptyStr) (agentId operationId : String) (payload : Option Value) :
    Prop :=
  ∃ ms items f, payload = some (.obj ms) ∧ ofMembers ms = some items ∧ captureOf (detectEventType items) = some f ∧
    IsCaptured (f.call storage memoryId items agentId operationId).1

theorem memoryPayload_of_check {msg : EngineMessage} (h : msg.check = .ok ())
    (htype : msg.messageType = "memory.experience.v1") : validateMemoryPayload msg.payload = .ok () := by
  unfold EngineMessage.check at h
  split_ifs at h
  cases hv : validateMemoryPayload msg.payload with
  | error e =>
    rw [hv] at h
    cases h
  | ok u => rfl

theorem capturedBy_iff {raw : Option Value} (h : validateMemoryPayload raw = .ok ()) (storage : Storage)
    (memoryId : NonEmptyStr) {agentId operationId : String} (hagent : agentId ≠ "") (hoperation : operationId ≠ "") :
    CapturedBy storage memoryId agentId operationId raw ↔
      ∃ ms f, raw = some (.obj ms) ∧ eventFor ms = some f ∧ Capturable f ms := by
  obtain ⟨ms, f, rfl, hevent, hiff⟩ := accepted_cases h
  constructor
  · rintro ⟨ms', items, f', hraw, hload, hcapture, hcaptured⟩
    obtain rfl : ms = ms' := by simpa using hraw
    rw [captureOf_detectEventType hload, hevent] at hcapture
    obtain rfl := Option.some.inj hcapture
    exact ⟨ms, f, rfl, hevent, (hiff items hload storage memoryId _ _ hagent hoperation).mp hcaptured⟩
  · rintro ⟨ms', f', hraw, hevent', hcapturable⟩
    obtain rfl : ms = ms' := by simpa using hraw
    obtain rfl := Option.some.inj (hevent.symm.trans hevent')
    obtain ⟨items, hload⟩ := Option.isSome_iff_exists.mp hcapturable.loads
    refine ⟨ms, items, f, rfl, hload, (captureOf_detectEventType hload).trans hevent, ?_⟩
    exact (hiff items hload storage memoryId _ _ hagent hoperation).mpr hcapturable

/-- **The broker and the engine.** An accepted memory message is captured just when its payload is capturable. -/
theorem captured_iff {data : List UInt8} {msg : EngineMessage} (hvalid : Broker.validate data = .ok msg)
    (htype : msg.messageType = "memory.experience.v1") (storage : Storage) (memoryId : NonEmptyStr)
    {agentId operationId : String} (hagent : agentId ≠ "") (hoperation : operationId ≠ "") :
    CapturedBy storage memoryId agentId operationId msg.payload ↔
      ∃ ms f, msg.payload = some (.obj ms) ∧ eventFor ms = some f ∧ Capturable f ms := by
  obtain ⟨-, -, -, hcheck⟩ := validate_ok_iff.mp hvalid
  exact capturedBy_iff (memoryPayload_of_check hcheck htype) storage memoryId hagent hoperation

/-! ### Risk scores of 42 and 4200 -/

/-- A whole number that starts with 4. -/
def fourAnd (more : List UInt8) (h : ∀ b ∈ more, Decimal.IsDigit b) : NumLit where
  neg := false
  int := .pos ⟨52 :: more, by simp, by simpa [Decimal.IsDigit] using h⟩ (by simp)
  frac := none
  exp := none

def percent : NumLit := fourAnd [50] (by simp [Decimal.IsDigit])

def basisPoints : NumLit := fourAnd [50, 48, 48] (by simp [Decimal.IsDigit])

theorem round_percent : Binary64.round percent.value = some 42 := by
  have hvalue : percent.value = ((42 : ℤ) : ℚ) := NumLit.value_of_isInt ⟨rfl, rfl⟩
  rw [hvalue, Binary64.round_intCast (by norm_num)]
  norm_num

theorem round_basisPoints : Binary64.round basisPoints.value = some 4200 := by
  have hvalue : basisPoints.value = ((4200 : ℤ) : ℚ) := NumLit.value_of_isInt ⟨rfl, rfl⟩
  rw [hvalue, Binary64.round_intCast (by norm_num)]
  norm_num

def riskMembers (score : NumLit) : List (StrLit × Value) :=
  [(lit "assessment_type", .str (lit "position_limit")), (lit "result", .str (lit "pass")),
    (lit "circuit_breaker_state", .str (lit "normal")), (lit "risk_score", .num score)]

def riskMessage (score : NumLit) : Value :=
  .obj [(lit "contract_version", .str (lit "1.0")), (lit "message_type", .str (lit "memory.experience.v1")),
    (lit "source_engine", .str (lit "rust_engine")), (lit "timestamp", .str (lit "2026-08-30T12:00:00Z")),
    (lit "payload", .obj (riskMembers score)),
    (lit "metadata", .obj [(lit "specification_id", .str (lit "memory-experience-event-v1")),
      (lit "owner", .str (lit "Risk Engine"))])]

def riskReceived (score : NumLit) : EngineMessage :=
  ⟨"1.0", "memory.experience.v1", "rust_engine", "2026-08-30T12:00:00Z", some (.obj (riskMembers score)),
    ⟨"memory-experience-event-v1", "", "Risk Engine", ""⟩⟩

theorem accepted_riskMembers {score : NumLit} {r : ℚ} (hr : Binary64.round score.value = some r) (hlow : 0 ≤ r)
    (hhigh : r ≤ 10000) : validateMemoryPayload (some (.obj (riskMembers score))) = .ok () := by
  rw [validateMemoryPayload, probeKeys_obj]
  simp [riskMembers, validateRiskAssessment, decodeInto, decodeStruct, decodeMembers, field?,
    RiskAssessmentPayload.fields, StructField.of, GoJson.string, GoJson.float64, hr, RiskAssessmentPayload.check,
    Except.mapError, not_lt.mpr hlow, not_lt.mpr hhigh]

theorem validate_riskMessage {score : NumLit} {r : ℚ} (hr : Binary64.round score.value = some r) (hlow : 0 ≤ r)
    (hhigh : r ≤ 10000) : Broker.validate (riskMessage score).render = .ok (riskReceived score) := by
  have hdepth : (riskMessage score).depth ≤ maxNestingDepth := by
    simp [riskMessage, riskMembers, Value.depth, memberDepth, maxNestingDepth]
  have hfirst := firstValue_render _ hdepth (notStart_nil IsNumberByte)
  rw [List.append_nil] at hfirst
  refine validate_ok_iff.mpr ⟨_, hfirst, ?_, ?_⟩
  · simp [decodeStruct, decodeMembers, field?, EngineMessage.fields, StructField.of, riskMessage, GoJson.string,
      EngineMessage.zero, StructField.nested, MessageMetadata.fields, rawMessage, Except.map, riskReceived]
  · simp [EngineMessage.check, validEngines, riskReceived, accepted_riskMembers hr hlow hhigh, Except.mapError]

theorem captured_percent :
    CapturedBy (fun _ => .ok ()) ⟨"mem-1", by decide⟩ "agent-1" "op-1" (riskReceived percent).payload ↔
      ∃ ms f, (riskReceived percent).payload = some (.obj ms) ∧ eventFor ms = some f ∧ Capturable f ms :=
  captured_iff (validate_riskMessage round_percent (by norm_num) (by norm_num)) rfl _ _ (by decide) (by decide)

/-- A risk score in basis points is accepted and not captured. -/
theorem not_captured_basisPoints :
    Broker.validate (riskMessage basisPoints).render = .ok (riskReceived basisPoints) ∧
      (riskReceived basisPoints).messageType = "memory.experience.v1" ∧
      ¬ CapturedBy (fun _ => .ok ()) ⟨"mem-1", by decide⟩ "agent-1" "op-1" (riskReceived basisPoints).payload := by
  refine ⟨validate_riskMessage round_basisPoints (by norm_num) (by norm_num), rfl, ?_⟩
  have haccepted := accepted_riskMembers round_basisPoints (by norm_num) (by norm_num)
  rw [riskReceived, capturedBy_iff haccepted _ _ (by decide) (by decide)]
  rintro ⟨ms, f, hms, -, hcapturable⟩
  obtain rfl : riskMembers basisPoints = ms := by simpa using hms
  have hlast : lastOf (riskMembers basisPoints) "risk_score" = some (.num basisPoints) := by
    simp [lastOf, lastMember, riskMembers]
  obtain ⟨r, hr, hfits⟩ := hcapturable.score _ hlast
  obtain rfl : 4200 = r := Option.some.inj (round_basisPoints.symm.trans hr)
  norm_num at hfits

end Atlas.Memory
