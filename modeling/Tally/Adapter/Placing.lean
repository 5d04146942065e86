import Tally.Adapter.Placement

/-!
# Rendering places the options

The fragments are the declared ones, and the prefix is the template with the fragments at the insertion
point, for a launch and for a resume.
-/

namespace Tally.Adapter

open Tally.Lib

variable {adapter : String}

/-! ## Fragments -/

section

variable {requested : Option String} {rendered : List String}

theorem renderPolicy_ok {field : String} {policies : Table String (List String)}
    (h : renderPolicy adapter field requested policies = .ok rendered) :
    rendered = policyFragment policies requested := by
  cases requested with
  | none =>
    cases h
    rfl
  | some policy =>
    rw [policyFragment, orError_eq_ok.mp h]
    rfl

theorem renderNamedTemplate_ok {template : List String} {name value : String}
    (h : renderNamedTemplate adapter template name value = .ok rendered) :
    rendered = template.map (renderNamed name value) := by
  refine mapM_eq_map (fun argument out hout => ?_) h
  simp only [ensure_bind_ok_iff] at hout
  cases hout.2
  rfl

theorem renderValueOverride_ok {field : String} {config : Option AdapterValueOverride}
    (h : renderValueOverride adapter field requested config = .ok rendered) :
    rendered = valueFragment config requested := by
  simp only [renderValueOverride, unit_bind_ok_iff] at h
  obtain ⟨hvalid, h⟩ := h
  cases requested with
  | none =>
    cases h
    rfl
  | some value =>
    cases config with
    | none =>
      rw [validateRequestedValue, orError_bind_ok_iff] at hvalid
      obtain ⟨config, hconfig, -⟩ := hvalid
      cases hconfig
    | some config => exact renderNamedTemplate_ok h

theorem renderCwd_ok {cwdArgv : Option (List String)} {cwd : Option PathBuf}
    (h : renderCwd adapter cwdArgv cwd = .ok rendered) : rendered = cwdFragment cwdArgv (cwdString cwd) := by
  cases cwdArgv with
  | none =>
    cases h
    rfl
  | some template =>
    cases cwd with
    | none =>
      cases h
      rfl
    | some cwd =>
      obtain ⟨text, htext, hrest⟩ := bind_ok_iff.mp h
      have htext : cwdString (some cwd) = some text := orError_eq_ok.mp htext
      rw [htext]
      exact renderNamedTemplate_ok hrest

end

/-! ## The prefix -/

section

variable {base inserted front : List String} {index : Option Nat}

theorem placeOptions_ok (h : placeOptions adapter base inserted index = .ok front) :
    front = base.take (insertionPoint base index) ++ inserted ++ base.drop (insertionPoint base index) ∧
      (inserted ≠ [] → index = none → base ≠ []) := by
  rw [placeOptions.eq_def] at h
  split at h
  · next hinserted =>
    cases h
    refine ⟨?_, fun hne => absurd hinserted hne⟩
    rw [hinserted, List.append_nil, List.take_append_drop]
  · cases index with
    | some index =>
      cases h
      exact ⟨rfl, fun _ hnone => by cases hnone⟩
    | none =>
      rw [insertionPoint]
      cases hlast : base.getLast? with
      | none =>
        rw [hlast] at h
        cases h
      | some last =>
        have hne : base ≠ [] := by
          rintro rfl
          cases hlast
        obtain ⟨before, rfl⟩ : ∃ before, base = before ++ [last] :=
          ⟨base.dropLast, (List.dropLast_append_getLast? last hlast).symm⟩
        simp only [hlast] at h
        refine ⟨?_, fun _ _ => hne⟩
        split at h
        · next hdash =>
          cases h
          have hlength : (before ++ [last]).length - 1 = before.length := by
            rw [List.length_append, List.length_singleton, Nat.add_sub_cancel]
          rw [if_pos (congrArg some hdash), hlength, List.take_left, List.drop_left,
            List.dropLast_concat]
        · next hdash =>
          cases h
          rw [if_neg fun heq => hdash (Option.some.inj heq), List.take_length, List.drop_length,
            List.append_nil]

theorem insertionPoint_none_lt (hne : base ≠ []) (hlast : base.getLast? = some "--") :
    insertionPoint base none < base.length := by
  rw [insertionPoint, if_pos hlast]
  exact Nat.sub_lt (List.length_pos_of_ne_nil hne) Nat.zero_lt_one

theorem insertionPoint_none_pos (hne : base ≠ []) : 0 < insertionPoint base none ↔ base ≠ ["--"] := by
  have hpos := List.length_pos_of_ne_nil hne
  rw [insertionPoint]
  split
  · next hlast =>
    constructor
    · rintro h rfl
      exact absurd h (Nat.lt_irrefl 0)
    · intro h
      rcases Nat.lt_or_ge 1 base.length with hlt | hle
      · exact Nat.sub_pos_of_lt hlt
      · obtain ⟨only, rfl⟩ := List.length_eq_one_iff.mp (Nat.le_antisymm hle hpos)
        exact absurd (congrArg (fun last => [last]) (Option.some.inj hlast)) h
  · next hlast =>
    refine ⟨?_, fun _ => hpos⟩
    rintro - rfl
    exact hlast rfl

/-- The options are placed unless they come first. -/
theorem placesOnce_iff {workload argv : List String} {point : Nat}
    (hargv : argv = base.take point ++ inserted ++ base.drop point ++ workload)
    (hne : inserted ≠ [] → base ≠ [])
    (hlast : inserted ≠ [] → base.getLast? = some "--" → point < base.length) :
    PlacesOnce base inserted point workload argv ↔ inserted = [] ∨ 0 < point := by
  constructor
  · intro h
    by_cases hinserted : inserted = []
    · exact .inl hinserted
    · refine .inr (Nat.pos_of_ne_zero fun hzero => h.first hinserted ?_)
      rw [hzero]
      rfl
  · intro h
    refine ⟨hargv, fun hinserted htake => ?_, hlast⟩
    have hpoint : 0 < point := h.resolve_left hinserted
    rcases List.take_eq_nil_iff.mp htake with hzero | hbase
    · omega
    · exact hne hinserted hbase

end

/-- What `render_launch_prefix` inserts. -/
theorem renderLaunchPrefix_ok {config : AdapterConfig} {base front : List String}
    {options : AdapterJobOptions} {cwd : Option PathBuf} {index : Option Nat}
    (h : renderLaunchPrefix adapter config base options cwd index = .ok front) :
    placeOptions adapter base (fragments config options (cwdString cwd) fun _ => false) index =
      .ok front := by
  simp only [renderLaunchPrefix, ensure_bind_ok_iff] at h
  obtain ⟨-, -, h⟩ := h
  obtain ⟨approval, happroval, h⟩ := bind_ok_iff.mp h
  obtain ⟨sandbox, hsandbox, h⟩ := bind_ok_iff.mp h
  obtain ⟨directory, hdirectory, h⟩ := bind_ok_iff.mp h
  obtain ⟨model, hmodel, h⟩ := bind_ok_iff.mp h
  obtain ⟨effort, heffort, h⟩ := bind_ok_iff.mp h
  rw [renderPolicy_ok happroval, renderPolicy_ok hsandbox, renderCwd_ok hdirectory,
    renderValueOverride_ok hmodel, renderValueOverride_ok heffort] at h
  exact h

theorem composeArgv_ok {config : AdapterConfig} {front workload argv : List String}
    (h : composeArgv adapter config front workload = .ok argv) : argv = front ++ workload := by
  rw [composeArgv] at h
  split at h
  · cases h
    rfl
  · split at h
    · cases h
    · cases h
      rfl

theorem invocation_argv {config : AdapterConfig} {options : AdapterJobOptions} {argv : List String}
    {mode : UsageAccountingMode} {result : AdapterInvocation}
    (h : invocation adapter config options argv mode = .ok result) : result.argv = argv := by
  simp only [invocation, unit_bind_ok_iff] at h
  obtain ⟨-, -, -, h⟩ := h
  cases h
  rfl

/-! ## Launch -/

variable {adapters : Table String AdapterConfig} {config : AdapterConfig} {options : AdapterJobOptions}
  {cwd : Option PathBuf} {workload : List String} {result : AdapterInvocation}

theorem launch_places_iff (hconfig : adapters.get? adapter = some config)
    (h : launchWithOptions adapter adapters workload options cwd = .ok result) :
    LaunchPlaces config options cwd workload result.argv ↔ LaunchCondition config options cwd := by
  simp only [launchWithOptions, hconfig, orError_bind_ok_iff, Option.some.injEq, exists_eq_left'] at h
  obtain ⟨front, hfront, h⟩ := bind_ok_iff.mp h
  obtain ⟨argv, hargv, h⟩ := bind_ok_iff.mp h
  obtain ⟨hplaced, hbase⟩ := placeOptions_ok (renderLaunchPrefix_ok hfront)
  have hargv : result.argv = front ++ workload := (invocation_argv h).trans (composeArgv_ok hargv)
  rw [hplaced] at hargv
  rw [LaunchPlaces, LaunchCondition, placesOnce_iff hargv (fun hne => hbase hne rfl)
    fun hne hlast => insertionPoint_none_lt (hbase hne rfl) hlast]
  by_cases hinserted : (fragments config options (cwdString cwd) fun _ => false) = []
  · exact iff_of_true (.inl hinserted) (.inl hinserted)
  · rw [or_iff_right hinserted, or_iff_right hinserted, insertionPoint_none_pos (hbase hinserted rfl)]

/-! ## Places of a template -/

section

variable {name : String} {template : List String}

theorem hasPlaceholder_iff : hasPlaceholder name template = true ↔
    ∃ argument ∈ template, .hole name.toList ∈ (segments argument).getD [] := by
  rw [hasPlaceholder, placeCount, decide_eq_true_iff, List.count_pos_iff, List.mem_flatMap]

theorem mentions_of_hasPlaceholder (h : hasPlaceholder name template = true) :
    mentions name template = true := by
  obtain ⟨argument, hargument, hmem⟩ := hasPlaceholder_iff.mp h
  rw [mentions, List.any_eq_true]
  refine ⟨argument, hargument, ?_⟩
  cases hsegments : segments argument with
  | none =>
    rw [hsegments] at hmem
    cases hmem
  | some found =>
    rw [hsegments] at hmem
    have hmark : (marker name).toList = ['%', '<'] ++ (name.toList ++ ['>', '%']) := by
      rw [marker, String.toList_append, String.toList_append, List.append_assoc]
      rfl
    rw [contains, decide_eq_true_iff, hmark]
    exact hole_mem_infix hsegments hmem

/-- What `render_argument` returns is the argument with the captures in its places. -/
theorem renderArgumentFuel_ok {captures : Table String Value} {fuel : Nat} {text out : List Char}
    (h : renderArgumentFuel adapter captures fuel text = .ok out) :
    ∃ found, segmentsFuel ['%', '<'] ['>', '%'] allowedName fuel text = some found ∧
      out = expand (fun name => (captureText captures (String.ofList name)).toList) found ∧
      ∀ name, Segment.hole name ∈ found → (captures.get? (String.ofList name)).isSome := by
  induction fuel generalizing text out with
  | zero =>
    cases h
    exact ⟨_, rfl, (List.append_nil _).symm, fun name hmem => nomatch List.mem_singleton.mp hmem⟩
  | succ fuel ih =>
    rw [renderArgumentFuel] at h
    rw [segmentsFuel]
    split at h
    · next hopen =>
      cases h
      rw [hopen]
      exact ⟨_, rfl, (List.append_nil _).symm, fun name hmem => nomatch List.mem_singleton.mp hmem⟩
    · next before rest hopen =>
      rw [hopen]
      simp only
      split at h
      · cases h
      · next capture after hclose =>
        rw [hclose]
        simp only
        split at h
        · next hallowed =>
          rw [if_pos hallowed]
          obtain ⟨value, hvalue, h⟩ := bind_ok_iff.mp h
          obtain ⟨tail, htail, h⟩ := bind_ok_iff.mp h
          cases h
          have hvalue := orError_eq_ok.mp hvalue
          obtain ⟨found, hfound, rfl, hholes⟩ := ih htail
          refine ⟨.plain before :: .hole capture :: found, by rw [hfound]; rfl, ?_, ?_⟩
          · have htext : captureText captures (String.ofList capture) = valueText value := by
              rw [captureText, hvalue]
              rfl
            rw [← htext]
            rfl
          · intro name hmem
            rcases List.mem_cons.mp hmem with hfirst | hmem
            · cases hfirst
            rcases List.mem_cons.mp hmem with hfirst | hmem
            · cases hfirst
              rw [hvalue]
              rfl
            · exact hholes name hmem
        · cases h

theorem renderArgument_ok {captures : Table String Value} {argument out : String}
    (h : renderArgument adapter captures argument = .ok out) :
    out = fillArgument (captureText captures) argument ∧
      ∀ name, .hole name ∈ (segments argument).getD [] → (captures.get? (String.ofList name)).isSome := by
  obtain ⟨text, htext, hout⟩ := map_eq_ok.mp h
  obtain ⟨found, hfound, hexpand, hholes⟩ := renderArgumentFuel_ok htext
  have hsegments : segments argument = some found := hfound
  rw [fillArgument, hsegments]
  exact ⟨hout ▸ congrArg String.ofList hexpand, hholes⟩

end

/-! ## What a valid adapter has -/

theorem validateOverride_argv_ne_nil {field : String} {option : AdapterValueOverride}
    (h : validateOverride adapter field (some option) = .ok ()) : option.argv ≠ [] := by
  have hargv := (unit_bind_ok_iff.mp h).1
  rw [validateArgv, ensure_bind_ok_iff] at hargv
  exact hargv.1.resolve_left Bool.false_ne_true

theorem validateCwdArgv_ne_nil {cwdArgv : List String}
    (h : validateCwdArgv adapter (some cwdArgv) = .ok ()) : cwdArgv ≠ [] := by
  have hargv := (unit_bind_ok_iff.mp h).1
  rw [validateArgv, ensure_bind_ok_iff] at hargv
  exact hargv.1.resolve_left Bool.false_ne_true

/-- The fragments that an adapter declares for values are not empty. -/
structure DeclaredNonempty (config : AdapterConfig) : Prop where
  cwd : ∀ argv, config.launch.cwdArgv = some argv → argv ≠ []
  model : ∀ option, config.launch.model = some option → option.argv ≠ []
  effort : ∀ option, config.launch.effort = some option → option.argv ≠ []

section

variable [PatternHost]

theorem validateAdapter_of_get? (hvalid : validateAll adapters = .ok ())
    (hconfig : adapters.get? adapter = some config) : validateAdapter adapter config = .ok () := by
  have hboth := forM_eq_ok.mp hvalid _ ((adapters.mem_entries_iff).mpr hconfig)
  exact (unit_bind_ok_iff.mp hboth).2

theorem declaredNonempty_of_valid (hvalid : validateAll adapters = .ok ())
    (hconfig : adapters.get? adapter = some config) : DeclaredNonempty config := by
  have h := validateAdapter_of_get? hvalid hconfig
  simp only [validateAdapter, validateLaunchConfig, unit_bind_ok_iff] at h
  obtain ⟨-, -, -, -, -, -, ⟨hcwd, -, -, -, hmodel, heffort⟩, -⟩ := h
  refine ⟨fun argv hargv => ?_, fun option hoption => ?_, fun option hoption => ?_⟩
  · rw [hargv] at hcwd
    exact validateCwdArgv_ne_nil hcwd
  · rw [hoption] at hmodel
    exact validateOverride_argv_ne_nil hmodel
  · rw [hoption] at heffort
    exact validateOverride_argv_ne_nil heffort

end

theorem resumeOptionsInsertionIndex_ok {template : List String} {index : Option Nat}
    (hresume : config.resume = some template)
    (h : resumeOptionsInsertionIndex adapter config = .ok index) :
    index = declaredIndex config template ∧ ∀ i, index = some i → i < template.length := by
  rw [resumeOptionsInsertionIndex.eq_def] at h
  rw [declaredIndex]
  split at h
  · next hnone =>
    cases h
    rw [hnone]
    exact ⟨rfl, fun i hi => by cases hi⟩
  · next capture hcapture =>
    simp only [ensure_bind_ok_iff, hresume, orError_bind_ok_iff, Option.some.injEq,
      exists_eq_left'] at h
    rw [hcapture, Option.bind_some]
    obtain ⟨-, h⟩ := h
    split at h
    · cases h
    · next place hplaces =>
      cases h
      refine ⟨by rw [hplaces]; rfl, fun i hi => ?_⟩
      cases hi
      have hmem : place ∈ placesOf (marker capture) template := hplaces ▸ List.mem_singleton_self place
      obtain ⟨⟨argument, found⟩, hfound, hif⟩ := List.mem_filterMap.mp hmem
      simp only [Option.ite_none_right_eq_some, Option.some.injEq] at hif
      rw [← hif.2]
      have := List.mem_zipIdx hfound
      omega
    · cases h

/-! ## What a resume inserts -/

section

variable {template : List String}

theorem fragments_insertedOptions :
    fragments config (insertedOptions options template)
        (cwdString (if mentions "cwd" template then none else cwd)) (fun _ => false) =
      fragments config options (cwdString cwd) (mentions · template) := by
  have hcwd : cwdString (if mentions "cwd" template then none else cwd) =
      if mentions "cwd" template then none else cwdString cwd := by
    split <;> rfl
  rw [fragments, fragments, hcwd]
  rfl

section

variable {fragment : Option String → List String} {value : Option String} {mentioned placed : Bool}

theorem placed_congr (hplaced : placed = true → mentioned = true)
    (h : value ≠ none → mentioned = true → placed = true) :
    (if mentioned then none else value) = if placed then none else value := by
  cases value with
  | none => rw [ite_self, ite_self]
  | some text =>
    have hiff : mentioned = placed := Bool.eq_iff_iff.mpr ⟨h (Option.some_ne_none text), hplaced⟩
    rw [hiff]

theorem length_placed_le (hnone : fragment none = []) (hplaced : placed = true → mentioned = true) :
    (fragment (if mentioned then none else value)).length ≤
      (fragment (if placed then none else value)).length := by
  by_cases hmentioned : mentioned = true
  · rw [if_pos hmentioned, hnone]
    exact Nat.zero_le _
  · rw [if_neg hmentioned, if_neg (mt hplaced hmentioned)]

/-- What reads like a placeholder and is none leaves a fragment out. -/
theorem placed_of_length_eq (hnone : fragment none = []) (hne : value ≠ none → fragment value ≠ [])
    (h : (fragment (if mentioned then none else value)).length =
      (fragment (if placed then none else value)).length) :
    value ≠ none → mentioned = true → placed = true := by
  intro hvalue hmentioned
  by_contra hplaced
  rw [if_pos hmentioned, if_neg hplaced, hnone] at h
  exact hne hvalue (List.length_eq_zero_iff.mp h.symm)

end

theorem valueFragment_ne_nil {override : Option AdapterValueOverride} {value : Option String}
    (hargv : ∀ option, override = some option → option.argv ≠ [])
    (hsome : value ≠ none → override ≠ none) (hvalue : value ≠ none) : valueFragment override value ≠ [] := by
  obtain ⟨text, rfl⟩ := Option.ne_none_iff_exists'.mp hvalue
  obtain ⟨option, rfl⟩ := Option.ne_none_iff_exists'.mp (hsome hvalue)
  exact mt List.map_eq_nil_iff.mp (hargv option rfl)

theorem valueFragment_none (override : Option AdapterValueOverride) : valueFragment override none = [] :=
  rfl

theorem cwdFragment_none (cwdArgv : Option (List String)) : cwdFragment cwdArgv none = [] := by
  cases cwdArgv <;> rfl

theorem cwdFragment_ne_nil {cwdArgv : List String} {cwd : Option String} (hargv : cwdArgv ≠ [])
    (hcwd : cwd ≠ none) : cwdFragment (some cwdArgv) cwd ≠ [] := by
  obtain ⟨text, rfl⟩ := Option.ne_none_iff_exists'.mp hcwd
  exact mt List.map_eq_nil_iff.mp hargv

theorem PlacesReal.fragments_eq (h : PlacesReal config options cwd template) :
    fragments config options (cwdString cwd) (mentions · template) =
      resumeFragments config options cwd template := by
  have hcwd : cwdFragment config.launch.cwdArgv
        (if mentions "cwd" template then none else cwdString cwd) =
      cwdFragment config.launch.cwdArgv
        (if hasPlaceholder "cwd" template then none else cwdString cwd) := by
    cases hargv : config.launch.cwdArgv with
    | none => rfl
    | some argv =>
      rw [placed_congr mentions_of_hasPlaceholder fun hvalue =>
        h.cwd hvalue (hargv ▸ Option.some_ne_none argv)]
  rw [resumeFragments, fragments, fragments, hcwd, placed_congr mentions_of_hasPlaceholder h.model,
    placed_congr mentions_of_hasPlaceholder h.effort]

/-- As many fragments as there should be is all of them. -/
theorem PlacesReal.of_length_eq (hdeclared : DeclaredNonempty config)
    (hmodel : options.model ≠ none → config.launch.model ≠ none)
    (heffort : options.effort ≠ none → config.launch.effort ≠ none)
    (h : (fragments config options (cwdString cwd) (mentions · template)).length =
      (resumeFragments config options cwd template).length) : PlacesReal config options cwd template := by
  have hcwdLe : (cwdFragment config.launch.cwdArgv
        (if mentions "cwd" template then none else cwdString cwd)).length ≤
      (cwdFragment config.launch.cwdArgv
        (if hasPlaceholder "cwd" template then none else cwdString cwd)).length :=
    length_placed_le (cwdFragment_none _) mentions_of_hasPlaceholder
  have hmodelLe : (valueFragment config.launch.model
        (if mentions "model" template then none else options.model)).length ≤
      (valueFragment config.launch.model
        (if hasPlaceholder "model" template then none else options.model)).length :=
    length_placed_le (valueFragment_none _) mentions_of_hasPlaceholder
  have heffortLe : (valueFragment config.launch.effort
        (if mentions "effort" template then none else options.effort)).length ≤
      (valueFragment config.launch.effort
        (if hasPlaceholder "effort" template then none else options.effort)).length :=
    length_placed_le (valueFragment_none _) mentions_of_hasPlaceholder
  simp only [resumeFragments, fragments, List.length_append] at h
  constructor
  · exact placed_of_length_eq (valueFragment_none _) (valueFragment_ne_nil hdeclared.model hmodel)
      (by omega)
  · exact placed_of_length_eq (valueFragment_none _) (valueFragment_ne_nil hdeclared.effort heffort)
      (by omega)
  · intro hcwd hargv
    obtain ⟨argv, hargv⟩ := Option.ne_none_iff_exists'.mp hargv
    rw [hargv] at h hcwdLe
    exact placed_of_length_eq (cwdFragment_none _)
      (cwdFragment_ne_nil (hdeclared.cwd argv hargv)) (by omega) hcwd

end

/-! ## The captures of a resume -/

section

variable {captures resumed : Table String Value} {template : List String} {name : String}

theorem get?_modelCaptures (hname : name ≠ "model") :
    (modelCaptures captures options).get? name = captures.get? name := by
  rw [modelCaptures]
  split
  · rfl
  · exact captures.get?_insert_ne _ hname

theorem captureText_modelCaptures :
    captureText (modelCaptures captures options) "model" =
      options.model.getD (captureText captures "model") := by
  rw [modelCaptures]
  split
  · next hmodel =>
    rw [hmodel]
    rfl
  · next model hmodel =>
    rw [hmodel, captureText, Table.get?_insert_self]
    rfl

theorem get?_cwdCaptures (h : cwdCaptures adapter captures template cwd = .ok resumed)
    (hname : name ≠ "cwd") : resumed.get? name = captures.get? name := by
  rw [cwdCaptures.eq_def] at h
  split at h
  · cases h
    rfl
  · split at h
    · obtain ⟨text, -, h⟩ := bind_ok_iff.mp h
      cases h
      exact captures.get?_insert_ne _ hname
    · cases h
      rfl

theorem captureText_cwdCaptures (h : cwdCaptures adapter captures template cwd = .ok resumed)
    (hmentions : mentions "cwd" template = true) :
    captureText resumed "cwd" = (cwdString cwd).getD (captureText captures "cwd") := by
  cases cwd with
  | none =>
    cases h
    rfl
  | some path =>
    rw [cwdCaptures, if_pos hmentions] at h
    obtain ⟨text, htext, h⟩ := bind_ok_iff.mp h
    cases h
    have htext : cwdString (some path) = some text := orError_eq_ok.mp htext
    rw [htext, captureText, Table.get?_insert_self]
    rfl

/-- Every place but that of the effort is filled with what is asked for. -/
theorem captureText_resumed
    (h : cwdCaptures adapter (modelCaptures captures options) template cwd = .ok resumed)
    (hmentions : mentions name template = true) (hname : name ≠ "effort") :
    captureText resumed name = placeText captures options (cwdString cwd) name := by
  rw [placeText, requested]
  by_cases hmodel : name = "model"
  · rw [if_pos hmodel, hmodel, ← captureText_modelCaptures, captureText, captureText,
      get?_cwdCaptures h (by decide)]
  · rw [if_neg hmodel, if_neg hname]
    by_cases hcwd : name = "cwd"
    · subst hcwd
      rw [if_pos rfl, captureText_cwdCaptures h hmentions, captureText, captureText,
        get?_modelCaptures hmodel]
    · rw [if_neg hcwd, captureText, get?_cwdCaptures h hcwd, get?_modelCaptures hmodel]
      rfl

theorem get?_effort_resumed
    (h : cwdCaptures adapter (modelCaptures captures options) template cwd = .ok resumed) :
    resumed.get? "effort" = captures.get? "effort" :=
  (get?_cwdCaptures h (by decide)).trans (get?_modelCaptures (by decide))

end

/-! ## Resume -/

section

variable {captures : Table String Value} {template : List String}
  {predecessor : Option UsagePredecessor}

/-- What a resume is made of. -/
structure ResumeRendered (config : AdapterConfig) (options : AdapterJobOptions) (cwd : Option PathBuf)
    (captures resumed : Table String Value) (template workload argv : List String) : Prop where
  captures_ok : ∃ adapter, cwdCaptures adapter (modelCaptures captures options) template cwd = .ok resumed
  argv_eq : argv =
    (template.map (fillArgument (captureText resumed))).take
        (insertionPoint (template.map (fillArgument (captureText resumed))) (declaredIndex config template)) ++
      fragments config options (cwdString cwd) (mentions · template) ++
      (template.map (fillArgument (captureText resumed))).drop
        (insertionPoint (template.map (fillArgument (captureText resumed))) (declaredIndex config template)) ++
      workload
  base_ne_nil : fragments config options (cwdString cwd) (mentions · template) ≠ [] →
    declaredIndex config template = none → template ≠ []
  index_lt : ∀ i, declaredIndex config template = some i → i < template.length
  model : options.model ≠ none → config.launch.model ≠ none
  effort : options.effort ≠ none → config.launch.effort ≠ none
  filled : ∀ name, hasPlaceholder name template = true → (resumed.get? name).isSome

theorem validateRequestedValue_ok {field : String} {value : Option String}
    {override : Option AdapterValueOverride}
    (h : validateRequestedValue adapter field value override = .ok ()) (hvalue : value ≠ none) :
    override ≠ none := by
  obtain ⟨text, rfl⟩ := Option.ne_none_iff_exists'.mp hvalue
  obtain ⟨option, hoption, -⟩ := orError_bind_ok_iff.mp h
  rw [hoption]
  exact Option.some_ne_none option

theorem resume_rendered (hconfig : adapters.get? adapter = some config)
    (hresume : config.resume = some template)
    (h : resumeWithOptionsFrom adapter adapters workload captures options cwd predecessor = .ok result) :
    ∃ resumed, ResumeRendered config options cwd captures resumed template workload result.argv := by
  simp only [resumeWithOptionsFrom, hconfig, hresume, orError_bind_ok_iff, Option.some.injEq,
    exists_eq_left', unit_bind_ok_iff] at h
  obtain ⟨hmodel, heffort, h⟩ := h
  obtain ⟨resumed, hresumed, h⟩ := bind_ok_iff.mp h
  obtain ⟨rendered, hrendered, h⟩ := bind_ok_iff.mp h
  obtain ⟨index, hindex, h⟩ := bind_ok_iff.mp h
  obtain ⟨front, hfront, h⟩ := bind_ok_iff.mp h
  obtain ⟨argv, hargv, hinvocation⟩ := bind_ok_iff.mp h
  have heq := mapM_eq_map (fun argument out hout => (renderArgument_ok hout).1) hrendered
  obtain ⟨rfl, hlt⟩ := resumeOptionsInsertionIndex_ok hresume hindex
  obtain ⟨hplaced, hbase⟩ := placeOptions_ok (renderLaunchPrefix_ok hfront)
  rw [fragments_insertedOptions, heq] at hplaced
  rw [fragments_insertedOptions, heq] at hbase
  refine ⟨resumed, ⟨adapter, hresumed⟩, ?_, fun hne hnone => mt List.map_eq_nil_iff.mpr (hbase hne hnone),
    hlt, validateRequestedValue_ok hmodel, validateRequestedValue_ok heffort, ?_⟩
  · rw [← hplaced, ← composeArgv_ok hargv, invocation_argv hinvocation]
  · intro name hname
    obtain ⟨argument, hargument, hmem⟩ := hasPlaceholder_iff.mp hname
    obtain ⟨out, hout⟩ := mapM_step_ok hrendered hargument
    have := (renderArgument_ok hout).2 _ hmem
    rwa [String.ofList_toList] at this

theorem fillArgument_congr {text others : String → String} {argument : String}
    (h : ∀ name, .hole name ∈ (segments argument).getD [] →
      text (String.ofList name) = others (String.ofList name)) :
    fillArgument text argument = fillArgument others argument :=
  congrArg String.ofList (expand_congr fun name hmem => congrArg String.toList (h name hmem))

/-- A filled argument tells what stands in one of its places, if all others are filled alike. -/
theorem eq_of_fillArgument_eq {text others : String → String} {argument name : String}
    (h : fillArgument text argument = fillArgument others argument)
    (hmem : .hole name.toList ∈ (segments argument).getD [])
    (hothers : ∀ other, .hole other ∈ (segments argument).getD [] → other ≠ name.toList →
      text (String.ofList other) = others (String.ofList other)) : text name = others name := by
  -- Away from the places of the argument the texts may differ.
  have hsame : fillArgument others argument =
      fillArgument (Function.update text name (others name)) argument := by
    refine fillArgument_congr fun other hother => ?_
    by_cases heq : String.ofList other = name
    · rw [heq, Function.update_self]
    · rw [Function.update_of_ne heq]
      exact (hothers other hother fun hne => heq (by rw [hne, String.ofList_toList])).symm
  rw [hsame] at h
  have hexpand := eq_of_expand_eq (fun other hother => ?_) (String.ofList_injective h) hmem
  · rw [String.ofList_toList, Function.update_self] at hexpand
    exact String.toList_injective hexpand
  · rw [Function.update_of_ne fun heq => hother (by rw [← heq, String.toList_ofList])]

theorem eq_of_append_singleton_eq_cons {α : Type} {items : List α} {last first : α}
    (h : items ++ [last] = first :: items) : last = first := by
  induction items with
  | nil => exact List.singleton_injective h
  | cons item items ih =>
    obtain ⟨rfl, hrest⟩ := List.cons.inj h
    exact ih hrest

/-- Two templates that differ before a final `--` do not become the same. -/
theorem not_getLast_of_append_eq {base other inserted : List String} (hlength : base.length = other.length)
    (hne : base ≠ []) (hother : other.getLast? ≠ some "--") :
    base.dropLast ++ inserted ++ ["--"] ≠ other ++ inserted := by
  intro h
  have hotherNe : other ≠ [] := by
    rintro rfl
    exact hne (List.length_eq_zero_iff.mp hlength)
  have hsplit := List.dropLast_append_getLast hotherNe
  rw [← hsplit, List.append_assoc, List.append_assoc] at h
  obtain ⟨-, htail⟩ := List.append_inj h (by rw [List.length_dropLast, List.length_dropLast, hlength])
  have hfirst := eq_of_append_singleton_eq_cons htail
  exact hother (by rw [List.getLast?_eq_getLast_of_ne_nil hotherNe, ← hfirst])

theorem drop_pred_length {base : List String} {last : String} (hlast : base.getLast? = some last) :
    base.drop (base.length - 1) = [last] := by
  obtain ⟨before, rfl⟩ : ∃ before, base = before ++ [last] :=
    ⟨base.dropLast, (List.dropLast_append_getLast? last hlast).symm⟩
  rw [List.length_append, List.length_singleton, Nat.add_sub_cancel, List.drop_left]

/-- The options stand at one point only. -/
theorem base_eq_of_placed {base other inserted : List String} {index : Option Nat}
    (hlength : base.length = other.length)
    (h : base.take (insertionPoint base index) ++ inserted ++ base.drop (insertionPoint base index) =
      other.take (insertionPoint other index) ++ inserted ++ other.drop (insertionPoint other index)) :
    base = other := by
  have hsame : insertionPoint base index = insertionPoint other index → base = other := by
    intro hpoint
    rw [hpoint] at h
    have htake : (base.take (insertionPoint other index)).length =
        (other.take (insertionPoint other index)).length := by
      rw [List.length_take, List.length_take, hlength]
    rw [List.append_assoc, List.append_assoc] at h
    obtain ⟨hfront, hrest⟩ := List.append_inj h htake
    have hback := List.append_cancel_left hrest
    rw [← List.take_append_drop (insertionPoint other index) base, hfront, hback,
      List.take_append_drop]
  cases index with
  | some index => exact hsame rfl
  | none =>
    rcases eq_or_ne base [] with rfl | hne
    · exact (List.length_eq_zero_iff.mp hlength.symm).symm
    have hotherNe : other ≠ [] := by
      rintro rfl
      exact hne (List.length_eq_zero_iff.mp hlength)
    by_cases hbase : base.getLast? = some "--" <;> by_cases hother : other.getLast? = some "--"
    · exact hsame (by rw [insertionPoint, insertionPoint, if_pos hbase, if_pos hother, hlength])
    · rw [insertionPoint, insertionPoint, if_pos hbase, if_neg hother, List.take_length,
        List.drop_length, List.append_nil, ← List.dropLast_eq_take, drop_pred_length hbase] at h
      exact absurd h (not_getLast_of_append_eq hlength hne hother)
    · rw [insertionPoint, insertionPoint, if_neg hbase, if_pos hother, List.take_length,
        List.drop_length, List.append_nil, ← List.dropLast_eq_take, drop_pred_length hother] at h
      exact absurd h.symm (not_getLast_of_append_eq hlength.symm hotherNe hbase)
    · exact hsame (by rw [insertionPoint, insertionPoint, if_neg hbase, if_neg hother, hlength])

section

variable {resumed : Table String Value} {argv : List String}

/-- The template as it is filled is the one that is to be, if the captured effort is what is asked for. -/
theorem ResumeRendered.base_eq
    (h : ResumeRendered config options cwd captures resumed template workload argv)
    (hcaptured : ∀ effort, options.effort = some effort → hasPlaceholder "effort" template = true →
      (captures.get? "effort").map valueText = some effort) :
    template.map (fillArgument (captureText resumed)) = resumeBase options cwd template captures := by
  obtain ⟨adapter, hcaptures⟩ := h.captures_ok
  refine List.map_congr_left fun argument hargument => fillArgument_congr fun name hname => ?_
  have hplaceholder : hasPlaceholder (String.ofList name) template = true :=
    hasPlaceholder_iff.mpr ⟨argument, hargument, by rwa [String.toList_ofList]⟩
  by_cases heffort : String.ofList name = "effort"
  · rw [heffort] at hplaceholder ⊢
    rw [placeText, captureText, get?_effort_resumed hcaptures]
    change ((captures.get? "effort").map valueText).getD "" =
      options.effort.getD (captureText captures "effort")
    cases hrequested : options.effort with
    | none => rfl
    | some effort => rw [hcaptured effort hrequested hplaceholder, Option.getD_some, Option.getD_some]
  · exact captureText_resumed hcaptures (mentions_of_hasPlaceholder hplaceholder) heffort

/-- An effort that is asked for and is in the filled template was captured. -/
theorem ResumeRendered.captured
    (h : ResumeRendered config options cwd captures resumed template workload argv)
    (hbase : template.map (fillArgument (captureText resumed)) =
      resumeBase options cwd template captures) {effort : String} (hrequested : options.effort = some effort)
    (hplaceholder : hasPlaceholder "effort" template = true) :
    (captures.get? "effort").map valueText = some effort := by
  obtain ⟨adapter, hcaptures⟩ := h.captures_ok
  obtain ⟨argument, hargument, hmem⟩ := hasPlaceholder_iff.mp hplaceholder
  have hfilled := List.map_inj_left.mp hbase argument hargument
  have htext : captureText resumed "effort" = placeText captures options (cwdString cwd) "effort" := by
    refine eq_of_fillArgument_eq hfilled hmem fun other hother hne => ?_
    refine captureText_resumed hcaptures (mentions_of_hasPlaceholder ?_) fun heq => hne ?_
    · exact hasPlaceholder_iff.mpr ⟨argument, hargument, by rwa [String.toList_ofList]⟩
    · rw [← heq, String.toList_ofList]
  have hsome := h.filled "effort" hplaceholder
  rw [get?_effort_resumed hcaptures] at hsome
  obtain ⟨value, hvalue⟩ := Option.isSome_iff_exists.mp hsome
  rw [captureText, get?_effort_resumed hcaptures, hvalue, placeText] at htext
  change valueText value = options.effort.getD _ at htext
  rw [hvalue, Option.map_some, htext, hrequested, Option.getD_some]

theorem length_resumeBase : (resumeBase options cwd template captures).length =
    (template.map (fillArgument (captureText resumed))).length := by
  rw [resumeBase, List.length_map, List.length_map]

/-- With the places filled as they are to be, only a block that comes first is misplaced. -/
theorem ResumeRendered.placesOnce_iff
    (h : ResumeRendered config options cwd captures resumed template workload argv)
    (hbase : template.map (fillArgument (captureText resumed)) = resumeBase options cwd template captures)
    (hreal : PlacesReal config options cwd template) :
    PlacesOnce (resumeBase options cwd template captures) (resumeFragments config options cwd template)
        (resumePoint config options cwd template captures) workload argv ↔
      resumeFragments config options cwd template = [] ∨
        0 < resumePoint config options cwd template captures := by
  have hargv := h.argv_eq
  have hne := h.base_ne_nil
  rw [hbase, hreal.fragments_eq] at hargv
  rw [hreal.fragments_eq] at hne
  have hlength : (resumeBase options cwd template captures).length = template.length := List.length_map _
  have htemplate : resumeFragments config options cwd template ≠ [] → template ≠ [] := by
    intro hinserted
    cases hindex : declaredIndex config template with
    | none => exact hne hinserted hindex
    | some index => exact List.ne_nil_of_length_pos (Nat.lt_of_le_of_lt (Nat.zero_le _) (h.index_lt index hindex))
  have hbaseNe : resumeFragments config options cwd template ≠ [] →
      resumeBase options cwd template captures ≠ [] :=
    fun hinserted => mt List.map_eq_nil_iff.mp (htemplate hinserted)
  refine Adapter.placesOnce_iff hargv hbaseNe fun hinserted hlast => ?_
  rw [resumePoint]
  cases hindex : declaredIndex config template with
  | none => exact insertionPoint_none_lt (hbaseNe hinserted) hlast
  | some index => exact hlength ▸ h.index_lt index hindex

theorem ResumeRendered.places_iff (hdeclared : DeclaredNonempty config)
    (h : ResumeRendered config options cwd captures resumed template workload argv) :
    ResumePlaces config options cwd workload argv template captures ↔
      ResumeCondition config options cwd template captures := by
  constructor
  · intro hplaces
    have hargv := hplaces.placed.argv_eq
    rw [h.argv_eq] at hargv
    have hargv := List.append_cancel_right hargv
    have hlength := congrArg List.length hargv
    simp only [List.length_append, List.length_take, List.length_drop, @length_resumeBase _ _ _ _ resumed] at hlength
    have hreal : PlacesReal config options cwd template :=
      PlacesReal.of_length_eq hdeclared h.model h.effort (by omega)
    rw [hreal.fragments_eq] at hargv
    have hbase : template.map (fillArgument (captureText resumed)) =
        resumeBase options cwd template captures := base_eq_of_placed length_resumeBase.symm hargv
    exact ⟨hplaces.single, (h.placesOnce_iff hbase hreal).mp hplaces.placed, hreal,
      fun effort hrequested hplaceholder => h.captured hbase hrequested hplaceholder⟩
  · intro hcondition
    have hbase := h.base_eq hcondition.captured
    exact ⟨hcondition.single, (h.placesOnce_iff hbase hcondition.real).mpr hcondition.first⟩

end

end

/-! ## Every option once -/

/-- What `launch_with_options` and `resume_with_options_from` return has the template, the options and the
workload as they are to be if and only if the condition is met. -/
theorem adapters_place_once_iff [PatternHost] (hvalid : validateAll adapters = .ok ())
    (hconfig : adapters.get? adapter = some config) :
    (∀ (options : AdapterJobOptions) (cwd : Option PathBuf) (workload : List String)
        (launched : AdapterInvocation),
      launchWithOptions adapter adapters workload options cwd = .ok launched →
        (LaunchPlaces config options cwd workload launched.argv ↔ LaunchCondition config options cwd)) ∧
      ∀ (template : List String) (captures : Table String Value) (options : AdapterJobOptions)
        (cwd : Option PathBuf) (predecessor : Option UsagePredecessor) (workload : List String)
        (resumed : AdapterInvocation),
        config.resume = some template →
          resumeWithOptionsFrom adapter adapters workload captures options cwd predecessor = .ok resumed →
            (ResumePlaces config options cwd workload resumed.argv template captures ↔
              ResumeCondition config options cwd template captures) := by
  refine ⟨fun options cwd workload launched h => launch_places_iff hconfig h, ?_⟩
  intro template captures options cwd predecessor workload resumed hresume h
  obtain ⟨filled, hrendered⟩ := resume_rendered hconfig hresume h
  exact hrendered.places_iff (declaredNonempty_of_valid hvalid hconfig)

namespace Sample

/-- An agent whose sessions are resumed with the effort in a place of its own. -/
def agent : AdapterConfig where
  argv := ["agent", "--"]
  resume := some ["agent", "--effort=%<effort>%", "--resume", "%<session>%", "--"]
  scrape := (∅ : Table String ScrapeCapture).insert "effort" ⟨.jsonPath, "$.effort", none, ∅⟩
    |>.insert "session" ⟨.jsonPath, "$.session", none, ∅⟩
  usageCounterScope := .attempt
  yieldHook := none
  env := ∅
  launch := {
    allowPrePromptArgv := false
    rejectOptionLikeWorkloadHead := false
    resumeOptionsBeforeCapture := none
    cwdArgv := none
    approvalPolicies := ∅
    sandboxPolicies := ∅
    commitCapableSandboxPolicies := []
    model := some ⟨["--model", "%<value>%"], ["large"]⟩
    effort := some ⟨["--effort=%<value>%"], ["low", "high"]⟩ }
  hardening := .none
  extraWritablePaths := []
  skillBundle := none
  skillRevision := none
  extraConfig := ∅

def agents : Table String AdapterConfig := (∅ : Table String AdapterConfig).insert "agent" agent

def highEffort : AdapterJobOptions := ⟨[], ∅, none, none, some "large", some "high"⟩

/-- What the first attempt reported. -/
def lowSession : Table String Value :=
  (∅ : Table String Value).insert "effort" (.string "low") |>.insert "session" (.string "s1")

/-- Patterns that are written like the samples' are patterns. -/
local instance : PatternHost where
  compileRegex _ := .ok ()
  parseJsonPath path := ensure (path.toList.head? = some '$') "not a path"

/-- A resume that asks for another effort gets the captured one. -/
theorem resume_drops_effort :
    validateAll agents = .ok () ∧
      ((resumeWithOptionsFrom "agent" agents ["work"] lowSession highEffort none none).map
        AdapterInvocation.argv) =
        .ok ["agent", "--effort=low", "--resume", "s1", "--model", "large", "--", "work"] ∧
      ¬ ResumePlaces agent highEffort none ["work"]
        ["agent", "--effort=low", "--resume", "s1", "--model", "large", "--", "work"]
        (agent.resume.getD []) lowSession := by
  refine ⟨by decide +kernel, by decide +kernel, fun h => ?_⟩
  have hargv := h.placed.argv_eq
  revert hargv
  decide +kernel

def highSession : Table String Value := lowSession.insert "effort" (.string "high")

/-- A launch, and a resume of a session that had the effort that is asked for. -/
theorem adapters_place_once_iff_agent :
    (∃ launched, launchWithOptions "agent" agents ["work"] highEffort none = .ok launched ∧
      LaunchPlaces agent highEffort none ["work"] launched.argv ∧
      launched.argv = ["agent", "--model", "large", "--effort=high", "--", "work"]) ∧
    ∃ resumed, resumeWithOptionsFrom "agent" agents ["work"] highSession highEffort none none = .ok resumed ∧
      ResumePlaces agent highEffort none ["work"] resumed.argv (agent.resume.getD []) highSession ∧
      resumed.argv = ["agent", "--effort=high", "--resume", "s1", "--model", "large", "--", "work"] := by
  have hboth := @adapters_place_once_iff "agent" agents agent _ (by decide +kernel) rfl
  have hlaunch : (launchWithOptions "agent" agents ["work"] highEffort none).map AdapterInvocation.argv =
      .ok ["agent", "--model", "large", "--effort=high", "--", "work"] := by decide +kernel
  have hresume : (resumeWithOptionsFrom "agent" agents ["work"] highSession highEffort none none).map
      AdapterInvocation.argv =
      .ok ["agent", "--effort=high", "--resume", "s1", "--model", "large", "--", "work"] := by
    decide +kernel
  obtain ⟨launched, hlaunched, hargv⟩ := map_eq_ok.mp hlaunch
  obtain ⟨resumed, hresumed, hresumedArgv⟩ := map_eq_ok.mp hresume
  refine ⟨⟨launched, hlaunched, ?_, hargv⟩, resumed, hresumed, ?_, hresumedArgv⟩
  · exact (hboth.1 _ _ _ _ hlaunched).mpr (.inr (by decide))
  · refine (hboth.2 _ _ _ _ _ _ _ rfl hresumed).mpr ⟨fun name hname => ?_, .inr ?_, ?_, ?_⟩
    · rw [requested] at hname
      split at hname
      · next hmodel => exact hmodel ▸ by decide +kernel
      · split at hname
        · next heffort => exact heffort ▸ by decide +kernel
        · split at hname <;> exact absurd rfl hname
    · decide +kernel
    · exact ⟨fun _ h => absurd h (by decide +kernel), fun _ _ => by decide +kernel,
        fun h => absurd rfl h⟩
    · rintro effort heffort -
      cases heffort
      decide +kernel

end Sample

end Tally.Adapter
