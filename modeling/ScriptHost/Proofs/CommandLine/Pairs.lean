import ScriptHost.Proofs.CommandLine.Values

/-!
# Pairs — what a command line sets

A command line is in order if its arguments are pairs of a known flag and a value that the flag takes; each setting is
then that of the last pair with its flag.  Otherwise the first argument that is out of order is the one complained of.
The settings given so are put in place of those of the file, and nothing else of it is touched.
-/

namespace ScriptHost

namespace Arguments

variable {a b : Arguments} {f : Flag} {key value flag : String} {words args : List String}
  {pairs : List (String × String)} {x : Float32} {s t : Setting} {e : ArgumentError} {i : Nat}

/-! ## 1. Arguments in order -/

theorem key?_eq_some_iff : key? flag = some key ↔ flag = "--" ++ key := by
  have dashes : ("--" ++ key).toList = '-' :: '-' :: key.toList := by
    rw [String.toList_append]
    rfl
  rw [← String.toList_inj, dashes]
  unfold key?
  split
  · next name found =>
    rw [found, Option.some.injEq, ← String.toList_inj, String.toList_ofList]
    simp
  · next other =>
    constructor
    · intro h
      cases h
    · intro spelled
      exact absurd spelled (other _)

theorem key_unique {key' : String} (same : "--" ++ key = "--" ++ key') : key = key' := by
  have named := key?_eq_some_iff.mpr same
  rw [key?_eq_some_iff.mpr rfl] at named
  exact Option.some.inj named

/-- The arguments for pairs of a flag without its dashes and a value. -/
def spell (pairs : List (String × String)) : List String := pairs.flatMap fun p => ["--" ++ p.1, p.2]

/-- The value writes a setting of the flag. -/
def Fits (p : String × String) : Prop := ∃ s : Setting, s.flag.name = p.1 ∧ Means p.2 s

/-- The settings given are those of the last pairs with their flags. -/
def Gathers (a : Arguments) (pairs : List (String × String)) : Prop :=
  ∀ s, a.Holds s ↔ ∃ value, pairs.reverse.lookup s.flag.name = some value ∧ Means value s

theorem eq_of_holds (same : ∀ s, a.Holds s ↔ b.Holds s) : a = b := by
  have config : a.config = b.config := Option.ext fun path => same (.config path)
  have scripts : a.overrides.scripts = b.overrides.scripts := Option.ext fun path => same (.scripts path)
  have frames : a.overrides.frames = b.overrides.frames := Option.ext fun count => same (.frames count)
  have step : a.overrides.step = b.overrides.step := Option.ext fun seconds => same (.step seconds)
  have debugSymbols : a.overrides.debugSymbols = b.overrides.debugSymbols :=
    Option.ext fun on => same (.debugSymbols on)
  obtain ⟨config', scripts', frames', step', debugSymbols'⟩ := b
  obtain ⟨_, _, _, _, _⟩ := a
  dsimp only at config scripts frames step debugSymbols
  rw [config, scripts, frames, step, debugSymbols]

/-- A setting takes the place of the one with its flag, and of no other. -/
theorem holds_adopt : (a.adopt s).Holds t ↔ if t.flag = s.flag then t = s else a.Holds t := by
  cases s <;> cases t <;> simp [adopt, Holds, Setting.flag, eq_comm]

theorem gathers_nil : empty.Gathers [] := by
  intro s
  cases s <;> simp [Holds, empty, Overrides.empty]

theorem Gathers.concat (h : a.Gathers pairs) (means : Means value s) :
    (a.adopt s).Gathers (pairs ++ [(s.flag.name, value)]) := by
  intro t
  rw [holds_adopt, List.reverse_concat, List.lookup_cons]
  by_cases same : t.flag = s.flag
  · rw [if_pos same, beq_iff_eq.mpr (congrArg Flag.name same)]
    constructor
    · rintro rfl
      exact ⟨value, rfl, means⟩
    · rintro ⟨value', eq, means'⟩
      obtain rfl := Option.some.inj eq
      exact means_unique same means' means
  · rw [if_neg same, beq_eq_false_iff_ne.mpr fun names => same (Flag.name_injective names)]
    exact h t

theorem addAll_pair (a : Arguments) (key value : String) (rest : List String) :
    a.addAll (("--" ++ key) :: value :: rest) = a.set key value >>= fun b => b.addAll rest := by
  have named : key? ("--" ++ key) = some key := key?_eq_some_iff.mpr rfl
  rw [addAll.eq_def]
  simp only [named]

theorem addAll_append (a : Arguments) (pairs : List (String × String)) (rest : List String) :
    a.addAll (spell pairs ++ rest) = a.addAll (spell pairs) >>= fun b => b.addAll rest := by
  induction pairs generalizing a with
  | nil => rfl
  | cons p pairs ih =>
    show a.addAll (("--" ++ p.1) :: p.2 :: (spell pairs ++ rest)) =
      a.addAll (("--" ++ p.1) :: p.2 :: spell pairs) >>= _
    rw [addAll_pair, addAll_pair]
    cases a.set p.1 p.2 with
    | error e => rfl
    | ok b => exact ih b

/-- Pairs in order are taken in, and of each flag the last one counts. -/
theorem gathers_of_fits (fits : ∀ p ∈ pairs, Fits p) : ∃ a, empty.addAll (spell pairs) = .ok a ∧ a.Gathers pairs := by
  -- From the front to the back: each pair is taken in behind those before it.
  induction pairs using List.reverseRecOn with
  | nil => exact ⟨empty, rfl, gathers_nil⟩
  | append_singleton pairs p ih =>
    rw [List.forall_mem_append] at fits
    obtain ⟨a, taken, gathers⟩ := ih fits.1
    obtain ⟨s, flag, means⟩ := fits.2 p (List.mem_singleton_self p)
    have next : a.set p.1 p.2 = .ok (a.adopt s) := by
      rcases set_cases a p.1 p.2 with ⟨t, flag', means', done⟩ | ⟨f, e, flag', refused, -⟩ | ⟨unknown, -⟩
      · have same : t.flag = s.flag := Flag.name_injective (flag'.trans flag.symm)
        rw [done, means_unique same means' means]
      · obtain rfl := Flag.name_injective (flag'.trans flag.symm)
        exact absurd refused (not_refuses_of_means means)
      · exact absurd flag (unknown s.flag)
    refine ⟨a.adopt s, ?_, ?_⟩
    · have last : spell (pairs ++ [p]) = spell pairs ++ spell [p] := List.flatMap_append
      rw [last, addAll_append, taken]
      show a.addAll (("--" ++ p.1) :: p.2 :: []) = _
      rw [addAll_pair, next]
      rfl
    · have gathered := gathers.concat means
      rwa [flag] at gathered

/-- Nothing else is taken in. -/
theorem exists_pairs (taken : a.addAll args = .ok b) : ∃ pairs, args = spell pairs ∧ ∀ p ∈ pairs, Fits p := by
  fun_induction addAll a args with
  | case1 => exact ⟨[], rfl, by simp⟩
  | case2 => cases taken
  | case3 => cases taken
  | case4 a flag key value rest named ih =>
    obtain ⟨c, set, taken⟩ := exists_of_bind taken
    obtain ⟨pairs, spelled, fits⟩ := ih c taken
    refine ⟨(key, value) :: pairs, ?_, ?_⟩
    · rw [key?_eq_some_iff.mp named, spelled]
      rfl
    · rw [List.forall_mem_cons]
      refine ⟨?_, fits⟩
      rcases set_cases a key value with ⟨s, flag, means, -⟩ | ⟨f, e, -, -, refused⟩ | ⟨-, unknown⟩
      · exact ⟨s, flag, means⟩
      · rw [refused] at set
        cases set
      · rw [unknown] at set
        cases set

theorem spell_injective : Function.Injective spell := by
  intro pairs others same
  induction pairs generalizing others with
  | nil =>
    cases others with
    | nil => rfl
    | cons => cases same
  | cons p pairs ih =>
    cases others with
    | nil => cases same
    | cons q others =>
      obtain ⟨flags, same⟩ := List.cons.inj same
      obtain ⟨values, same⟩ := List.cons.inj same
      rw [ih same, Prod.ext (key_unique flags) values]

theorem gathers_of_parse (taken : parse words = .ok a) (spelled : words.drop 1 = spell pairs) : a.Gathers pairs := by
  unfold parse at taken
  obtain ⟨others, spelled', fits⟩ := exists_pairs taken
  obtain rfl := spell_injective (spelled'.symm.trans spelled)
  obtain ⟨b, taken', gathers⟩ := gathers_of_fits fits
  rw [spelled, taken'] at taken
  cases taken
  exact gathers

/-- A step that is given is one that is accepted. -/
theorem isStep_of_parse (taken : parse words = .ok a) (given : a.overrides.step = some x) : IsStep x := by
  obtain ⟨pairs, spelled, -⟩ := exists_pairs taken
  obtain ⟨value, -, means⟩ := (gathers_of_parse taken spelled (.step x)).mp given
  exact means.2

/-! ## 2. Arguments out of order -/

/-- The argument at a place is out of order, and this is the complaint: a flag stands at an even place and its value
    behind it. -/
inductive Fault (args : List String) : Nat → ArgumentError → Prop
  | noFlag {i : Nat} {flag : String} : Even i → args[i]? = some flag → (∀ key, flag ≠ "--" ++ key) →
      Fault args i (.noFlag flag)
  | noValue {i : Nat} {key : String} : Even i → args[i]? = some ("--" ++ key) → args[i + 1]? = none →
      Fault args i (.noValue ("--" ++ key))
  | unknownFlag {i : Nat} {key : String} : Even i → args[i]? = some ("--" ++ key) → args[i + 1]? ≠ none →
      (∀ f, Flag.name f ≠ key) → Fault args i (.unknownFlag ("--" ++ key))
  | value {i : Nat} {f : Flag} {value : String} {e : ArgumentError} : Even i → args[i]? = some ("--" ++ f.name) →
      args[i + 1]? = some value → Refuses f value e → Fault args (i + 1) e

/-- The complaint is about the first argument that is out of order. -/
def FirstFault (args : List String) (e : ArgumentError) : Prop :=
  ∃ i, Fault args i e ∧ ∀ j < i, ∀ e', ¬ Fault args j e'

/-- What is out of order behind a pair stands two places further back with it in front. -/
theorem fault_behind {rest : List String} : Fault (flag :: value :: rest) (i + 2) e ↔ Fault rest i e := by
  have parity {n : Nat} : Even (n + 2) ↔ Even n := by
    rw [Nat.even_add]
    exact iff_true_right even_two
  constructor
  · intro fault
    generalize place : i + 2 = k at fault
    cases fault with
    | noFlag even there other =>
      subst place
      exact .noFlag (parity.mp even) there other
    | noValue even there missing =>
      subst place
      exact .noValue (parity.mp even) there missing
    | unknownFlag even there some' unknown =>
      subst place
      exact .unknownFlag (parity.mp even) there some' unknown
    | @value k _ _ _ even there given refused =>
      -- A value is out of order one place behind its flag, so it stands behind the flag of the pair in front.
      obtain rfl : k = i + 1 := by omega
      cases i with
      | zero => exact absurd even (by decide)
      | succ i => exact .value (parity.mp even) there given refused
  · intro fault
    cases fault with
    | noFlag even there other => exact .noFlag (parity.mpr even) there other
    | noValue even there missing => exact .noValue (parity.mpr even) there missing
    | unknownFlag even there some' unknown => exact .unknownFlag (parity.mpr even) there some' unknown
    | value even there given refused => exact .value (parity.mpr even) there given refused

/-- A known flag with something behind it is in order. -/
theorem not_fault_flag {rest : List String} : ¬ Fault (("--" ++ f.name) :: value :: rest) 0 e := by
  intro fault
  generalize place : 0 = i at fault
  cases fault with
  | noFlag _ there other =>
    subst place
    obtain rfl := Option.some.inj there
    exact other f.name rfl
  | noValue _ _ missing =>
    subst place
    cases missing
  | unknownFlag _ there _ unknown =>
    subst place
    exact unknown f (key_unique (Option.some.inj there))
  | value => cases place

/-- Nor is there anything wrong with a value that writes a setting of its flag. -/
theorem not_fault_value {rest : List String} (means : Means value s) :
    ¬ Fault (("--" ++ s.flag.name) :: value :: rest) 1 e := by
  intro fault
  generalize place : 1 = i at fault
  cases fault with
  | noFlag even =>
    subst place
    exact absurd even (by decide)
  | noValue even =>
    subst place
    exact absurd even (by decide)
  | unknownFlag even =>
    subst place
    exact absurd even (by decide)
  | value _ there given refused =>
    obtain rfl := Nat.succ.inj place
    obtain rfl := Option.some.inj given
    obtain rfl := Flag.name_injective (key_unique (Option.some.inj there))
    exact not_refuses_of_means means refused

/-- Where taking in ends with a complaint, it is the one about the first argument out of order. -/
theorem firstFault_of_addAll (refused : a.addAll args = .error e) : FirstFault args e := by
  -- On the arguments that are left: in front of them are pairs in order.
  fun_induction addAll a args with
  | case1 => cases refused
  | case2 a flag rest unnamed =>
    cases refused
    have plain (key : String) : flag ≠ "--" ++ key := by
      intro spelled
      rw [key?_eq_some_iff.mpr spelled] at unnamed
      cases unnamed
    exact ⟨0, .noFlag (by decide) rfl plain, by simp⟩
  | case3 a flag key named =>
    cases refused
    obtain rfl := key?_eq_some_iff.mp named
    exact ⟨0, .noValue (by decide) rfl rfl, by simp⟩
  | case4 a flag key value rest named ih =>
    obtain rfl := key?_eq_some_iff.mp named
    rcases set_cases a key value with ⟨s, rfl, means, done⟩ | ⟨f, e', rfl, refuses, done⟩ | ⟨unknown, done⟩
    · rw [done] at refused
      obtain ⟨i, fault, first⟩ := ih _ refused
      refine ⟨i + 2, fault_behind.mpr fault, fun j before e' => ?_⟩
      match j with
      | 0 => exact not_fault_flag
      | 1 => exact not_fault_value means
      | j + 2 =>
        intro earlier
        exact first j (by omega) e' (fault_behind.mp earlier)
    · rw [done] at refused
      cases refused
      refine ⟨1, .value (by decide) rfl rfl refuses, fun j before e' => ?_⟩
      obtain rfl : j = 0 := by omega
      exact not_fault_flag
    · rw [done] at refused
      cases refused
      exact ⟨0, .unknownFlag (by decide) rfl (by simp) unknown, by simp⟩

/-! ## 3. Other orders -/

/-- The last value of a flag depends on the pairs with this flag alone. -/
theorem lookup_reverse (pairs : List (String × String)) (key : String) :
    pairs.reverse.lookup key = ((pairs.filter (·.1 == key)).reverse.head?).map (·.2) := by
  have first (l : List (String × String)) : l.lookup key = ((l.filter (·.1 == key)).head?).map (·.2) := by
    induction l with
    | nil => rfl
    | cons p l ih =>
      rw [List.lookup_cons, List.filter_cons, BEq.comm]
      cases p.1 == key with
      | true => rfl
      | false => exact ih
  rw [first, List.filter_reverse]

/-- Pairs with different flags may change places. -/
theorem addAll_of_same_filters {others : List (String × String)}
    (same : ∀ key, others.filter (·.1 == key) = pairs.filter (·.1 == key)) (fits : ∀ p ∈ pairs, Fits p)
    (gathers : a.Gathers pairs) : empty.addAll (spell others) = .ok a := by
  have fits' (p : String × String) (hp : p ∈ others) : Fits p := by
    have kept : p ∈ others.filter (·.1 == p.1) := List.mem_filter.mpr ⟨hp, beq_self_eq_true p.1⟩
    rw [same] at kept
    exact fits p (List.mem_filter.mp kept).1
  obtain ⟨b, taken, gathers'⟩ := gathers_of_fits fits'
  have eq : b = a := by
    apply eq_of_holds
    intro s
    rw [gathers' s, gathers s, lookup_reverse, lookup_reverse, same]
  rw [taken, eq]

end Arguments

/-! ## 4. Settings of a file -/

namespace Config

variable {a : Arguments} {c : Config} {f : Flag} {s : Setting}

/-- The setting of a file that a flag stands for; the flag for the file itself stands for none. -/
def shown (c : Config) : Flag → Option Setting
  | .config => none
  | .scripts => some (.scripts c.scripts.root)
  | .frames => some (.frames c.harness.frames)
  | .step => some (.step c.harness.step)
  | .debugSymbols => some (.debugSymbols c.scripts.debugSymbols)

/-- But for what the flags stand for, the settings are the same. -/
structure SameBesides (c d : Config) : Prop where
  scripts : d.scripts = { c.scripts with root := d.scripts.root, debugSymbols := d.scripts.debugSymbols }
  reload : d.reload = c.reload
  limits : d.limits = c.limits
  harness : d.harness = { c.harness with step := d.harness.step, frames := d.harness.frames }

/-- A setting that is given takes the place of the one in the file. -/
theorem shown_override_of_holds (inFile : s.flag ≠ .config) (given : a.Holds s) :
    (c.override a.overrides).shown s.flag = some s := by
  unfold override
  cases s with
  | config => exact absurd rfl inFile
  | scripts path => simp only [shown, Setting.flag, show a.overrides.scripts = some path from given, Option.getD_some]
  | frames count => simp only [shown, Setting.flag, show a.overrides.frames = some count from given, Option.getD_some]
  | step seconds => simp only [shown, Setting.flag, show a.overrides.step = some seconds from given, Option.getD_some]
  | debugSymbols on =>
    simp only [shown, Setting.flag, show a.overrides.debugSymbols = some on from given, Option.getD_some]

/-- One that is not given stays. -/
theorem shown_override_of_not_holds (missing : ∀ s : Setting, s.flag = f → ¬ a.Holds s) :
    (c.override a.overrides).shown f = c.shown f := by
  unfold override
  cases f with
  | config => rfl
  | scripts =>
    have none : a.overrides.scripts = none :=
      Option.eq_none_iff_forall_ne_some.mpr fun path => missing (.scripts path) rfl
    simp only [shown, none, Option.getD_none]
  | frames =>
    have none : a.overrides.frames = none :=
      Option.eq_none_iff_forall_ne_some.mpr fun count => missing (.frames count) rfl
    simp only [shown, none, Option.getD_none]
  | step =>
    have none : a.overrides.step = none :=
      Option.eq_none_iff_forall_ne_some.mpr fun seconds => missing (.step seconds) rfl
    simp only [shown, none, Option.getD_none]
  | debugSymbols =>
    have none : a.overrides.debugSymbols = none :=
      Option.eq_none_iff_forall_ne_some.mpr fun on => missing (.debugSymbols on) rfl
    simp only [shown, none, Option.getD_none]

theorem sameBesides_override (c : Config) (o : Overrides) : c.SameBesides (c.override o) := ⟨rfl, rfl, rfl, rfl⟩

theorem override_override (c : Config) (o : Overrides) : (c.override o).override o = c.override o := by
  obtain ⟨scripts, frames, step, debugSymbols⟩ := o
  cases scripts <;> cases frames <;> cases step <;> cases debugSymbols <;> rfl

end Config

/-- **The last flag wins, and nothing else changes.**  A command line is taken just when it is pairs of a known flag and
    a value that writes a setting of it; otherwise the complaint is about the first argument that is out of order.  The
    settings given are then those of the last pairs with their flags, in whatever order pairs with different flags stand.
    In place of those of a file they leave everything else as it is, and putting them there again changes nothing. -/
theorem Arguments.last_flag_wins (words : List String) :
    ((∃ a, parse words = .ok a) ↔ ∃ pairs, words.drop 1 = spell pairs ∧ ∀ p ∈ pairs, Fits p) ∧
    (∀ e, parse words = .error e → FirstFault (words.drop 1) e) ∧
    ∀ a pairs, parse words = .ok a → words.drop 1 = spell pairs →
      (∀ s, a.Holds s ↔ ∃ value, pairs.reverse.lookup s.flag.name = some value ∧ Means value s) ∧
      (∀ program others, (∀ key, others.filter (·.1 == key) = pairs.filter (·.1 == key)) →
        parse (program :: spell others) = .ok a) ∧
      ∀ c : Config,
        let d := c.override a.overrides
        c.SameBesides d ∧ (∀ s : Setting, s.flag ≠ .config → a.Holds s → d.shown s.flag = some s) ∧
          (∀ f, Flag.name f ∉ pairs.map (·.1) → d.shown f = c.shown f) ∧ d.override a.overrides = d := by
  refine ⟨⟨?_, ?_⟩, fun e refused => firstFault_of_addAll refused, fun a pairs taken spelled => ?_⟩
  · rintro ⟨a, taken⟩
    exact exists_pairs taken
  · rintro ⟨pairs, spelled, fits⟩
    obtain ⟨a, taken, -⟩ := gathers_of_fits fits
    exact ⟨a, by rw [parse, spelled, taken]⟩
  · have gathers := gathers_of_parse taken spelled
    have fits : ∀ p ∈ pairs, Fits p := by
      obtain ⟨others, spelled', fits⟩ := exists_pairs taken
      rwa [spell_injective (spelled.symm.trans spelled')]
    refine ⟨gathers, fun program others same => addAll_of_same_filters same fits gathers, fun c => ?_⟩
    refine ⟨Config.sameBesides_override c _, fun s => Config.shown_override_of_holds, fun f missing => ?_,
      Config.override_override c _⟩
    apply Config.shown_override_of_not_holds
    rintro s rfl given
    obtain ⟨value, last, -⟩ := (gathers s).mp given
    obtain ⟨behind, front, split, -⟩ := List.lookup_eq_some_iff.mp last
    have there : (s.flag.name, value) ∈ pairs := List.mem_reverse.mp (split ▸ by simp)
    exact missing (List.mem_map_of_mem there)

/-- What is given by `--frames 1 --debug-symbols ON --frames 9`. -/
def nineFrames : Arguments := ⟨none, { Overrides.empty with frames := some 9, debugSymbols := some true }⟩

/-- The second number of frames counts, wherever the other flag stands; a number that is none is complained of before
    what is behind it. -/
theorem Arguments.last_flag_wins_nineFrames :
    parse ["run", "--frames", "1", "--debug-symbols", "ON", "--frames", "9"] = .ok nineFrames ∧
      parse ["check", "--debug-symbols", "ON", "--frames", "1", "--frames", "9"] = .ok nineFrames ∧
      (Config.standard.override nineFrames.overrides).shown .frames = some (.frames 9) ∧
      parse ["run", "--frames", "x", "--bogus"] = .error (.frameCount "x") ∧
      FirstFault ["--frames", "x", "--bogus"] (.frameCount "x") := by
  have taken : parse ["run", "--frames", "1", "--debug-symbols", "ON", "--frames", "9"] = .ok nineFrames := by cbv
  have refused : parse ["run", "--frames", "x", "--bogus"] = .error (.frameCount "x") := by cbv
  have wins := (last_flag_wins ["run", "--frames", "1", "--debug-symbols", "ON", "--frames", "9"]).2.2 nineFrames
    [("frames", "1"), ("debug-symbols", "ON"), ("frames", "9")] taken rfl
  have same (key : String) :
      [("debug-symbols", "ON"), ("frames", "1"), ("frames", "9")].filter (·.1 == key) =
        [("frames", "1"), ("debug-symbols", "ON"), ("frames", "9")].filter (·.1 == key) := by
    simp only [List.filter_cons, List.filter_nil]
    by_cases debug : "debug-symbols" = key
    · subst debug
      decide +kernel
    · simp [debug]
  exact ⟨taken, wins.2.1 "check" _ same, (wins.2.2 Config.standard).2.1 (.frames 9) (by decide) rfl, refused,
    (last_flag_wins ["run", "--frames", "x", "--bogus"]).2.1 _ refused⟩

end ScriptHost
