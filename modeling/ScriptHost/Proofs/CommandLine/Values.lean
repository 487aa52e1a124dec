import Mathlib
import ScriptHost.CommandLine
import ScriptHost.Proofs.Json.Numeral
import ScriptHost.Proofs.Step

/-!
# Values — what an argument can set

Each flag takes values of its own: any path, a number of frames, a length of a step, or a word for yes or no.  A value
that a flag takes writes one setting, and any other is complained of in one way.
-/

namespace ScriptHost

namespace Decimal

/-- The text is decimal digits, with or without a plus sign in front, that write the number. -/
def Whole (text : String) (n : Nat) : Prop :=
  ∃ digits : List Char, (text.toList = digits ∨ text.toList = '+' :: digits) ∧ digits ≠ [] ∧
    (∀ c ∈ digits, c.isDigit = true) ∧ n = Nat.ofDigitChars 10 digits 0

theorem natOf?_eq_some_iff {bound n : Nat} {text : String} :
    natOf? bound text = some n ↔ Whole text n ∧ n < bound := by
  have written {digits : List Char} :
      (if !digits.isEmpty && digits.all Char.isDigit && natOfDigits digits < bound then some (natOfDigits digits)
        else none) = some n ↔
      digits ≠ [] ∧ (∀ c ∈ digits, c.isDigit = true) ∧ n = Nat.ofDigitChars 10 digits 0 ∧ n < bound := by
    rw [Option.ite_none_right_eq_some]
    simp only [Bool.and_eq_true, Bool.not_eq_true', List.isEmpty_eq_false_iff, List.all_eq_true, decide_eq_true_eq,
      Option.some.injEq]
    constructor
    · rintro ⟨⟨⟨some, all⟩, small⟩, rfl⟩
      exact ⟨some, all, Json.Numeral.natOfDigits_eq all, small⟩
    · rintro ⟨some, all, rfl, small⟩
      have value := Json.Numeral.natOfDigits_eq all
      exact ⟨⟨⟨some, all⟩, value.symm ▸ small⟩, value⟩
  unfold natOf? Whole
  -- A plus sign is no digit, so a text reads in one of the two ways.
  split
  · next digits signed =>
    rw [written, signed]
    constructor
    · rintro ⟨some, all, value, small⟩
      exact ⟨⟨digits, .inr rfl, some, all, value⟩, small⟩
    · rintro ⟨⟨digits', rfl | eq, some, all, value⟩, small⟩
      · exact absurd (all '+' List.mem_cons_self) (by decide)
      · obtain rfl := (List.cons.inj eq).2
        exact ⟨some, all, value, small⟩
  · next plain =>
    rw [written]
    constructor
    · rintro ⟨some, all, value, small⟩
      exact ⟨⟨_, .inl rfl, some, all, value⟩, small⟩
    · rintro ⟨⟨digits, rfl | eq, some, all, value⟩, small⟩
      · exact ⟨some, all, value, small⟩
      · exact absurd eq (plain digits)

end Decimal

/-! ## 1. Flags and settings -/

/-- The flags that there are. -/
inductive Flag where
  | config
  | scripts
  | frames
  | step
  | debugSymbols
deriving DecidableEq

/-- A flag without its dashes. -/
def Flag.name : Flag → String
  | config => "config"
  | scripts => "scripts"
  | frames => "frames"
  | step => "dt"
  | debugSymbols => "debug-symbols"

theorem Flag.name_injective : Function.Injective name := by
  intro f g same
  cases f <;> cases g <;> first | rfl | exact absurd same (by decide +kernel)

/-- A setting that a pair of arguments gives. -/
inductive Setting where
  | config (path : String)
  | scripts (path : String)
  | frames (count : Nat)
  | step (seconds : Float32)
  | debugSymbols (on : Bool)

namespace Setting

def flag : Setting → Flag
  | config _ => .config
  | scripts _ => .scripts
  | frames _ => .frames
  | step _ => .step
  | debugSymbols _ => .debugSymbols

/-- The words for a truth value. -/
def words (on : Bool) : List String := if on then ["1", "true", "on", "yes"] else ["0", "false", "off", "no"]

end Setting

namespace Arguments

/-- What a command line takes for the length of a step. -/
def IsStep (x : Float32) : Prop := 0 < x ∧ x.isFinite = true

/-- The text in small letters. -/
def small (text : String) : String := String.ofList (text.toList.map Char.toLower)

/-- The value writes the setting. -/
def Means (value : String) : Setting → Prop
  | .config path => path = value
  | .scripts path => path = value
  | .frames count => Decimal.Whole value count ∧ count < 2 ^ 64
  | .step seconds => Decimal.singleOf? value = some seconds ∧ IsStep seconds
  | .debugSymbols on => small value ∈ Setting.words on

/-- The value is none that the flag takes, and this is the complaint. -/
inductive Refuses : Flag → String → ArgumentError → Prop
  | frames {value} : (∀ n, ¬ Means value (.frames n)) → Refuses .frames value (.frameCount value)
  | unreadable {value} : Decimal.singleOf? value = none → Refuses .step value (.timestep value)
  | outOfRange {value x} : Decimal.singleOf? value = some x → ¬ IsStep x → Refuses .step value (.timestepRange value)
  | debugSymbols {value} : (∀ on, ¬ Means value (.debugSymbols on)) →
      Refuses .debugSymbols value (.truthValue "debug-symbols" (small value))

/-- The arguments with one more setting. -/
def adopt (a : Arguments) : Setting → Arguments
  | .config path => { a with config := some path }
  | .scripts path => { a with overrides := { a.overrides with scripts := some path } }
  | .frames count => { a with overrides := { a.overrides with frames := some count } }
  | .step seconds => { a with overrides := { a.overrides with step := some seconds } }
  | .debugSymbols on => { a with overrides := { a.overrides with debugSymbols := some on } }

/-- The setting is among those given. -/
def Holds (a : Arguments) : Setting → Prop
  | .config path => a.config = some path
  | .scripts path => a.overrides.scripts = some path
  | .frames count => a.overrides.frames = some count
  | .step seconds => a.overrides.step = some seconds
  | .debugSymbols on => a.overrides.debugSymbols = some on

variable {a b : Arguments} {f : Flag} {key value : String} {pairs : List (String × String)} {x : Float32}
  {s t : Setting} {e : ArgumentError} {i j : Nat}

theorem frames_eq_ok_iff {n : Nat} : frames value = .ok n ↔ Means value (.frames n) := by
  show _ ↔ Decimal.Whole value n ∧ n < 1 <<< 64
  rw [← Decimal.natOf?_eq_some_iff, frames]
  cases Decimal.natOf? (1 <<< 64) value <;> simp

theorem timestep_eq_ok_iff : timestep value = .ok x ↔ Means value (.step x) := by
  show _ ↔ Decimal.singleOf? value = some x ∧ IsStep x
  unfold timestep IsStep
  cases Decimal.singleOf? value with
  | none => simp
  | some y =>
    dsimp only
    rw [Option.some.injEq]
    split
    · next positive =>
      rw [Except.ok.injEq]
      constructor
      · rintro rfl
        exact ⟨rfl, by simpa using positive⟩
      · exact fun h => h.1
    · next other =>
      constructor
      · intro h
        cases h
      · rintro ⟨rfl, positive⟩
        exact absurd (by simpa using positive) other

theorem truth_eq_ok_iff (flag : String) {on : Bool} : truth flag value = .ok on ↔ Means value (.debugSymbols on) := by
  have apart : ∀ word ∈ Setting.words true, word ∉ Setting.words false := by decide
  show _ ↔ small value ∈ Setting.words on
  show (if (Setting.words true).contains (small value) then Except.ok true
    else if (Setting.words false).contains (small value) then .ok false else .error _) = _ ↔ _
  by_cases yes : small value ∈ Setting.words true
  · rw [if_pos (List.contains_iff_mem.mpr yes)]
    cases on
    · simpa using apart _ yes
    · simpa using yes
  rw [if_neg fun h => yes (List.contains_iff_mem.mp h)]
  by_cases no : small value ∈ Setting.words false
  · rw [if_pos (List.contains_iff_mem.mpr no)]
    cases on
    · simpa using no
    · simpa using yes
  · rw [if_neg fun h => no (List.contains_iff_mem.mp h)]
    cases on
    · simpa using no
    · simpa using yes

/-- A value that is not taken is complained of. -/
theorem refuses_of_frames (h : frames value = .error e) : Refuses .frames value e := by
  have no (n : Nat) : ¬ Means value (.frames n) := by
    intro means
    rw [frames_eq_ok_iff.mpr means] at h
    cases h
  unfold frames at h
  split at h
  · cases h
    exact .frames no
  · cases h

theorem refuses_of_timestep (h : timestep value = .error e) : Refuses .step value e := by
  have no (x : Float32) (read : Decimal.singleOf? value = some x) : ¬ IsStep x := by
    intro positive
    rw [timestep_eq_ok_iff.mpr ⟨read, positive⟩] at h
    cases h
  unfold timestep at h
  split at h
  · next unread =>
    cases h
    exact .unreadable unread
  · next x read =>
    split at h
    · cases h
    · cases h
      exact .outOfRange read (no x read)

theorem refuses_of_truth (h : truth "debug-symbols" value = .error e) : Refuses .debugSymbols value e := by
  have no (on : Bool) : ¬ Means value (.debugSymbols on) := by
    intro means
    rw [(truth_eq_ok_iff _).mpr means] at h
    cases h
  unfold truth at h
  dsimp only at h
  split at h
  · cases h
  · split at h
    · cases h
    · cases h
      exact .debugSymbols no

/-- What becomes of a pair: its value writes a setting of its flag, or is refused, or there is no such flag. -/
theorem set_cases (a : Arguments) (key value : String) :
    (∃ s : Setting, s.flag.name = key ∧ Means value s ∧ a.set key value = .ok (a.adopt s)) ∨
      (∃ f e, Flag.name f = key ∧ Refuses f value e ∧ a.set key value = .error e) ∨
      (∀ f, Flag.name f ≠ key) ∧ a.set key value = .error (.unknownFlag ("--" ++ key)) := by
  cases taken : a.set key value with
  | ok b =>
    left
    unfold set at taken
    -- The flags in the order in which the key is compared with them; behind the last the key is none of them.
    split at taken
    · exact ⟨.config value, rfl, rfl, taken.symm⟩
    · exact ⟨.scripts value, rfl, rfl, taken.symm⟩
    · obtain ⟨n, read, taken⟩ := exists_of_bind taken
      exact ⟨.frames n, rfl, frames_eq_ok_iff.mp read, taken.symm⟩
    · obtain ⟨x, read, taken⟩ := exists_of_bind taken
      exact ⟨.step x, rfl, timestep_eq_ok_iff.mp read, taken.symm⟩
    · obtain ⟨on, read, taken⟩ := exists_of_bind taken
      exact ⟨.debugSymbols on, rfl, (truth_eq_ok_iff _).mp read, taken.symm⟩
    · cases taken
  | error e =>
    right
    unfold set at taken
    split at taken
    · cases taken
    · cases taken
    · cases read : frames value with
      | ok _ =>
        rw [read] at taken
        cases taken
      | error e =>
        rw [read] at taken
        cases taken
        exact .inl ⟨.frames, e, rfl, refuses_of_frames read, rfl⟩
    · cases read : timestep value with
      | ok _ =>
        rw [read] at taken
        cases taken
      | error e =>
        rw [read] at taken
        cases taken
        exact .inl ⟨.step, e, rfl, refuses_of_timestep read, rfl⟩
    · cases read : truth "debug-symbols" value with
      | ok _ =>
        rw [read] at taken
        cases taken
      | error e =>
        rw [read] at taken
        cases taken
        exact .inl ⟨.debugSymbols, e, rfl, refuses_of_truth read, rfl⟩
    · next config scripts frames step debugSymbols =>
      cases taken
      refine .inr ⟨fun f same => ?_, rfl⟩
      cases f with
      | config => exact config same.symm
      | scripts => exact scripts same.symm
      | frames => exact frames same.symm
      | step => exact step same.symm
      | debugSymbols => exact debugSymbols same.symm

theorem means_unique (same : s.flag = t.flag) (hs : Means value s) (ht : Means value t) : s = t := by
  cases s <;> cases t <;> cases same
  · exact congrArg _ (Eq.trans hs (Eq.symm ht))
  · exact congrArg _ (Eq.trans hs (Eq.symm ht))
  · exact congrArg _ (Except.ok.inj ((frames_eq_ok_iff.mpr hs).symm.trans (frames_eq_ok_iff.mpr ht)))
  · exact congrArg _ (Except.ok.inj ((timestep_eq_ok_iff.mpr hs).symm.trans (timestep_eq_ok_iff.mpr ht)))
  · exact congrArg _ (Except.ok.inj (((truth_eq_ok_iff "").mpr hs).symm.trans ((truth_eq_ok_iff "").mpr ht)))

theorem not_refuses_of_means (means : Means value s) : ¬ Refuses s.flag value e := by
  intro refused
  cases s with
  | config => cases refused
  | scripts => cases refused
  | frames =>
    cases refused with
    | frames no => exact no _ means
  | step =>
    cases refused with
    | unreadable unread =>
      rw [means.1] at unread
      cases unread
    | outOfRange read no =>
      rw [means.1] at read
      cases read
      exact no means.2
  | debugSymbols =>
    cases refused with
    | debugSymbols no => exact no _ means

end Arguments

end ScriptHost
