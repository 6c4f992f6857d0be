import ScalarLang.CommandLine.Options

/-!
# Settings and the names behind them

Arguments that ask for work consist of settings of flags and of the names of files, with two dashes
between them if the first name could be taken for a flag.

The module introduces:

* `Assigns`: the ways to give a flag a value;
* `Sets`: settings one after another, from some options to others;
* `Splits`: settings and the names behind them.

Settings are read as such whatever follows them (`Request.parse_append`), and nothing else comes
before the names: `Request.parse_eq_work_iff`.
-/

namespace ScalarLang.CommandLine

/-- A flag is found by its name. -/
@[simp]
theorem Flag.ofName?_name (flag : Flag) : Flag.ofName? flag.name = some flag := by
  cases flag <;> decide

/-- A flag that is found by a name bears it. -/
theorem Flag.name_of_ofName? {name : String} {flag : Flag} (h : Flag.ofName? name = some flag) :
    flag.name = name := by
  simpa using List.find?_some h

namespace Argument

/-- What follows the dashes of a flag ends no flags. -/
theorem ofBody_ne_terminator (body : List Char) : ofBody body ≠ .terminator := by
  fun_cases ofBody <;> simp

/-- Flags are ended by two dashes and by nothing else. -/
theorem ofText_eq_terminator_iff {text : String} : ofText text = .terminator ↔ text = "--" := by
  constructor
  · intro h
    unfold ofText at h
    split at h
    next heq => exact String.toList_inj.mp heq
    next => exact absurd h (ofBody_ne_terminator _)
    next => simp at h
    next => exact absurd h (ofBody_ne_terminator _)
    next => simp at h
  · rintro rfl
    rfl

end Argument

/-- Arguments that give a flag a value: the value stands behind an equals sign, is that of a switch,
or is the next argument. -/
inductive Assigns : List String → Flag → String → Prop
  | joined {argument value : String} {flag : Flag}
      (hflag : Argument.ofText argument = .flag flag.name (some value)) :
      Assigns [argument] flag value
  | switch {argument : String} {flag : Flag}
      (hflag : Argument.ofText argument = .flag flag.name none) (hswitch : flag.isSwitch = true) :
      Assigns [argument] flag "true"
  | separate {argument value : String} {flag : Flag}
      (hflag : Argument.ofText argument = .flag flag.name none) (hswitch : flag.isSwitch = false) :
      Assigns [argument, value] flag value

/-- Arguments that give flags values, and lead from some options to others. -/
inductive Sets : Options → List String → Options → Prop
  | nil {o : Options} : Sets o [] o
  | cons {o o' o'' : Options} {arguments flags : List String} {flag : Flag} {value : String}
      (hassigns : Assigns arguments flag value) (hset : o.set flag value = .ok o')
      (hflags : Sets o' flags o'') : Sets o (arguments ++ flags) o''

/-- Arguments are settings that lead from some options to others, and names. The names follow two
dashes, unless the first of them is no flag. -/
def Splits (o : Options) (arguments : List String) (o' : Options) (names : List String) : Prop :=
  ∃ flags, Sets o flags o' ∧
    (arguments = flags ++ "--" :: names ∨
      arguments = flags ++ names ∧ ∀ name ∈ names.head?, Argument.ofText name = .operand)

/-- A setting may stand before all others. -/
theorem Splits.cons {o o' o'' : Options} {arguments rest names : List String} {flag : Flag}
    {value : String} (h : Splits o' rest o'' names) (hassigns : Assigns arguments flag value)
    (hset : o.set flag value = .ok o') : Splits o (arguments ++ rest) o'' names := by
  obtain ⟨flags, hflags, hrest⟩ := h
  refine ⟨arguments ++ flags, .cons hassigns hset hflags, ?_⟩
  rcases hrest with rfl | ⟨rfl, hnames⟩
  · exact .inl (List.append_assoc _ _ _).symm
  · exact .inr ⟨(List.append_assoc _ _ _).symm, hnames⟩

namespace Request

/-- A setting is read whatever follows it. -/
theorem parse_append_of_assigns {o o' : Options} {arguments : List String} {flag : Flag}
    {value : String} (h : Assigns arguments flag value) (hset : o.set flag value = .ok o')
    (rest : List String) : parse o (arguments ++ rest) = parse o' rest := by
  cases h with
  | joined hflag => simp [parse, hflag, hset]
  | switch hflag hswitch => simp [parse, hflag, hswitch, hset]
  | separate hflag hswitch => simp [parse, hflag, hswitch, hset]

/-- Settings are read whatever follows them. -/
theorem parse_append {o o' : Options} {flags : List String} (h : Sets o flags o')
    (rest : List String) : parse o (flags ++ rest) = parse o' rest := by
  induction h with
  | nil => rfl
  | cons hassigns hset _ ih => rw [List.append_assoc, parse_append_of_assigns hassigns hset, ih]

/-- Two dashes end the settings. -/
theorem parse_terminator (o : Options) (names : List String) :
    parse o ("--" :: names) = .work o names := rfl

/-- Names may follow the settings at once if the first of them is no flag. -/
theorem parse_operands (o : Options) {names : List String}
    (h : ∀ name ∈ names.head?, Argument.ofText name = .operand) :
    parse o names = .work o names := by
  cases names with
  | nil => rfl
  | cons name names => simp [parse, h name rfl]

/-- Arguments that ask for work are settings and names. -/
theorem parse_eq_work_iff {o o' : Options} {arguments names : List String} :
    parse o arguments = .work o' names ↔ Splits o arguments o' names := by
  constructor
  · intro h
    fun_induction parse o arguments with
    | case1 o =>
      obtain ⟨rfl, rfl⟩ : o = o' ∧ [] = names := by simpa using h
      exact ⟨[], .nil, .inr ⟨rfl, by simp⟩⟩
    | case2 o argument rest hoperand =>
      obtain ⟨rfl, rfl⟩ : o = o' ∧ argument :: rest = names := by simpa using h
      exact ⟨[], .nil, .inr ⟨rfl, by simpa using hoperand⟩⟩
    | case3 o argument rest hterminator =>
      obtain ⟨rfl, rfl⟩ : o = o' ∧ rest = names := by simpa using h
      obtain rfl := Argument.ofText_eq_terminator_iff.mp hterminator
      exact ⟨[], .nil, .inl rfl⟩
    | case7 o argument name flag hflag value rest next hset hform ih =>
      obtain rfl := Flag.name_of_ofName? hflag
      exact (ih h).cons (.joined hform) hset
    | case9 o argument name flag hflag rest hswitch next hset hform ih =>
      obtain rfl := Flag.name_of_ofName? hflag
      exact (ih h).cons (.switch hform hswitch) hset
    | case12 o argument name flag hflag hswitch value rest next hset hform ih =>
      obtain rfl := Flag.name_of_ofName? hflag
      exact (ih h).cons (.separate hform (by simpa using hswitch)) hset
    -- in the other cases there is help or a refusal
    | _ => cases h
  · rintro ⟨flags, hflags, rfl | ⟨rfl, hnames⟩⟩
    · rw [parse_append hflags, parse_terminator]
    · rw [parse_append hflags, parse_operands _ hnames]

end Request

end ScalarLang.CommandLine
