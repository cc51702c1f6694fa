import Kfx.CommandLine

/-!
# The command line as groups of arguments

An option stands together with its value, whatever that looks like; what is left is an input. A line
is read exactly when it is made of groups with at most one input among them, and then each option
has the value of its last group. So only the order among groups of one kind matters.
-/
namespace Kfx

/-- A count as it is written: digits, after a plus if one likes, of at most sixty-four bits. -/
def IsCount (text : String) (n : Nat) : Prop :=
  ∃ digits : List Char, (text.toList = digits ∨ text.toList = '+' :: digits) ∧ digits ≠ [] ∧
    (∀ d ∈ digits, d.isDigit = true) ∧ n = Nat.ofDigitChars 10 digits 0 ∧ n < UInt64.size

theorem le_ofDigitChars (digits : List Char) (n : Nat) : n ≤ Nat.ofDigitChars 10 digits n := by
  induction digits generalizing n with
  | nil => exact Nat.le_refl n
  | cons d digits ih =>
    have hstep := ih (10 * n + (d.toNat - '0'.toNat))
    rw [Nat.ofDigitChars_cons]
    omega

/-- Giving up at the first number that is too large is giving up on those that end too large. -/
theorem countDigits_eq_ok {digits : List Char} {n m : Nat} (hn : n < UInt64.size) :
    countDigits n digits = .ok m ↔ (∀ d ∈ digits, d.isDigit = true) ∧
      m = Nat.ofDigitChars 10 digits n ∧ m < UInt64.size := by
  induction digits generalizing n with
  | nil =>
    rw [countDigits, Nat.ofDigitChars_nil]
    constructor
    · rintro ⟨⟩
      exact ⟨nofun, rfl, hn⟩
    · rintro ⟨_, rfl, _⟩
      rfl
  | cons d digits ih =>
    rw [countDigits, Nat.ofDigitChars_cons]
    by_cases hdigit : d.isDigit = true
    · rw [if_pos hdigit]
      have hle := le_ofDigitChars digits (10 * n + (d.toNat - '0'.toNat))
      by_cases hsmall : 10 * n + (d.toNat - '0'.toNat) < UInt64.size
      · dsimp only
        rw [if_pos hsmall, ih hsmall, List.forall_mem_cons]
        simp [hdigit]
      · dsimp only
        rw [if_neg hsmall]
        constructor
        · intro h
          cases h
        · rintro ⟨_, rfl, hlt⟩
          omega
    · rw [if_neg hdigit]
      constructor
      · intro h
        cases h
      · rintro ⟨hall, _⟩
        exact absurd (hall d List.mem_cons_self) hdigit

/-- An argument is taken as a count just where it is written as one. -/
theorem parseCount_eq_ok {text : String} {n : Nat} : parseCount text = .ok n ↔ IsCount text n := by
  have hzero : 0 < UInt64.size := by decide
  unfold parseCount IsCount
  split
  · next htext => simp [htext]
  · next htext =>
    simp only [htext, reduceCtorEq, false_iff, not_exists, not_and]
    rintro digits (rfl | hplus) hne hdigits
    · exact absurd (hdigits '+' (by simp)) (by decide)
    · exact absurd (List.cons.inj hplus).2.symm hne
  · next cs hcs htext =>
    rw [htext, countDigits_eq_ok hzero]
    constructor
    · rintro ⟨hdigits, hvalue⟩
      exact ⟨cs, Or.inr rfl, hcs, hdigits, hvalue⟩
    · rintro ⟨digits, rfl | hplus, _, hdigits, hvalue⟩
      · exact absurd (hdigits '+' (by simp)) (by decide)
      · cases hplus
        exact ⟨hdigits, hvalue⟩
  · next hempty _ hplus =>
    rw [countDigits_eq_ok hzero]
    constructor
    · rintro ⟨hdigits, hvalue⟩
      exact ⟨_, Or.inl rfl, hempty, hdigits, hvalue⟩
    · rintro ⟨digits, hsame | hplus', _, hdigits, hvalue⟩
      · rw [hsame]
        exact ⟨hdigits, hvalue⟩
      · exact absurd hplus' (hplus digits)

namespace Options

/-- What stands together on the line: an option, with its value if it takes one, or an input. -/
inductive Group
  | check
  | emitSpirv
  | outputDir (name value : String) (known : name = "--output-dir" ∨ name = "--outputdir")
  | config (value : String)
  | jobs (name value : String) (count : Nat) (known : name = "--jobs" ∨ name = "-j")
      (counts : IsCount value count)
  | input (path : String) (plain : path.toList.head? ≠ some '-')

/-- What a group is about. An option has one kind under all its names. -/
inductive GroupKind
  | check | emitSpirv | outputDir | config | jobs | input
  deriving DecidableEq

namespace Group

def kind : Group → GroupKind
  | check => .check
  | emitSpirv => .emitSpirv
  | outputDir .. => .outputDir
  | config _ => .config
  | jobs .. => .jobs
  | input .. => .input

/-- The group as it stands on the line. -/
def arguments : Group → List String
  | check => ["--check"]
  | emitSpirv => ["--emit-spirv"]
  | outputDir name value _ => [name, value]
  | config value => ["--config", value]
  | jobs name value _ _ _ => [name, value]
  | input path _ => [path]

def path? : Group → Option String
  | outputDir _ value _ => some value
  | config value => some value
  | input path _ => some path
  | _ => none

def count? : Group → Option Nat
  | jobs _ _ count _ _ => some count
  | _ => none

theorem ne_of_plain {path name : String} (plain : path.toList.head? ≠ some '-')
    (hname : name.toList.head? = some '-') : path ≠ name := by
  rintro rfl
  exact plain hname

def kindOf (first : String) : GroupKind :=
  if first = "--check" then .check
  else if first = "--emit-spirv" then .emitSpirv
  else if first = "--output-dir" ∨ first = "--outputdir" then .outputDir
  else if first = "--config" then .config
  else if first = "--jobs" ∨ first = "-j" then .jobs
  else .input

theorem arguments_eq_cons (g : Group) :
    ∃ first others, g.arguments = first :: others ∧ kindOf first = g.kind := by
  cases g with
  | check | emitSpirv | config => exact ⟨_, _, rfl, rfl⟩
  | outputDir _ _ known | jobs _ _ _ known =>
    rcases known with rfl | rfl <;> exact ⟨_, _, rfl, rfl⟩
  | input path plain =>
    have hname {name : String} (h : name.toList.head? = some '-') : path ≠ name :=
      ne_of_plain plain h
    refine ⟨path, [], rfl, ?_⟩
    rw [kindOf, if_neg (hname rfl), if_neg (hname rfl),
      if_neg (not_or.mpr ⟨hname rfl, hname rfl⟩), if_neg (hname rfl),
      if_neg (not_or.mpr ⟨hname rfl, hname rfl⟩), kind]

/-- The first group of a line can be told from what follows it. -/
theorem eq_of_arguments_append {g g' : Group} {rest rest' : List String}
    (h : g.arguments ++ rest = g'.arguments ++ rest') : g = g' ∧ rest = rest' := by
  have hkind : g.kind = g'.kind := by
    obtain ⟨first, others, hg, hfirst⟩ := g.arguments_eq_cons
    obtain ⟨first', others', hg', hfirst'⟩ := g'.arguments_eq_cons
    rw [hg, hg'] at h
    rw [← hfirst, ← hfirst', (List.cons.inj h).1]
  cases g with
  | check =>
    cases g' with
    | check => simpa [arguments] using h
    | _ => cases hkind
  | emitSpirv =>
    cases g' with
    | emitSpirv => simpa [arguments] using h
    | _ => cases hkind
  | outputDir name value known =>
    cases g' with
    | outputDir name' value' known' => simpa [arguments, and_assoc] using h
    | _ => cases hkind
  | config value =>
    cases g' with
    | config value' => simpa [arguments] using h
    | _ => cases hkind
  | jobs name value count known counts =>
    cases g' with
    | jobs name' value' count' known' counts' =>
      obtain ⟨rfl, rfl, hrest⟩ : name = name' ∧ value = value' ∧ rest = rest' := by
        simpa [arguments] using h
      have hcount := (parseCount_eq_ok.mpr counts).symm.trans (parseCount_eq_ok.mpr counts')
      cases hcount
      exact ⟨rfl, hrest⟩
    | _ => cases hkind
  | input path plain =>
    cases g' with
    | input path' plain' => simpa [arguments] using h
    | _ => cases hkind

end Group

/-- The paths that the groups of one kind give, in order. -/
def paths (k : GroupKind) (gs : List Group) : List String :=
  (gs.filter (·.kind = k)).filterMap Group.path?

/-- What groups ask for: the last value of each kind, and the switches that are there. -/
def ofGroups (gs : List Group) : Options where
  input := (paths .input gs).getLast?
  outputDir := (paths .outputDir gs).getLast?
  config := (paths .config gs).getLast?
  jobs := ((gs.filter (·.kind = .jobs)).filterMap Group.count?).getLast?
  check := !(gs.filter (·.kind = .check)).isEmpty
  emitSpirv := !(gs.filter (·.kind = .emitSpirv)).isEmpty

def put (o : Options) : Group → Options
  | .check => { o with check := true }
  | .emitSpirv => { o with emitSpirv := true }
  | .outputDir _ value _ => { o with outputDir := some value }
  | .config value => { o with config := some value }
  | .jobs _ _ count _ _ => { o with jobs := some count }
  | .input path _ => { o with input := some path }

/-- The same options, one group after another. -/
theorem ofGroups_eq_foldl (gs : List Group) : ofGroups gs = gs.foldl put {} := by
  rw [← List.reverse_reverse gs]
  induction gs.reverse with
  | nil => rfl
  | cons g gs ih =>
    rw [List.reverse_cons, List.foldl_append, ← ih]
    cases g <;> simp [ofGroups, put, paths, Group.kind, Group.path?, Group.count?]

/-- Only the order among groups of one kind matters. -/
theorem ofGroups_congr {gs gs' : List Group}
    (h : ∀ k, gs.filter (·.kind = k) = gs'.filter (·.kind = k)) : ofGroups gs = ofGroups gs' := by
  simp only [ofGroups, paths, h]

theorem parseFrom_plain {path : String} (plain : path.toList.head? ≠ some '-') (o : Options)
    (rest : List String) : parseFrom o (path :: rest) =
      if o.input.isSome then .error (.secondInput path)
      else parseFrom { o with input := some path } rest := by
  rw [parseFrom, if_neg plain]
  all_goals exact Group.ne_of_plain plain rfl

/-- A group that is no input is added to the options. -/
theorem parseFrom_option {g : Group} (hg : g.kind ≠ .input) (o : Options) (rest : List String) :
    parseFrom o (g.arguments ++ rest) = parseFrom (o.put g) rest := by
  cases g with
  | check | emitSpirv | config => rfl
  | outputDir name value known => rcases known with rfl | rfl <;> rfl
  | jobs name value count known counts =>
    have hcount := parseCount_eq_ok.mpr counts
    rcases known with rfl | rfl <;> simp [Group.arguments, parseFrom, hcount, put]
  | input path plain => exact absurd rfl hg

/-- Groups are read one after another, up to a second input. -/
theorem parseFrom_groups (o : Options) (gs : List Group) :
    parseFrom o (gs.flatMap Group.arguments) =
      match (o.input.toList ++ paths .input gs)[1]? with
      | some second => .error (.secondInput second)
      | none => .ok (gs.foldl put o) := by
  induction gs generalizing o with
  | nil =>
    cases hinput : o.input <;> simp [paths, parseFrom]
  | cons g gs ih =>
    rw [List.flatMap_cons, List.foldl_cons]
    by_cases hg : g.kind = .input
    · cases g with
      | input path plain =>
        have hpaths : paths .input (.input path plain :: gs) = path :: paths .input gs := rfl
        rw [Group.arguments, List.singleton_append, parseFrom_plain plain, hpaths]
        cases hinput : o.input with
        | some first => rfl
        | none => exact ih _
      | _ => cases hg
    · have hput : (o.put g).input = o.input := by
        cases g with
        | input path plain => exact absurd rfl hg
        | _ => rfl
      have hpaths : paths .input (g :: gs) = paths .input gs := by
        simp [paths, hg]
      rw [parseFrom_option hg, ih, hput, hpaths]

theorem parse_groups (gs : List Group) : parse (gs.flatMap Group.arguments) =
    match (paths .input gs)[1]? with
    | some second => .error (.secondInput second)
    | none => .ok (ofGroups gs) := by
  rw [ofGroups_eq_foldl]
  exact parseFrom_groups {} gs

/-- A line that is read is made of groups. -/
theorem exists_groups {o o' : Options} {args : List String} (h : parseFrom o args = .ok o') :
    ∃ gs : List Group, args = gs.flatMap Group.arguments := by
  have hcons (g : Group) {rest : List String}
      (hrest : ∃ gs : List Group, rest = gs.flatMap Group.arguments) :
      ∃ gs : List Group, g.arguments ++ rest = gs.flatMap Group.arguments := by
    obtain ⟨gs, rfl⟩ := hrest
    exact ⟨g :: gs, List.flatMap_cons.symm⟩
  fun_induction parseFrom o args with
  | case1 o => exact ⟨[], rfl⟩
  | case2 o rest ih => exact hcons .check (ih h)
  | case3 o rest ih => exact hcons .emitSpirv (ih h)
  | case5 o v rest ih => exact hcons (.outputDir _ v (Or.inr rfl)) (ih h)
  | case7 o v rest ih => exact hcons (.outputDir _ v (Or.inl rfl)) (ih h)
  | case9 o v rest ih => exact hcons (.config v) (ih h)
  | case12 o v rest n hcount ih =>
    exact hcons (.jobs _ v n (Or.inl rfl) (parseCount_eq_ok.mp hcount)) (ih h)
  | case15 o v rest n hcount ih =>
    exact hcons (.jobs _ v n (Or.inr rfl) (parseCount_eq_ok.mp hcount)) (ih h)
  | case18 o argument rest _ _ _ _ _ _ _ plain _ ih => exact hcons (.input argument plain) (ih h)
  | case4 | case6 | case8 | case10 | case11 | case13 | case14 | case16 | case17 => cases h

/-- A line can be made of groups in one way only. -/
theorem groups_unique {gs gs' : List Group}
    (h : gs.flatMap Group.arguments = gs'.flatMap Group.arguments) : gs = gs' := by
  have hnil (g : Group) (rest : List String) : g.arguments ++ rest ≠ [] := by
    obtain ⟨first, others, hg, _⟩ := g.arguments_eq_cons
    rw [hg]
    exact List.cons_ne_nil _ _
  induction gs generalizing gs' with
  | nil =>
    cases gs' with
    | nil => rfl
    | cons g' gs' => exact absurd h.symm (hnil g' _)
  | cons g gs ih =>
    cases gs' with
    | nil => exact absurd h (hnil g _)
    | cons g' gs' =>
      obtain ⟨rfl, hrest⟩ := Group.eq_of_arguments_append h
      rw [ih hrest]

/-- The command line is read by groups. It is read exactly when it is made of groups with at most
one input, which can be done in one way only; the options are then the last ones of each kind, the
switches that are there, and the input. Lines that have the same groups of each kind in the same
order, such as any reordering of whole groups that keeps the order within each kind, are read in the
same way. -/
theorem command_line_by_groups :
    (∀ (args : List String) (o : Options), parse args = .ok o ↔
      ∃ gs : List Group, args = gs.flatMap Group.arguments ∧
        (paths .input gs).length ≤ 1 ∧ o = ofGroups gs) ∧
    (∀ gs gs' : List Group, gs.flatMap Group.arguments = gs'.flatMap Group.arguments → gs = gs') ∧
    ∀ gs gs' : List Group, (∀ k, gs.filter (·.kind = k) = gs'.filter (·.kind = k)) →
      parse (gs.flatMap Group.arguments) = parse (gs'.flatMap Group.arguments) := by
  refine ⟨?read, fun gs gs' => groups_unique, ?reordered⟩
  case read =>
    intro args o
    constructor
    · intro h
      obtain ⟨gs, rfl⟩ := exists_groups h
      rw [parse_groups] at h
      split at h
      · cases h
      · next hsecond =>
        cases h
        exact ⟨gs, rfl, List.getElem?_eq_none_iff.mp hsecond, rfl⟩
    · rintro ⟨gs, rfl, hinputs, rfl⟩
      rw [parse_groups, List.getElem?_eq_none_iff.mpr hinputs]
  case reordered =>
    intro gs gs' h
    have hpaths : paths .input gs = paths .input gs' := by rw [paths, paths, h]
    rw [parse_groups, parse_groups, hpaths, ofGroups_congr h]

/-- A line with two counts, and a directory that looks like an option. -/
def oddLine : List Group :=
  [.jobs "-j" "4" 4 (Or.inr rfl) ⟨['4'], Or.inl rfl, by simp, by simp, rfl, by decide⟩,
    .input "x" (by decide), .outputDir "--outputdir" "--check" (Or.inr rfl),
    .jobs "--jobs" "+2" 2 (Or.inl rfl) ⟨['2'], Or.inr rfl, by simp, by simp, rfl, by decide⟩]

def oddLineReordered : List Group :=
  [.outputDir "--outputdir" "--check" (Or.inr rfl),
    .jobs "-j" "4" 4 (Or.inr rfl) ⟨['4'], Or.inl rfl, by simp, by simp, rfl, by decide⟩,
    .jobs "--jobs" "+2" 2 (Or.inl rfl) ⟨['2'], Or.inr rfl, by simp, by simp, rfl, by decide⟩,
    .input "x" (by decide)]

theorem oddLine_by_groups :
    (∀ k, oddLine.filter (·.kind = k) = oddLineReordered.filter (·.kind = k)) ∧
    parse ["-j", "4", "x", "--outputdir", "--check", "--jobs", "+2"] =
      .ok { input := some "x", outputDir := some "--check", jobs := some 2 } ∧
    parse ["-j", "4", "x", "--outputdir", "--check", "--jobs", "+2"] =
      parse ["--outputdir", "--check", "-j", "4", "--jobs", "+2", "x"] := by
  obtain ⟨hread, _, hreordered⟩ := command_line_by_groups
  have hsame : ∀ k, oddLine.filter (·.kind = k) = oddLineReordered.filter (·.kind = k) := by
    intro k
    cases k <;> rfl
  exact ⟨hsame, (hread _ _).mpr ⟨oddLine, rfl, by decide, rfl⟩,
    hreordered oddLine oddLineReordered hsame⟩

end Options

end Kfx
