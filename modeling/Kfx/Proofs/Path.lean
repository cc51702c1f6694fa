import Kfx.Path

/-!
# Names put behind a path

What a path becomes when a name is put behind it: the name's own pieces come last, and what stands
before them is the same for every name. A file name with an extension is its stem, a dot and the
extension, so names that share an extension differ in their stems. A path goes on with a slash
behind its parent.
-/
namespace Kfx.Path

/-- A name that can stand in a directory. -/
def IsName (name : String) : Prop :=
  name ≠ "" ∧ name ≠ "." ∧ name ≠ ".." ∧ '/' ∉ name.toList

section

variable {cs ds : List Char}

theorem pieces_ne_nil (cs : List Char) : pieces cs ≠ [] := by
  cases cs with
  | nil => simp [pieces]
  | cons c cs =>
    rw [pieces]
    split
    · simp
    · split <;> simp

theorem pieces_of_plain (h : '/' ∉ cs) : pieces cs = [cs] := by
  induction cs with
  | nil => rfl
  | cons c cs ih =>
    obtain ⟨hc, hcs⟩ : c ≠ '/' ∧ '/' ∉ cs := by simpa [eq_comm] using h
    rw [pieces, if_neg hc, ih hcs]

/-- Text without a slash goes to the first piece of what follows it. -/
theorem pieces_plain_append (h : '/' ∉ cs) {p : List Char} {ps : List (List Char)}
    (hds : pieces ds = p :: ps) : pieces (cs ++ ds) = (cs ++ p) :: ps := by
  induction cs with
  | nil => exact hds
  | cons c cs ih =>
    obtain ⟨hc, hcs⟩ : c ≠ '/' ∧ '/' ∉ cs := by simpa [eq_comm] using h
    rw [List.cons_append, pieces, if_neg hc, ih hcs]
    rfl

theorem pieces_slash (cs ds : List Char) : pieces (cs ++ '/' :: ds) = pieces cs ++ pieces ds := by
  induction cs with
  | nil => simp [pieces]
  | cons c cs ih =>
    rw [List.cons_append, pieces, pieces]
    by_cases hc : c = '/'
    · rw [if_pos hc, if_pos hc, ih, List.cons_append]
    · rw [if_neg hc, if_neg hc, ih]
      cases hp : pieces cs with
      | nil => exact absurd hp (pieces_ne_nil cs)
      | cons p ps => rfl

/-- Text without a slash goes to the last piece of what stands before it. -/
theorem pieces_append_plain (cs : List Char) (h : '/' ∉ ds) :
    ∃ init last, pieces cs = init ++ [last] ∧ pieces (cs ++ ds) = init ++ [last ++ ds] := by
  induction cs with
  | nil => exact ⟨[], [], rfl, pieces_of_plain h⟩
  | cons c cs ih =>
    obtain ⟨init, last, hcs, happend⟩ := ih
    rw [List.cons_append, pieces, pieces, hcs, happend]
    by_cases hc : c = '/'
    · simp only [if_pos hc]
      exact ⟨[] :: init, last, rfl, rfl⟩
    · simp only [if_neg hc]
      cases init with
      | nil => exact ⟨[], c :: last, rfl, rfl⟩
      | cons p ps => exact ⟨(c :: p) :: ps, last, rfl, rfl⟩

/-- The last piece is the whole text, or what stands behind the last slash. -/
theorem pieces_last (cs : List Char) : ∃ init last front, pieces cs = init ++ [last] ∧
    cs = front ++ last ∧ (init = [] ∧ front = [] ∨ init ≠ [] ∧ front.getLast? = some '/') := by
  induction cs with
  | nil => exact ⟨[], [], [], rfl, rfl, Or.inl ⟨rfl, rfl⟩⟩
  | cons c cs ih =>
    obtain ⟨init, last, front, hpieces, rfl, hfront⟩ := ih
    rw [pieces, hpieces]
    by_cases hc : c = '/'
    · rw [if_pos hc]
      refine ⟨[] :: init, last, c :: front, rfl, rfl, Or.inr ⟨by simp, ?_⟩⟩
      rcases hfront with ⟨_, rfl⟩ | ⟨_, hslash⟩
      · simp [hc]
      · simp [List.getLast?_cons, hslash]
    · rw [if_neg hc]
      rcases hfront with ⟨rfl, rfl⟩ | ⟨hinit, hslash⟩
      · exact ⟨[], c :: last, [], rfl, rfl, Or.inl ⟨rfl, rfl⟩⟩
      · cases init with
        | nil => exact absurd rfl hinit
        | cons p ps =>
          refine ⟨(c :: p) :: ps, last, c :: front, rfl, rfl, Or.inr ⟨by simp, ?_⟩⟩
          simp [List.getLast?_cons, hslash]

/-- No piece of a path holds a slash. -/
theorem slash_notMem_of_mem_pieces {p : List Char} (h : p ∈ pieces cs) : '/' ∉ p := by
  induction cs generalizing p with
  | nil =>
    rw [pieces, List.mem_singleton] at h
    simp [h]
  | cons c cs ih =>
    rw [pieces] at h
    by_cases hc : c = '/'
    · rw [if_pos hc] at h
      rcases List.mem_cons.mp h with rfl | hp
      · simp
      · exact ih hp
    · rw [if_neg hc] at h
      cases hcs : pieces cs with
      | nil => exact absurd hcs (pieces_ne_nil cs)
      | cons q qs =>
        rw [hcs] at h ih
        rcases List.mem_cons.mp h with rfl | hp
        · have hq : '/' ∉ q := ih List.mem_cons_self
          simp [hq, Ne.symm hc]
        · exact ih (List.mem_cons_of_mem q hp)

end

/-- A directory as it stands before the names inside it. -/
def inside (base : String) : String :=
  if base.isEmpty then "" else if base.toList.getLast? = some '/' then base else base ++ "/"

theorem join_eq {name : String} (base : String) (h : isAbsolute name = false) :
    join base name = inside base ++ name := by
  unfold join inside
  rw [h, Bool.false_or]
  split
  · simp
  · split
    · rfl
    · rfl

/-- What stands before a name is empty or ends in a slash. -/
theorem inside_cases (base : String) :
    inside base = "" ∨ ∃ front, (inside base).toList = front ++ ['/'] := by
  unfold inside
  split
  · exact Or.inl rfl
  · split
    · next hlast =>
      obtain ⟨front, hfront⟩ := List.getLast?_eq_some_iff.mp hlast
      exact Or.inr ⟨front, hfront⟩
    · exact Or.inr ⟨base.toList, by simp⟩

/-- The pieces of a directory before the names inside it. -/
def above (base : String) : List (List Char) :=
  (pieces (inside base).toList).dropLast

theorem pieces_join {name : String} (base : String) (h : isAbsolute name = false) :
    pieces (join base name).toList = above base ++ pieces name.toList := by
  rw [join_eq base h, String.toList_append, above]
  rcases inside_cases base with hempty | ⟨front, hfront⟩
  · simp [hempty, pieces]
  · rw [hfront, List.append_assoc, List.singleton_append, pieces_slash, pieces_slash]
    simp [pieces]

theorem isAbsolute_join {name : String} (base : String) (h : isAbsolute name = false) :
    isAbsolute (join base name) = isAbsolute (inside base) := by
  rw [join_eq base h]
  rcases inside_cases base with hempty | ⟨front, hfront⟩
  · simpa [hempty, isAbsolute] using h
  · unfold isAbsolute
    rw [String.toList_append, hfront]
    cases front <;> simp

theorem isAbsolute_of_plain {name : String} (h : '/' ∉ name.toList) : isAbsolute name = false := by
  unfold isAbsolute
  cases hname : name.toList with
  | nil => rfl
  | cons c cs =>
    have hc : c ≠ '/' := by
      rintro rfl
      simp [hname] at h
    simpa using hc

/-- The pieces of a path that say something. -/
def said (parts : List (List Char)) : List String :=
  (parts.map String.ofList).filter fun p => p ≠ "" ∧ p ≠ "."

theorem said_append (parts others : List (List Char)) :
    said (parts ++ others) = said parts ++ said others := by
  simp [said]

theorem said_cons {p : List Char} (hempty : p ≠ []) (hdot : p ≠ ['.']) (ps : List (List Char)) :
    said (p :: ps) = String.ofList p :: said ps := by
  have hempty' : String.ofList p ≠ "" := by simpa using hempty
  have hdot' : String.ofList p ≠ "." := by
    intro heq
    apply hdot
    simpa using congrArg String.toList heq
  simp [said, hempty', hdot']

theorem components_eq (path : String) : components path =
    if ((pieces path.toList).map String.ofList).head? = some "." then
      "." :: said (pieces path.toList)
    else said (pieces path.toList) := rfl

/-- The components of a path before a name, as far as the name has no part in them. -/
def lead (base : String) : List String :=
  if ((above base).map String.ofList).head? = some "." then "." :: said (above base)
  else said (above base)

theorem components_join {base name : String} {p : List Char} {ps : List (List Char)}
    (h : isAbsolute name = false) (hname : pieces name.toList = p :: ps)
    (hp : p ≠ ['.']) : components (join base name) = lead base ++ said (p :: ps) := by
  have hp' : String.ofList p ≠ "." := by
    intro heq
    apply hp
    simpa using congrArg String.toList heq
  unfold lead
  rw [components_eq, pieces_join base h, hname, said_append]
  cases above base with
  | nil => simp [said, hp']
  | cons q qs =>
    simp only [List.cons_append, List.map_cons, List.head?_cons]
    split <;> rfl

section

variable {base name name' : String}

theorem IsName.components_join (h : IsName name) :
    components (join base name) = lead base ++ [name] := by
  obtain ⟨hempty, hdot, _, hplain⟩ := h
  have hp : name.toList ≠ ['.'] := by
    intro heq
    apply hdot
    rw [← String.ofList_toList (s := name), heq]
  rw [Path.components_join (isAbsolute_of_plain hplain) (pieces_of_plain hplain) hp]
  simp [said, hempty, hdot]

theorem IsName.fileName?_join (h : IsName name) : fileName? (join base name) = some name := by
  unfold fileName?
  rw [h.components_join]
  obtain ⟨_, hdot, hup, _⟩ := h
  simp [hdot, hup]

/-- Nothing is stripped off a name. -/
theorem IsName.dropEmptyEnd (h : IsName name) (front : List Char) :
    dropEmptyEnd (name.toList.reverse ++ front) = name.toList.reverse ++ front := by
  obtain ⟨hempty, hdot, _, hplain⟩ := h
  cases hback : name.toList.reverse with
  | nil => simp_all
  | cons c r =>
    have hmem : ∀ d ∈ c :: r, d ≠ '/' := by
      rintro d hd rfl
      rw [← hback] at hd
      exact hplain (by simpa using hd)
    have hc : c ≠ '/' := hmem c List.mem_cons_self
    rw [List.cons_append]
    cases r with
    | nil =>
      have hc' : c ≠ '.' := by
        rintro rfl
        apply hdot
        have hname : name.toList = ['.'] := by simpa using congrArg List.reverse hback
        rw [← String.ofList_toList (s := name), hname]
      rw [Path.dropEmptyEnd.eq_4] <;> simp_all
    | cons d r =>
      have hd : d ≠ '/' := hmem d (by simp)
      rw [Path.dropEmptyEnd.eq_4] <;> simp_all

/-- The directory of a path does not depend on the name at its end. -/
theorem IsName.directoryOf_join (h : IsName name) : directoryOf (join base name) =
    String.ofList (if (Path.dropEmptyEnd (inside base).toList.reverse).isEmpty &&
      isAbsolute (inside base) then ['/']
      else Path.dropEmptyEnd (inside base).toList.reverse).reverse := by
  have habsolute := isAbsolute_of_plain h.2.2.2
  have hback : (join base name).toList.reverse =
      name.toList.reverse ++ (inside base).toList.reverse := by
    rw [join_eq base habsolute, String.toList_append, List.reverse_append]
  have hfront : (name.toList.reverse ++ (inside base).toList.reverse).dropWhile (· ≠ '/') =
      (inside base).toList.reverse := by
    rw [List.dropWhile_append_of_pos]
    · rcases inside_cases base with hempty | ⟨front, hinside⟩
      · simp [hempty]
      · simp [hinside]
    · intro c hc
      have hplain := h.2.2.2
      rw [decide_eq_true_eq]
      rintro rfl
      exact hplain (by simpa using hc)
  unfold directoryOf parent?
  rw [if_neg (by rw [h.components_join]; simp), hback, h.dropEmptyEnd]
  dsimp only
  rw [hfront, isAbsolute_join base habsolute]
  rfl

end

/-- A name with an extension is cut at a dot. -/
theorem splitName_eq_some {name stem ext : String} (h : splitName name = (stem, some ext)) :
    name = stem ++ "." ++ ext ∧ stem ≠ "" := by
  unfold splitName at h
  have hback : name.toList.reverse.takeWhile (· ≠ '.') ++ name.toList.reverse.dropWhile (· ≠ '.') =
      name.toList.reverse := List.takeWhile_append_dropWhile
  dsimp only at h
  split at h
  · cases h
  · cases h
  · next c before hne hdrop =>
    have hdot : c = '.' := by
      have hhead := List.head?_dropWhile_not (fun c : Char => decide (c ≠ '.')) name.toList.reverse
      rw [hdrop] at hhead
      simpa using hhead
    subst hdot
    rw [hdrop] at hback
    generalize name.toList.reverse.takeWhile (· ≠ '.') = after at h hback
    cases h
    have hname := congrArg List.reverse hback
    rw [List.reverse_reverse] at hname
    refine ⟨?_, ?_⟩
    · apply String.toList_inj.mp
      rw [← hname]
      simp
    · intro hempty
      apply hne
      simpa using congrArg String.toList hempty

/-- A name without an extension is its own stem. -/
theorem splitName_eq_none {name stem : String} (h : splitName name = (stem, none)) :
    stem = name := by
  unfold splitName at h
  dsimp only at h
  split at h
  · cases h
    rfl
  · cases h
    rfl
  · cases h

/-- What is stripped off the end of a path ends at a slash. -/
theorem dropEmptyEnd_eq (back : List Char) :
    dropEmptyEnd back = back ∨ ∃ stripped, back = stripped ++ '/' :: dropEmptyEnd back := by
  fun_induction dropEmptyEnd back with
  | case1 cs ih =>
    rcases ih with ih | ⟨stripped, ih⟩
    · exact Or.inr ⟨[], by rw [ih]; rfl⟩
    · exact Or.inr ⟨'/' :: stripped, by rw [List.cons_append, ← ih]⟩
  | case2 => exact Or.inl rfl
  | case3 cs ih =>
    rcases ih with ih | ⟨stripped, ih⟩
    · exact Or.inr ⟨['.'], by rw [ih]; rfl⟩
    · exact Or.inr ⟨'.' :: '/' :: stripped, by rw [List.cons_append, List.cons_append, ← ih]⟩
  | case4 => exact Or.inl rfl

/-- A path written backwards, less its last component: what is kept ends before a slash. -/
theorem kept_eq (back : List Char) :
    let kept := dropEmptyEnd ((dropEmptyEnd back).dropWhile (· ≠ '/'))
    kept = [] ∨ ∃ gone, back = gone ++ '/' :: kept := by
  intro kept
  have hback : ∃ gone, back = gone ++ dropEmptyEnd back := by
    rcases dropEmptyEnd_eq back with h | ⟨stripped, h⟩
    · exact ⟨[], by rw [h]; rfl⟩
    · exact ⟨stripped ++ ['/'], by simpa using h⟩
  obtain ⟨gone, hgone⟩ := hback
  have hsplit : (dropEmptyEnd back).takeWhile (· ≠ '/') ++ (dropEmptyEnd back).dropWhile (· ≠ '/') =
      dropEmptyEnd back := List.takeWhile_append_dropWhile
  cases hfront : (dropEmptyEnd back).dropWhile (· ≠ '/') with
  | nil => exact Or.inl (by rw [show kept = dropEmptyEnd [] by rw [← hfront]]; rfl)
  | cons c front =>
    have hslash : c = '/' := by
      have hhead := List.head?_dropWhile_not (fun c : Char => decide (c ≠ '/')) (dropEmptyEnd back)
      rw [hfront] at hhead
      simpa using hhead
    subst hslash
    have hkept : kept = dropEmptyEnd front := by
      rw [show kept = dropEmptyEnd ('/' :: front) by rw [← hfront]]
      rfl
    refine Or.inr ?_
    rw [hfront] at hsplit
    rcases dropEmptyEnd_eq front with h | ⟨stripped, h⟩
    · refine ⟨gone ++ (dropEmptyEnd back).takeWhile (· ≠ '/'), ?_⟩
      rw [hkept, h, List.append_assoc, hsplit, ← hgone]
    · refine ⟨gone ++ ((dropEmptyEnd back).takeWhile (· ≠ '/') ++ '/' :: stripped), ?_⟩
      rw [hkept, List.append_assoc, List.append_assoc, List.cons_append, ← h, hsplit, ← hgone]

/-- Behind its parent a path goes on with a slash, unless the parent is empty or the root. -/
theorem parent?_eq_some {path above : String} (h : parent? path = some above) :
    above = "" ∨ above = "/" ∧ 1 < path.length ∨
      above ≠ "" ∧ ∃ rest, path.toList = above.toList ++ '/' :: rest := by
  unfold parent? at h
  split at h
  · cases h
  · next hcomponents =>
    have hkept := kept_eq path.toList.reverse
    dsimp only at h hkept
    generalize dropEmptyEnd ((dropEmptyEnd path.toList.reverse).dropWhile (· ≠ '/')) = kept
      at h hkept
    cases kept with
    | nil =>
      cases habsolute : isAbsolute path with
      | false =>
        rw [habsolute] at h
        cases h
        exact Or.inl rfl
      | true =>
        rw [habsolute] at h
        cases h
        refine Or.inr (Or.inl ⟨rfl, ?_⟩)
        rw [← String.length_toList]
        cases hpath : path.toList with
        | nil => simp [isAbsolute, hpath] at habsolute
        | cons c cs =>
          cases cs with
          | cons d cs => simp
          | nil =>
            have hc : c = '/' := by simpa [isAbsolute, hpath] using habsolute
            simp [components, hpath, hc, pieces] at hcomponents
    | cons c kept =>
      cases h
      rcases hkept with hnil | ⟨gone, hgone⟩
      · cases hnil
      · refine Or.inr (Or.inr ⟨by simp, gone.reverse, ?_⟩)
        have hpath := congrArg List.reverse hgone
        rw [List.reverse_reverse] at hpath
        rw [hpath]
        simp

theorem parent?_length_lt {path above : String} (h : parent? path = some above) (hne : path ≠ "") :
    above.length < path.length := by
  rcases parent?_eq_some h with rfl | ⟨rfl, hlong⟩ | ⟨_, rest, hpath⟩
  · have hlength : path.length ≠ 0 := by simpa using hne
    exact Nat.pos_of_ne_zero hlength
  · exact hlong
  · have hlength := congrArg List.length hpath
    simp only [List.length_append, List.length_cons, String.length_toList] at hlength
    omega

end Kfx.Path
