import Kfx.Files.Tree
import Kfx.Proofs.Path

/-!
# What a change does to a tree of files

A path leads where its parts lead, whatever the tree, as long as the directories on the way are
there; a change puts one node where no directory is, so every path that led somewhere still leads
there, and what is at another location stays.
-/
namespace Kfx.FileTree

open Kfx.Path

/-- Where parts of a path lead if every directory on the way is there. -/
def along : Location → List String → Location
  | loc, [] => loc
  | loc, part :: parts =>
    if part = "." then along loc parts
    else if part = ".." then along loc.dropLast parts
    else along (loc ++ [part]) parts

theorem along_append (loc : Location) (parts others : List String) :
    along loc (parts ++ others) = along (along loc parts) others := by
  fun_induction along loc parts with
  | case1 loc => rfl
  | case2 loc parts ih => rw [List.cons_append, along, if_pos rfl, ih]
  | case3 loc parts hdot ih => rw [List.cons_append, along, if_neg hdot, if_pos rfl, ih]
  | case4 loc part parts hdot hup ih =>
    rw [List.cons_append, along, if_neg hdot, if_neg hup, ih]

def Place.location? : Place → Option Location
  | .found loc _ => some loc
  | .free loc => some loc
  | .fault _ => none

variable {t t' : FileTree} {loc X : Location} {parts : List String} {path : String}

/-- The directories of one tree are directories of the other. -/
def KeepsDirectories (t t' : FileTree) : Prop :=
  ∀ loc, t.lookup loc = some .directory → t'.lookup loc = some .directory

theorem walk_cons (h : t.lookup loc = some .directory) (part : String) (parts : List String) :
    t.walk loc (part :: parts) =
      if part = "." then t.walk loc parts
      else if part = ".." then t.walk loc.dropLast parts
      else if nameLimit < part.utf8ByteSize then .fault .nameTooLong
      else t.walk (loc ++ [part]) parts := by
  rw [walk, h]

/-- A path that leads somewhere leads to the same location in every tree with those directories. -/
theorem walk_eq_of_location? (h : (t.walk loc parts).location? = some X) :
    X = along loc parts ∧ ∀ t', t.KeepsDirectories t' → t'.walk loc parts = t'.walk X [] := by
  fun_induction FileTree.walk t loc parts with
  | case1 loc node hnode =>
    cases h
    exact ⟨rfl, fun _ _ => rfl⟩
  | case2 loc hnone =>
    cases h
    exact ⟨rfl, fun _ _ => rfl⟩
  | case3 => cases h
  | case4 => cases h
  | case5 loc parts hdir ih =>
    obtain ⟨hX, hkept⟩ := ih h
    rw [along, if_pos rfl]
    refine ⟨hX, fun t' hdirs => ?_⟩
    rw [walk_cons (hdirs loc hdir), if_pos rfl, hkept t' hdirs]
  | case6 loc parts hdir hdot ih =>
    obtain ⟨hX, hkept⟩ := ih h
    rw [along, if_neg hdot, if_pos rfl]
    refine ⟨hX, fun t' hdirs => ?_⟩
    rw [walk_cons (hdirs loc hdir), if_neg hdot, if_pos rfl, hkept t' hdirs]
  | case7 => cases h
  | case8 loc part parts hdir hdot hup hlong ih =>
    obtain ⟨hX, hkept⟩ := ih h
    rw [along, if_neg hdot, if_neg hup]
    refine ⟨hX, fun t' hdirs => ?_⟩
    rw [walk_cons (hdirs loc hdir), if_neg hdot, if_neg hup, if_neg hlong, hkept t' hdirs]

/-- The parts of a path lead to a directory if more follows them. -/
theorem walk_of_append {others : List String}
    (h : (t.walk loc (parts ++ others)).location? = some X)
    (hlast : others = [] → t.lookup X = some .directory) :
    t.walk loc parts = .found (along loc parts) .directory := by
  induction parts generalizing loc with
  | nil =>
    have hdir : t.lookup loc = some .directory := by
      cases others with
      | nil =>
        obtain ⟨hX, _⟩ := walk_eq_of_location? h
        have hdir := hlast rfl
        rwa [hX] at hdir
      | cons part others =>
        rw [List.nil_append, walk] at h
        split at h
        · cases h
        · cases h
        · next hdir => exact hdir
    rw [walk, hdir]
    rfl
  | cons part parts ih =>
    rw [List.cons_append, walk] at h
    rw [walk, along]
    split at h
    · cases h
    · cases h
    · split at h
      · next hdot =>
        rw [if_pos hdot, if_pos hdot]
        exact ih h
      · next hdot =>
        rw [if_neg hdot, if_neg hdot]
        split at h
        · next hup =>
          rw [if_pos hup, if_pos hup]
          exact ih h
        · next hup =>
          rw [if_neg hup, if_neg hup]
          split at h
          · cases h
          · next hshort =>
            rw [if_neg hshort]
            exact ih h

theorem lookup_of_walk {node : FileNode} (h : t.walk loc parts = .found X node) :
    t.lookup X = some node := by
  have hlocation : (t.walk loc parts).location? = some X := by rw [h]; rfl
  rw [(walk_eq_of_location? hlocation).2 t fun _ hdir => hdir, walk] at h
  split at h
  · next hnode =>
    cases h
    exact hnode
  · cases h

/-- The last part of a path is looked for in a directory. -/
theorem directory_of_walk_concat {last : String}
    (h : (t.walk loc (parts ++ [last])).location? = some X) :
    t.lookup (along loc parts) = some .directory :=
  lookup_of_walk (walk_of_append h (by simp))

def origin (t : FileTree) (path : String) : Location :=
  if isAbsolute path then [] else t.here

theorem follow_of_location? (h : (t.follow path parts).location? = some X) :
    path.isEmpty = false ∧
      ∀ t' : FileTree, t'.here = t.here → t'.follow path parts = t'.walk (t.origin path) parts := by
  unfold follow at h ⊢
  split at h
  · cases h
  · next hzero =>
    split at h
    · cases h
    · next hlong =>
      split at h
      · cases h
      · next hempty =>
        refine ⟨by simpa using hempty, fun t' hhere => ?_⟩
        rw [if_neg hzero, if_neg hlong, if_neg hempty, hhere]
        rfl

theorem locate_eq_of_location? (h : (t.locate path).location? = some X) :
    X = along (t.origin path) (steps path) ∧
      ∀ t', t.KeepsDirectories t' → t'.here = t.here → t'.locate path = t'.walk X [] := by
  obtain ⟨_, hfollow⟩ := follow_of_location? h
  have hwalk : t.locate path = t.walk (t.origin path) (steps path) := hfollow t rfl
  obtain ⟨hX, hkept⟩ := walk_eq_of_location? (hwalk ▸ h)
  refine ⟨hX, fun t' hdirs hhere => ?_⟩
  rw [← hkept t' hdirs]
  exact hfollow t' hhere

/-- Changing one location leaves all others as they are. -/
theorem lookup_put {node : FileNode} (hX : X ≠ []) :
    (t.put X node).lookup loc = if loc = X then some node else t.lookup loc := by
  cases loc with
  | nil => rw [if_neg (Ne.symm hX)]; rfl
  | cons name names =>
    by_cases hloc : name :: names = X
    · rw [if_pos hloc]
      simp [lookup, put, hloc]
    · rw [if_neg hloc]
      have hfirst : (X == name :: names) = false := beq_eq_false_iff_ne.mpr (Ne.symm hloc)
      have hrest : ∀ e : Location × FileNode,
          decide (decide (e.1 ≠ X) = true ∧ (e.1 == name :: names) = true) =
            (e.1 == name :: names) := by
        intro e
        by_cases he : e.1 = name :: names
        · simp [he, hloc]
        · simp [he]
      simp only [lookup, put, List.find?_cons, hfirst, List.find?_filter, hrest]

/-- No directory is at the location, so it may be taken. -/
def Takes (t : FileTree) (X : Location) : Prop :=
  t.lookup X ≠ some .directory

theorem Takes.ne_nil (h : t.Takes X) : X ≠ [] := by
  rintro rfl
  exact h rfl

theorem Takes.keepsDirectories {node : FileNode} (h : t.Takes X) :
    t.KeepsDirectories (t.put X node) := by
  intro loc hloc
  rw [lookup_put h.ne_nil, if_neg]
  · exact hloc
  · rintro rfl
    exact h hloc

theorem lookup_of_found {node : FileNode} (h : t.locate path = .found X node) :
    t.lookup X = some node := by
  have hlocation : (t.locate path).location? = some X := by rw [h]; rfl
  rw [(locate_eq_of_location? hlocation).2 t (fun _ hdir => hdir) rfl] at h
  exact lookup_of_walk h

theorem lookup_of_free (h : t.locate path = .free X) : t.lookup X = none := by
  have hlocation : (t.locate path).location? = some X := by rw [h]; rfl
  have hwalk := (locate_eq_of_location? hlocation).2 t (fun _ hdir => hdir) rfl
  rw [h, walk] at hwalk
  cases hnode : t.lookup X with
  | none => rfl
  | some other =>
    rw [hnode] at hwalk
    cases hwalk

theorem readBytes_eq_ok {bytes : List UInt8} : t.readBytes path = .ok bytes ↔
    endsInSlash path = false ∧ ∃ X, t.locate path = .found X (.file bytes) := by
  unfold readBytes find
  cases hplace : t.locate path with
  | free X => simp
  | fault f => simp
  | found X node =>
    cases node with
    | directory => simp
    | file old => cases hslash : endsInSlash path <;> simp

/-- A file is put where no directory is. -/
theorem write_eq_ok {bytes : List UInt8} (h : t.write path bytes = .ok t') :
    endsInSlash path = false ∧
      ∃ X, (t.locate path).location? = some X ∧ t.Takes X ∧ t' = t.put X (.file bytes) := by
  unfold write at h
  split at h
  · cases h
  · next hslash =>
    refine ⟨by simpa using hslash, ?_⟩
    cases hplace : t.locate path with
    | fault f =>
      rw [hplace] at h
      cases h
    | free X =>
      rw [hplace] at h
      cases h
      exact ⟨X, rfl, by simp [Takes, lookup_of_free hplace], rfl⟩
    | found X node =>
      rw [hplace] at h
      cases node with
      | directory => cases h
      | file old =>
        cases h
        exact ⟨X, rfl, by simp [Takes, lookup_of_found hplace], rfl⟩

theorem makeDirectory_eq_ok (h : t.makeDirectory path = .ok t') :
    ∃ X, (t.locate path).location? = some X ∧ t.lookup X = none ∧ t' = t.put X .directory := by
  unfold makeDirectory at h
  cases hplace : t.locate path with
  | fault f =>
    rw [hplace] at h
    cases h
  | found X node =>
    rw [hplace] at h
    cases h
  | free X =>
    rw [hplace] at h
    cases h
    exact ⟨X, rfl, lookup_of_free hplace, rfl⟩

/-- What was put somewhere is found there. -/
theorem locate_put {node : FileNode} (h : (t.locate path).location? = some X) (hX : t.Takes X) :
    (t.put X node).locate path = .found X node := by
  rw [(locate_eq_of_location? h).2 _ hX.keepsDirectories rfl, walk, lookup_put hX.ne_nil,
    if_pos rfl]

/-- A file stays as it is when something is put elsewhere. -/
theorem locate_put_of_ne {bytes : List UInt8} {L : Location} {node : FileNode}
    (h : t.locate path = .found L (.file bytes)) (hX : t.Takes X) (hne : L ≠ X) :
    (t.put X node).locate path = .found L (.file bytes) := by
  have hlocation : (t.locate path).location? = some L := by rw [h]; rfl
  rw [(locate_eq_of_location? hlocation).2 _ hX.keepsDirectories rfl, walk, lookup_put hX.ne_nil,
    if_neg hne, lookup_of_found h]

/-- Names are names, no location is there twice, and what is somewhere is in a directory. -/
structure WellFormed (t : FileTree) : Prop where
  names : ∀ e ∈ t.entries, ∀ name ∈ e.1, IsName name
  here : ∀ name ∈ t.here, IsName name
  distinct : (t.entries.map Prod.fst).Nodup
  inDirectory : ∀ e ∈ t.entries, t.lookup e.1.dropLast = some .directory

theorem WellFormed.lookup_dropLast (ht : t.WellFormed) {node : FileNode}
    (h : t.lookup loc = some node) : t.lookup loc.dropLast = some .directory := by
  cases loc with
  | nil => rfl
  | cons name names =>
    obtain ⟨e, hfind, _⟩ := Option.map_eq_some_iff.mp h
    have hloc : e.1 = name :: names := by simpa using List.find?_some hfind
    rw [← hloc]
    exact ht.inDirectory e (List.mem_of_find?_eq_some hfind)

theorem steps_ne_nil (hempty : path.isEmpty = false) (hrelative : isAbsolute path = false) :
    steps path ≠ [] := by
  cases hpath : path.toList with
  | nil => simp_all
  | cons c cs =>
    have hc : c ≠ '/' := by simpa [isAbsolute, hpath] using hrelative
    cases hcs : pieces cs with
    | nil => exact absurd hcs (pieces_ne_nil cs)
    | cons p ps =>
      have hpieces : pieces path.toList = (c :: p) :: ps := by rw [hpath, pieces, if_neg hc, hcs]
      simp [steps, hpieces]

/-- A path to something that is no directory ends in a name, which is looked for in a directory. -/
theorem WellFormed.ends_in_name (ht : t.WellFormed) (h : (t.locate path).location? = some X)
    (hX : t.Takes X) : ∃ init last, steps path = init ++ [last] ∧ last ≠ "." ∧ last ≠ ".." ∧
      X = along (t.origin path) init ++ [last] ∧
        t.lookup (along (t.origin path) init) = some .directory := by
  obtain ⟨hempty, hfollow⟩ := follow_of_location? h
  have hwalk : t.locate path = t.walk (t.origin path) (steps path) := hfollow t rfl
  obtain ⟨hlocation, _⟩ := locate_eq_of_location? h
  rw [hwalk] at h
  rcases List.eq_nil_or_concat (steps path) with hnil | ⟨init, last, hsteps⟩
  · -- Only slashes stand in a path without parts, and those lead to the root.
    exfalso
    rw [hnil, along, origin] at hlocation
    split at hlocation
    · exact hX.ne_nil hlocation
    · next hrelative => exact steps_ne_nil hempty (by simpa using hrelative) hnil
  · rw [List.concat_eq_append] at hsteps
    rw [hsteps] at h hlocation
    have hdir := directory_of_walk_concat h
    rw [along_append, along] at hlocation
    by_cases hdot : last = "."
    · rw [if_pos hdot, along] at hlocation
      exact absurd (hlocation ▸ hdir) hX
    · by_cases hup : last = ".."
      · rw [if_neg hdot, if_pos hup, along] at hlocation
        exact absurd (hlocation ▸ ht.lookup_dropLast hdir) hX
      · rw [if_neg hdot, if_neg hup, along] at hlocation
        exact ⟨init, last, hsteps, hdot, hup, hlocation, hdir⟩

theorem isName_of_mem_steps {part : String} (h : part ∈ steps path) (hdot : part ≠ ".")
    (hup : part ≠ "..") : IsName part := by
  obtain ⟨hmem, hempty⟩ := List.mem_filter.mp h
  obtain ⟨piece, hpiece, rfl⟩ := List.mem_map.mp hmem
  refine ⟨by simpa using hempty, hdot, hup, ?_⟩
  rw [String.toList_ofList]
  exact slash_notMem_of_mem_pieces hpiece

/-- A location that is reached along names holds names only. -/
theorem isName_of_mem_along (hloc : ∀ name ∈ loc, IsName name)
    (hparts : ∀ part ∈ parts, part ≠ "." → part ≠ ".." → IsName part) :
    ∀ name ∈ along loc parts, IsName name := by
  fun_induction along loc parts with
  | case1 loc => exact hloc
  | case2 loc parts ih => exact ih hloc fun part hpart => hparts part (by simp [hpart])
  | case3 loc parts hdot ih =>
    refine ih ?_ fun part hpart => hparts part (by simp [hpart])
    intro name hname
    exact hloc name (List.dropLast_subset loc hname)
  | case4 loc part parts hdot hup ih =>
    refine ih ?_ fun part hpart => hparts part (by simp [hpart])
    intro name hname
    rcases List.mem_append.mp hname with hname | hname
    · exact hloc name hname
    · rw [List.mem_singleton.mp hname]
      exact hparts part (by simp) hdot hup

/-- Putting something where a path leads keeps a tree well-formed. -/
theorem WellFormed.put (ht : t.WellFormed) {node : FileNode}
    (h : (t.locate path).location? = some X) (hX : t.Takes X) : (t.put X node).WellFormed := by
  obtain ⟨hlocation, _⟩ := locate_eq_of_location? h
  obtain ⟨init, last, _, _, _, hlast, hdir⟩ := ht.ends_in_name h hX
  have hkept : t.KeepsDirectories (t.put X node) := hX.keepsDirectories
  refine ⟨?_, ht.here, ?_, ?_⟩
  · intro e he
    rcases List.mem_cons.mp he with rfl | he
    · have horigin : ∀ name ∈ t.origin path, IsName name := by
        unfold origin
        split
        · simp
        · exact ht.here
      rw [hlocation]
      exact isName_of_mem_along horigin fun part hpart => isName_of_mem_steps hpart
    · exact ht.names e (List.mem_filter.mp he).1
  · refine List.nodup_cons.mpr ⟨?_, (List.filter_sublist.map Prod.fst).nodup ht.distinct⟩
    intro hmem
    obtain ⟨e, he, heq⟩ := List.mem_map.mp hmem
    have hne := (List.mem_filter.mp he).2
    exact absurd heq (by simpa using hne)
  · intro e he
    rcases List.mem_cons.mp he with rfl | he
    · apply hkept
      rw [hlast, List.dropLast_concat]
      exact hdir
    · exact hkept _ (ht.inDirectory e (List.mem_filter.mp he).1)

/-- The parts of a path before the names in a directory. -/
def stepsInto (base : String) : List String :=
  ((above base).map String.ofList).filter (· ≠ "")

theorem stepsInto_eq (base : String) : stepsInto base = steps base := by
  have hpieces : ∀ front : List Char, pieces (front ++ ['/']) = pieces front ++ [[]] :=
    fun front => pieces_slash front []
  unfold stepsInto above inside steps
  split
  · next hempty => simp [String.isEmpty_iff.mp hempty, pieces]
  · split
    · next hlast =>
      obtain ⟨front, hfront⟩ := List.getLast?_eq_some_iff.mp hlast
      simp [hfront, hpieces]
    · simp [hpieces]

/-- Where a directory is, if it is there. -/
def locationOf (t : FileTree) (base : String) : Location :=
  along (if isAbsolute (inside base) then [] else t.here) (stepsInto base)

theorem steps_join {base name : String} (h : isAbsolute name = false) :
    steps (join base name) = stepsInto base ++ steps name := by
  unfold steps stepsInto
  rw [pieces_join base h, List.map_append, List.filter_append]

/-- A name in a directory leads on from where the directory is. -/
theorem location?_join {base name : String} (h : isAbsolute name = false)
    (hlocation : (t.locate (join base name)).location? = some X) :
    X = along (t.locationOf base) (steps name) := by
  obtain ⟨hX, _⟩ := locate_eq_of_location? hlocation
  rw [hX, origin, isAbsolute_join base h, steps_join h, along_append]
  rfl

theorem along_of_not_up (h : ".." ∉ parts) : along loc parts = loc ++ parts.filter (· ≠ ".") := by
  fun_induction along loc parts with
  | case1 loc => simp
  | case2 loc parts ih =>
    rw [ih (fun hmem => h (List.mem_cons_of_mem _ hmem))]
    simp
  | case3 loc parts hdot ih => exact absurd List.mem_cons_self h
  | case4 loc part parts hdot hup ih =>
    rw [ih (fun hmem => h (List.mem_cons_of_mem _ hmem))]
    simp [hdot]

/-- Paths that differ in their first part lead to different locations, if they do not climb up
behind it. -/
theorem along_cons_ne {a b : String} (ha : a ≠ ".") (hb : b ≠ ".") (hab : a ≠ b)
    (h : ".." ∉ parts) : along loc (a :: parts) ≠ along loc (b :: parts) := by
  have hstep : ∀ c : String, c ≠ "." → along loc (c :: parts) =
      if c = ".." then loc.dropLast ++ parts.filter (· ≠ ".")
      else loc ++ c :: parts.filter (· ≠ ".") := by
    intro c hc
    rw [along, if_neg hc]
    split
    · exact along_of_not_up h
    · rw [along_of_not_up h, List.append_assoc, List.singleton_append]
  rw [hstep a ha, hstep b hb]
  intro heq
  have hlength := congrArg List.length heq
  by_cases hupA : a = ".."
  · by_cases hupB : b = ".."
    · exact hab (hupA.trans hupB.symm)
    · rw [if_pos hupA, if_neg hupB] at hlength
      simp only [List.length_append, List.length_dropLast, List.length_cons] at hlength
      omega
  · by_cases hupB : b = ".."
    · rw [if_neg hupA, if_pos hupB] at hlength
      simp only [List.length_append, List.length_dropLast, List.length_cons] at hlength
      omega
    · rw [if_neg hupA, if_neg hupB] at heq
      exact hab (List.cons.inj (List.append_cancel_left heq)).1

/-- A path that does not end in a slash ends in its last part. -/
theorem suffix_of_steps {init : List String} {last : String} (hslash : endsInSlash path = false)
    (h : steps path = init ++ [last]) : last.toList <:+ path.toList := by
  obtain ⟨before, piece, front, hpieces, hpath, hfront⟩ := pieces_last path.toList
  by_cases hpiece : piece = []
  · subst hpiece
    rw [List.append_nil] at hpath
    rcases hfront with ⟨rfl, rfl⟩ | ⟨_, hend⟩
    · simp [steps, hpieces] at h
    · rw [← hpath] at hend
      simp [endsInSlash, hend] at hslash
  · have hsteps : steps path =
        (before.map String.ofList).filter (· ≠ "") ++ [String.ofList piece] := by
      have hne : String.ofList piece ≠ "" := by simpa using hpiece
      simp [steps, hpieces, hne]
    have hlast := List.append_inj_right' (h.symm.trans hsteps) rfl
    rw [(List.cons.inj hlast).1, String.toList_ofList, hpath]
    exact List.suffix_append front piece

end Kfx.FileTree
