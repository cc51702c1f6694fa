import Kfx.Batch.Basic
import Kfx.Proofs.Files.Tree
import Kfx.Proofs.Log

/-!
# Where the files made from sources go

Where the files made from the sources of a directory go. All go below one directory, each under the
stem of its source, and two sources with one extension have two stems. So no two artifacts have the
same path, and no two lead to the same location unless the artifact extension climbs up again. The
files with the words of stages are told apart from artifacts by how they end.
-/
namespace Kfx

open Kfx.Path

section

variable {t : FileTree} {path : String} (ext : String)

/-- The files among some names of a directory that have the wanted extension. -/
def wanted (t : FileTree) (ext path : String) (names : List String) : List String :=
  names.filter fun n => t.isFile (join path n) && extension? (join path n) == some ext

theorem sourceNames_run (names : List String) :
    (sourceNames FileTree.files ext path names).run t = (wanted t ext path names, t) := by
  induction names with
  | nil => rfl
  | cons name names ih =>
    have hfile : (FileTree.files.isFile (join path name)).run t =
        (t.isFile (join path name), t) := rfl
    have hwanted : wanted t ext path (name :: names) =
        if (t.isFile (join path name) && extension? (join path name) == some ext) = true then
          name :: wanted t ext path names
        else wanted t ext path names := List.filter_cons
    rw [sourceNames, run_bind_of_run ih, run_bind_of_run hfile, hwanted]
    split <;> rfl

theorem list_of_isDirectory (hdir : t.isDirectory path = true) :
    ∃ loc, t.list path = .ok (t.entries.filterMap fun e =>
      if e.1.dropLast = loc then e.1.getLast? else none) := by
  unfold FileTree.isDirectory at hdir
  split at hdir
  · next loc hplace => exact ⟨loc, by rw [FileTree.list, hplace]⟩
  · cases hdir

/-- The sources of a directory are its wanted files in the order of their names. -/
theorem collectSources_run {names : List String} (hdir : t.isDirectory path = true)
    (hlist : t.list path = .ok names) :
    (collectSources FileTree.files path ext).run t =
      (.ok (((wanted t ext path names).mergeSort fun a b => decide (a ≤ b)).map (join path)),
        t) := by
  have hfile : (FileTree.files.isFile path).run t = (false, t) := by
    have hisFile : t.isFile path = false := by
      unfold FileTree.isDirectory at hdir
      split at hdir
      · next hplace => rw [FileTree.isFile, hplace]
      · cases hdir
    rw [← hisFile]
    rfl
  have hdirectory : (FileTree.files.isDirectory path).run t = (true, t) := by
    rw [← hdir]
    rfl
  have hlisted : (FileTree.files.list path).run t = (.ok names, t) := by
    rw [← hlist]
    rfl
  rw [collectSources, run_bind_of_run hfile, if_neg (by decide), run_bind_of_run hdirectory,
    if_pos rfl, run_bind_of_run hlisted]
  exact run_bind_of_run (sourceNames_run ext _)

end

/-- A file name with a stem and the extension of sources. -/
structure IsSource (s : Settings) (name stem : String) : Prop where
  isName : IsName name
  split : splitName name = (stem, some s.sourceExtension)

structure IsStem (stem : String) : Prop where
  ne : stem ≠ ""
  plain : '/' ∉ stem.toList

/-- The files made from a source go by this stem. -/
structure HasStem (source stem : String) : Prop extends IsStem stem where
  stem? : Path.stem? source = some stem

/-- The artifact extension does not climb up behind a slash, and if the words of stages are written
too, it does not end like the names of their files. -/
structure Settings.KeepsApart (s : Settings) : Prop where
  noClimb : ∀ p ∈ (pieces s.artifactExtension.toList).tail, p ≠ ['.', '.']
  noDump : s.emitSpirv = true → ¬ ".spv".toList <:+ '.' :: s.artifactExtension.toList

/-- What the artifact of a source with this stem is called. -/
def Settings.artifactName (s : Settings) (stem : String) : String :=
  stem ++ "." ++ s.artifactExtension

def dumpName (stem : String) (p : Pass) (st : Stage) : String :=
  stem ++ "." ++ p.name ++ "." ++ st.kind.shortName ++ ".spv"

/-- A text with a dot before its last part ends like the file of a stage only if the last part
does. -/
theorem dumpEnding_of_append {front ext : List Char}
    (h : ".spv".toList <:+ front ++ '.' :: ext) : ".spv".toList <:+ '.' :: ext := by
  have hext : '.' :: ext <:+ front ++ '.' :: ext := List.suffix_append front _
  by_cases hlength : 3 ≤ ext.length
  · exact List.suffix_of_suffix_length_le h hext (by simpa using hlength)
  · have hshort : '.' :: ext <:+ ".spv".toList := by
      refine List.suffix_of_suffix_length_le hext h ?_
      simp only [List.length_cons, String.length_toList]
      have hfour : ".spv".length = 4 := rfl
      omega
    have hsame : ext = ['s', 'p', 'v'] := by simpa [List.suffix_cons_iff] using hshort
    simp [hsame] at hlength

namespace IsStem

variable {s : Settings} {stem : String}

theorem isAbsolute_append (h : IsStem stem) (rest : String) :
    isAbsolute (stem ++ rest) = false := by
  unfold isAbsolute
  cases hstem : stem.toList with
  | nil => exact absurd (String.toList_eq_nil_iff.mp hstem) h.ne
  | cons c cs =>
    have hc : c ≠ '/' := by
      rintro rfl
      apply h.plain
      simp [hstem]
    simpa [hstem] using hc

theorem isAbsolute_artifactName (h : IsStem stem) :
    isAbsolute (s.artifactName stem) = false := by
  rw [Settings.artifactName, String.append_assoc]
  exact h.isAbsolute_append _

theorem isAbsolute_dumpName (h : IsStem stem) (p : Pass) (st : Stage) :
    isAbsolute (dumpName stem p st) = false := by
  simp only [dumpName, String.append_assoc]
  exact h.isAbsolute_append _

/-- The name of an artifact starts with a part of its own; what may follow is the same for all. -/
theorem pieces_artifactName (h : IsStem stem) {p : List Char} {ps : List (List Char)}
    (hext : pieces s.artifactExtension.toList = p :: ps) :
    pieces (s.artifactName stem).toList = (stem.toList ++ '.' :: p) :: ps := by
  have hplain : '/' ∉ stem.toList ++ ['.'] := by simp [h.plain]
  have hpieces := pieces_plain_append hplain hext
  simpa [Settings.artifactName] using hpieces

/-- A part with a stem and a dot in it is neither a lone dot nor empty. -/
theorem first_ne (h : IsStem stem) (p : List Char) :
    stem.toList ++ '.' :: p ≠ [] ∧ stem.toList ++ '.' :: p ≠ ['.'] := by
  refine ⟨by simp, ?_⟩
  intro heq
  apply h.ne
  have hlength := congrArg List.length heq
  simp only [List.length_append, List.length_cons, List.length_nil] at hlength
  apply String.toList_eq_nil_iff.mp
  apply List.length_eq_zero_iff.mp
  omega

end IsStem

namespace HasStem

variable {s : Settings} {source stem : String}

theorem stemFor (h : HasStem source stem) (e : Effect) : Settings.stemFor source e = stem := by
  rw [Settings.stemFor, h.stem?]
  rfl

theorem artifactFor (h : HasStem source stem) (e : Effect) :
    s.artifactFor source e = join (s.outputFor source) (s.artifactName stem) := by
  rw [Settings.artifactFor, h.stemFor]
  rfl

theorem dumpFor (h : HasStem source stem) (e : Effect) (p : Pass) (st : Stage) :
    s.dumpFor source e p st = join (s.outputFor source) (dumpName stem p st) := by
  rw [Settings.dumpFor, h.stemFor]
  rfl

section

variable {t : FileTree} {X : Location} {e : Effect}

/-- The words of a stage go to a file that is called like one. -/
theorem dump_location_ends (h : HasStem source stem) {p : Pass} {st : Stage}
    (hX : (t.locate (s.dumpFor source e p st)).location? = some X) :
    ∃ D last, X = D ++ [last] ∧ ".spv".toList <:+ last.toList := by
  have hkind : '/' ∉ '.' :: st.kind.shortName.toList ++ ".spv".toList := by
    cases st.kind <;> decide
  obtain ⟨init, piece, _, hpieces⟩ :=
    pieces_append_plain (stem ++ "." ++ p.name).toList hkind
  have hname : (dumpName stem p st).toList =
      (stem ++ "." ++ p.name).toList ++ ('.' :: st.kind.shortName.toList ++ ".spv".toList) := by
    simp [dumpName]
  let last := String.ofList (piece ++ ('.' :: st.kind.shortName.toList ++ ".spv".toList))
  have hsuffix : ".spv".toList <:+ last.toList := by
    refine ⟨piece ++ '.' :: st.kind.shortName.toList, ?_⟩
    simp [last]
  have hlong : 4 ≤ last.toList.length := hsuffix.length_le
  have hsteps : FileTree.steps (dumpName stem p st) =
      (init.map String.ofList).filter (· ≠ "") ++ [last] := by
    rw [FileTree.steps, hname, hpieces]
    simp [last]
  have hdot : last ≠ "." := by
    intro heq
    rw [heq] at hlong
    simp at hlong
  have hup : last ≠ ".." := by
    intro heq
    rw [heq] at hlong
    simp at hlong
  rw [h.dumpFor] at hX
  have hlocation := FileTree.location?_join (h.isAbsolute_dumpName p st) hX
  rw [hsteps, FileTree.along_append, FileTree.along, if_neg hdot, if_neg hup,
    FileTree.along] at hlocation
  exact ⟨_, last, hlocation, hsuffix⟩

/-- An artifact is not. -/
theorem artifact_location_ends (h : HasStem source stem) (ht : t.WellFormed)
    (hext : ¬ ".spv".toList <:+ '.' :: s.artifactExtension.toList)
    (hslash : FileTree.endsInSlash (s.artifactFor source e) = false)
    (hX : (t.locate (s.artifactFor source e)).location? = some X) (htakes : t.Takes X) :
    ∃ D last, X = D ++ [last] ∧ ¬ ".spv".toList <:+ last.toList := by
  obtain ⟨init, last, hsteps, _, _, hlocation, _⟩ := ht.ends_in_name hX htakes
  refine ⟨_, last, hlocation, fun hsuffix => hext ?_⟩
  have hpath := hsuffix.trans (FileTree.suffix_of_steps hslash hsteps)
  rw [h.artifactFor, join_eq _ h.isAbsolute_artifactName] at hpath
  have hwhole : ".spv".toList <:+ ((inside (s.outputFor source)).toList ++ stem.toList) ++
      '.' :: s.artifactExtension.toList := by simpa [Settings.artifactName] using hpath
  exact dumpEnding_of_append hwhole

/-- The words of a stage do not go where an artifact is. -/
theorem dump_location_ne (h : HasStem source stem) {p : Pass} {st : Stage} {L : Location}
    (hends : ∃ D last, L = D ++ [last] ∧ ¬ ".spv".toList <:+ last.toList)
    (hX : (t.locate (s.dumpFor source e p st)).location? = some X) : X ≠ L := by
  obtain ⟨D, last, hdump, hspv⟩ := h.dump_location_ends hX
  obtain ⟨D', last', hartifact, hnot⟩ := hends
  rintro rfl
  have hsame : [last] = [last'] := List.append_inj_right' (hdump.symm.trans hartifact) rfl
  rw [(List.cons.inj hsame).1] at hspv
  exact hnot hspv

end

end HasStem

namespace IsSource

variable {s : Settings} {path name stem : String}

theorem isStem (h : IsSource s name stem) : IsStem stem := by
  obtain ⟨hname, hne⟩ := splitName_eq_some h.split
  refine ⟨hne, fun hmem => h.isName.2.2.2 ?_⟩
  rw [hname]
  simp [hmem]

theorem hasStem (h : IsSource s name stem) : HasStem (join path name) stem :=
  ⟨h.isStem, by simp [Path.stem?, h.isName.fileName?_join, h.split]⟩

theorem eq_of_stem_eq {name' stem' : String} (h : IsSource s name stem)
    (h' : IsSource s name' stem') (hstem : stem = stem') : name = name' := by
  rw [(splitName_eq_some h.split).1, (splitName_eq_some h'.split).1, hstem]

/-- The files of all sources of a directory go to one directory. -/
theorem outputFor_join {name' stem' : String} (h : IsSource s name stem)
    (h' : IsSource s name' stem') :
    s.outputFor (join path name) = s.outputFor (join path name') := by
  unfold Settings.outputFor
  rw [h.isName.directoryOf_join, h'.isName.directoryOf_join]

/-- Artifacts of two sources of a directory differ in a component. -/
theorem components_artifactFor_ne {name' stem' : String} (h : IsSource s name stem)
    (h' : IsSource s name' stem') (hne : name ≠ name') (e e' : Effect) :
    components (s.artifactFor (join path name) e) ≠
      components (s.artifactFor (join path name') e') := by
  cases hext : pieces s.artifactExtension.toList with
  | nil => exact absurd hext (pieces_ne_nil _)
  | cons p ps =>
    obtain ⟨hempty, hdot⟩ := h.isStem.first_ne p
    obtain ⟨hempty', hdot'⟩ := h'.isStem.first_ne p
    rw [h.hasStem.artifactFor, h'.hasStem.artifactFor, h.outputFor_join h',
      components_join h.isStem.isAbsolute_artifactName (h.isStem.pieces_artifactName hext) hdot,
      components_join h'.isStem.isAbsolute_artifactName (h'.isStem.pieces_artifactName hext) hdot',
      said_cons hempty hdot, said_cons hempty' hdot']
    intro heq
    obtain ⟨hfirst, _⟩ := List.cons.inj (List.append_cancel_left heq)
    have hstems := List.append_cancel_right (String.ofList_injective hfirst)
    exact hne (h.eq_of_stem_eq h' (String.toList_inj.mp hstems))

section

variable {t : FileTree} {X Y : Location} {e e' : Effect}

/-- Artifacts of two sources lead to different locations. -/
theorem artifact_location_ne {name' stem' : String} (h : IsSource s name stem)
    (h' : IsSource s name' stem') (hne : name ≠ name') (hs : s.KeepsApart)
    (hX : (t.locate (s.artifactFor (join path name) e)).location? = some X)
    (hY : (t.locate (s.artifactFor (join path name') e')).location? = some Y) : X ≠ Y := by
  cases hext : pieces s.artifactExtension.toList with
  | nil => exact absurd hext (pieces_ne_nil _)
  | cons p ps =>
    have hsteps : ∀ {n st}, IsSource s n st → FileTree.steps (s.artifactName st) =
        String.ofList (st.toList ++ '.' :: p) :: (ps.map String.ofList).filter (· ≠ "") := by
      intro n st hn
      simp [FileTree.steps, hn.isStem.pieces_artifactName hext]
    have hclimb : ".." ∉ (ps.map String.ofList).filter (· ≠ "") := by
      intro hmem
      obtain ⟨q, hq, hup⟩ := List.mem_map.mp (List.mem_filter.mp hmem).1
      have hq' : q ∈ (pieces s.artifactExtension.toList).tail := by rw [hext]; exact hq
      exact hs.noClimb q hq' (by simpa using congrArg String.toList hup)
    rw [h.hasStem.artifactFor] at hX
    rw [h'.hasStem.artifactFor, ← h.outputFor_join h'] at hY
    rw [FileTree.location?_join h.isStem.isAbsolute_artifactName hX,
      FileTree.location?_join h'.isStem.isAbsolute_artifactName hY, hsteps h, hsteps h',
      FileTree.locationOf]
    have hdot : ∀ {n st}, IsSource s n st → String.ofList (st.toList ++ '.' :: p) ≠ "." := by
      intro n st hn heq
      exact (hn.isStem.first_ne p).2 (by simpa using congrArg String.toList heq)
    refine FileTree.along_cons_ne (hdot h) (hdot h') ?_ hclimb
    intro heq
    have hstems := List.append_cancel_right (String.ofList_injective heq)
    exact hne (h.eq_of_stem_eq h' (String.toList_inj.mp hstems))

end

end IsSource

/-- A file that can be read has a name, and so a stem. -/
theorem hasStem_of_readBytes {t : FileTree} {source : String} {bytes : List UInt8}
    (ht : t.WellFormed) (h : t.readBytes source = .ok bytes) : ∃ stem, HasStem source stem := by
  obtain ⟨_, X, hfound⟩ := FileTree.readBytes_eq_ok.mp h
  have hlocation : (t.locate source).location? = some X := by rw [hfound]; rfl
  have htakes : t.Takes X := by simp [FileTree.Takes, FileTree.lookup_of_found hfound]
  obtain ⟨init, last, hsteps, hdot, hup, _, _⟩ := ht.ends_in_name hlocation htakes
  have hlast : last ∈ FileTree.steps source := by simp [hsteps]
  have hname := FileTree.isName_of_mem_steps hlast hdot hup
  have hfileName : fileName? source = some last := by
    have hsaid : said (pieces source.toList) = (FileTree.steps source).filter (· ≠ ".") := by
      simp [said, FileTree.steps, List.filter_filter, Bool.and_comm]
    rw [fileName?, components_eq, hsaid, hsteps]
    split <;> simp [List.getLast?_cons, hdot, hup]
  refine ⟨(splitName last).1, ?_, by simp [Path.stem?, hfileName]⟩
  obtain ⟨hempty, _, _, hplain⟩ := hname
  cases hsplit : splitName last with
  | mk stem ext =>
    cases ext with
    | none =>
      obtain rfl := splitName_eq_none hsplit
      exact ⟨hempty, hplain⟩
    | some ext =>
      obtain ⟨hwhole, hne⟩ := splitName_eq_some hsplit
      refine ⟨hne, fun hmem => hplain ?_⟩
      rw [hwhole]
      simp [hmem]

/-- The names in a directory of a well-formed tree. -/
theorem names_of_wellFormed {t : FileTree} (ht : t.WellFormed) (loc : Location) :
    (t.entries.filterMap fun e =>
      if e.1.dropLast = loc then e.1.getLast? else none).Nodup ∧
    ∀ n ∈ t.entries.filterMap fun e => if e.1.dropLast = loc then e.1.getLast? else none,
      IsName n := by
  have hmem : ∀ e : Location × FileNode, ∀ n,
      (if e.1.dropLast = loc then e.1.getLast? else none) = some n → e.1 = loc ++ [n] := by
    intro e n hn
    split at hn
    · next hloc =>
      obtain ⟨init, hinit⟩ := List.getLast?_eq_some_iff.mp hn
      rw [hinit] at hloc ⊢
      rw [List.dropLast_concat] at hloc
      rw [hloc]
    · cases hn
  constructor
  · refine List.pairwise_filterMap.mpr ((List.pairwise_map.mp ht.distinct).imp ?_)
    rintro e e' hne n hn _ hn' rfl
    exact hne ((hmem e n hn).trans (hmem e' n hn').symm)
  · intro n hn
    obtain ⟨e, he, hen⟩ := List.mem_filterMap.mp hn
    exact ht.names e he n (by simp [hmem e n hen])

theorem isSource_of_wanted {t : FileTree} {s : Settings} {path n : String} {names : List String}
    (hnames : ∀ n ∈ names, IsName n) (hn : n ∈ wanted t s.sourceExtension path names) :
    ∃ stem, IsSource s n stem := by
  obtain ⟨hmem, hwanted⟩ := List.mem_filter.mp hn
  have hname := hnames n hmem
  have hext : (splitName n).2 = some s.sourceExtension := by
    simpa [extension?, hname.fileName?_join] using (Bool.and_eq_true_iff.mp hwanted).2
  exact ⟨(splitName n).1, hname, Prod.ext rfl hext⟩

/-- Sorting names that are all different leaves each before all that are greater. -/
theorem pairwise_lt_mergeSort {names : List String} (h : names.Nodup) :
    (names.mergeSort fun a b => decide (a ≤ b)).Pairwise (· < ·) := by
  let le := fun a b : String => decide (a ≤ b)
  have htrans : ∀ a b c, le a b = true → le b c = true → le a c = true := by
    simp only [le, decide_eq_true_eq]
    exact fun _ _ _ => String.le_trans
  have htotal : ∀ a b, (le a b || le b a) = true := by
    simp only [le, Bool.or_eq_true, decide_eq_true_eq]
    exact String.le_total
  have hsorted := List.pairwise_mergeSort htrans htotal names
  have hnodup : (names.mergeSort le).Nodup := (List.mergeSort_perm names le).nodup_iff.mpr h
  refine (hsorted.and hnodup).imp ?_
  rintro a b ⟨hle, hne⟩
  have hle' : a ≤ b := decide_eq_true_eq.mp hle
  exact Classical.byContradiction fun hlt => hne (String.le_antisymm hle' (String.not_lt.mp hlt))

/-- The sources of a directory: files in the order of their names, all with the extension of
sources. -/
theorem collected_sources {t : FileTree} {s : Settings} {path : String} {sources : List String}
    (ht : t.WellFormed) (hdir : t.isDirectory path = true)
    (h : (collectSources FileTree.files path s.sourceExtension).run t = (.ok sources, t)) :
    ∃ names : List String, sources = names.map (join path) ∧ names.Pairwise (· < ·) ∧
      ∀ n ∈ names, ∃ stem, IsSource s n stem := by
  obtain ⟨loc, hlist⟩ := list_of_isDirectory hdir
  rw [collectSources_run s.sourceExtension hdir hlist] at h
  cases h
  obtain ⟨hnodup, hnames⟩ := names_of_wellFormed ht loc
  refine ⟨_, rfl, pairwise_lt_mergeSort (hnodup.sublist List.filter_sublist), ?_⟩
  intro n hn
  exact isSource_of_wanted hnames ((List.mergeSort_perm _ _).mem_iff.mp hn)

end Kfx
